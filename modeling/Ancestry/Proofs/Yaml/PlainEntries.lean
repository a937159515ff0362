import Ancestry.Proofs.Yaml.PlainTokens
import Ancestry.Yaml.Meaning

/-!
Documents of plain entries, as nodes: a mapping at the root, and a pair of scalars for each line.
-/

namespace Ancestry.Yaml

section
variable {σ α β : Type}

theorem bind_apply (x : StateT σ (Except Error) α) (f : α → StateT σ (Except Error) β) (s : σ) :
    (x >>= f) s = x s >>= fun p => f p.1 p.2 :=
  rfl

/-- A computation that begins with one that succeeds goes on from there. -/
theorem bind_of_ok {x : StateT σ (Except Error) α} {s s' : σ} {a : α} (h : x s = .ok (a, s'))
    (f : α → StateT σ (Except Error) β) : (x >>= f) s = f a s' := by
  rw [bind_apply, h]
  rfl

theorem map_of_ok {x : StateT σ (Except Error) α} {s s' : σ} {a : α} (h : x s = .ok (a, s'))
    (f : α → β) : (f <$> x) s = .ok (f a, s') := by
  rw [map_eq_pure_bind]
  exact bind_of_ok h _

end

/-- The node of a word. -/
def Node.plain (w : List Char) (m : Mark) : Node :=
  ⟨plainKind (String.ofList w), .scalar (String.ofList w), m⟩

/-- The reader without the next token. -/
def Reader.pop (r : Reader) : Reader :=
  { r with tokens := r.tokens.drop 1, taken := r.taken + 1 }

/-- What is read so far, with the reader at another place. -/
def NodeReader.goTo (s : NodeReader) (r : Reader) : NodeReader :=
  { s with reader := r }

namespace ReadNode
variable {s : NodeReader} {r : Reader} {token : Token} {tokens : List Token}

theorem pure_apply {α : Type} (a : α) (s : NodeReader) : (pure a : ReadNode α) s = .ok (a, s) :=
  rfl

theorem ok_bind {α β : Type} (a : α) (f : α → Except Error β) : (Except.ok a >>= f) = f a :=
  rfl

theorem peek_eq (h : s.reader.settle = .ok r) (ht : r.tokens = token :: tokens) :
    peek s = .ok (token, s.goTo r) := by
  have hget : (get : ReadNode NodeReader) s = .ok (s, s) := rfl
  have hlift : (liftM s.reader.settle : ReadNode Reader) s = .ok (r, s) := by
    rw [h]
    rfl
  have hmodify : (modify fun s => { s with reader := r } : ReadNode Unit) s = .ok ((), s.goTo r) := rfl
  rw [peek]
  refine (bind_of_ok hget _).trans ?_
  refine (bind_of_ok hlift _).trans ?_
  refine (bind_of_ok hmodify _).trans ?_
  rw [ht]
  rfl

theorem next_eq (h : s.reader.settle = .ok r) (ht : r.tokens = token :: tokens) :
    next s = .ok (token, s.goTo r.pop) := by
  rw [next, bind_apply, peek_eq h ht]
  rfl

theorem isAt_eq (kinds : List TokenKind) (h : s.reader.settle = .ok r)
    (ht : r.tokens = token :: tokens) :
    isAt kinds s = .ok (kinds.contains token.kind, s.goTo r) := by
  rw [isAt, bind_apply, peek_eq h ht]
  rfl

/-- A plain scalar becomes a node. -/
theorem node_scalar {text : String} {start stop : Mark} (block dashes : Bool) (fuel : Nat)
    (h : s.reader.settle = .ok r) (hr : r.settle = .ok r)
    (ht : r.tokens = ⟨.scalar text true, start, stop⟩ :: tokens) :
    node block dashes (fuel + 1) s =
      .ok (s.graph.size, { s.goTo r.pop with
        graph := s.graph.push ⟨plainKind text, .scalar text, start⟩ }) := by
  have hr' : (s.goTo r).reader.settle = .ok r := hr
  have hp := peek_eq hr' ht
  have hprops : properties (s.goTo r) = .ok ({}, s.goTo r) := by
    rw [properties, bind_apply, hp]
    rfl
  have ha (node : Node) (s : NodeReader) :
      anchored none node s = .ok (s.graph.size, { s with graph := s.graph.push node }) := rfl
  have hn (t : NodeReader) (hs : t.reader = r) := next_eq (s := t) (r := r) (hs ▸ hr) ht
  simp only [node, bind_apply, ok_bind, peek_eq h ht, hprops, hp, pure_apply, ha]
  rw [hn _ rfl]
  rfl

/-- A block mapping becomes a node that holds its pairs. -/
theorem node_mapping {start stop : Mark} {fuel : Nat} {pairs : List (Nat × Nat)} {s' : NodeReader}
    (dashes : Bool) (h : s.reader.settle = .ok r) (hr : r.settle = .ok r)
    (ht : r.tokens = ⟨.blockMappingStart, start, stop⟩ :: tokens)
    (hp : blockPairs start fuel { s.goTo r.pop with
      graph := s.graph.push ⟨standard "map", .mapping [], start⟩ } = .ok (pairs, s')) :
    node true dashes (fuel + 1) s =
      .ok (s.graph.size, { s' with graph := s'.graph.setBody s.graph.size (.mapping pairs) }) := by
  have hpeek := peek_eq (s := s.goTo r) hr ht
  have hprops : properties (s.goTo r) = .ok ({}, s.goTo r) := by
    rw [properties, bind_apply, hpeek]
    rfl
  have hnext := next_eq (s := { s.goTo r with
    graph := s.graph.push ⟨standard "map", .mapping [], start⟩ }) hr ht
  have ha : anchored none ⟨standard "map", .mapping [], start⟩ (s.goTo r) =
    .ok (s.graph.size, { s.goTo r with graph := s.graph.push _ }) := rfl
  rw [node]
  refine (bind_of_ok (peek_eq h ht) _).trans ?_
  refine (bind_of_ok hprops _).trans ?_
  refine (bind_of_ok (pure_apply none _) _).trans ?_
  refine (bind_of_ok hpeek _).trans ?_
  refine (bind_of_ok ha _).trans ?_
  refine (bind_of_ok hnext _).trans ?_
  exact (bind_of_ok hp _).trans rfl

/-- A key and its value become two nodes and a pair. -/
theorem blockPairs_entry {size taken fuel : Nat} {m : Mark} {k v rest : List Char} (start : Mark)
    (hv : PlainWord v) (hr : StartsLine rest)
    (h : s.reader.settle =
      .ok (.behindColon size taken (Reader.entryTokens m k) (m.along (k.length + 1))
        (' ' :: v ++ '\n' :: rest))) :
    blockPairs start (fuel + 2) s =
      blockPairs start (fuel + 1) { s with
        reader := .atLine size (taken + 4) false
          ((m.along (k.length + 2)).along v.length).nextLine rest
        graph := (s.graph.push (.plain k m)).push (.plain v (m.along (k.length + 2))) } >>=
        fun p => .ok ((s.graph.size, s.graph.size + 1) :: p.1, p.2) := by
  let behind (taken : Nat) (tokens : List Token) : Reader :=
    .behindColon size taken tokens (m.along (k.length + 1)) (' ' :: v ++ '\n' :: rest)
  let valueToken : Token := ⟨.value, m.along k.length, m.along (k.length + 1)⟩
  have hcertain (taken : Nat) (token : Token) (tokens : List Token) :
      (behind taken (token :: tokens)).settle = .ok (behind taken (token :: tokens)) :=
    Reader.settleFrom_certain (List.cons_ne_nil _ _) rfl _
  -- the key
  have hk := hcertain (taken + 1) ⟨.scalar (String.ofList k) true, m, m.along k.length⟩ [valueToken]
  have hnode := node_scalar (s := s.goTo (behind (taken + 1) _)) true true fuel hk hk rfl
  -- the colon, behind which the value is read
  let s' : NodeReader := { s.goTo (behind (taken + 2) [valueToken]) with
    graph := s.graph.push (.plain k m) }
  have hc := hcertain (taken + 2) valueToken []
  have hvalue : (s'.goTo (behind (taken + 3) [])).reader.settle = _ := Reader.settle_value hv hr
  have hentry : (Reader.behindEntry size (taken + 3) ((m.along (k.length + 1)).along 1) v rest).settle =
    .ok _ := Reader.settleFrom_certain (by simp [Reader.behindEntry]) rfl _
  have hlast := node_scalar (s := s'.goTo _) true true fuel hentry hentry rfl
  have h₁ := next_eq h rfl
  have h₂ := isAt_eq (s := s.goTo (behind (taken + 1) _)) [.key, .value, .blockEnd] hk rfl
  have h₃ := peek_eq (s := s') hc rfl
  have h₄ := next_eq (s := s') hc rfl
  have h₅ := isAt_eq [.key, .value, .blockEnd] hvalue rfl
  rw [blockPairs]
  refine (bind_of_ok h₁ _).trans ?_
  refine (bind_of_ok h₂ _).trans ?_
  refine (bind_of_ok hnode _).trans ?_
  refine (bind_of_ok h₃ _).trans ?_
  refine (bind_of_ok h₄ _).trans ?_
  refine (bind_of_ok h₅ _).trans ?_
  refine (bind_of_ok hlast _).trans ?_
  have hsize : s'.graph.size = s.graph.size + 1 := by simp [s', Graph.size, Graph.push]
  rw [← hsize]
  rfl

/-- Where the text ends, so do the pairs. -/
theorem blockPairs_end {size taken fuel : Nat} {m : Mark} (start : Mark) (hm : m.column = 0)
    (h : s.reader = .atLine size taken false m []) :
    blockPairs start (fuel + 1) s =
      .ok ([], s.goTo (.ended size (taken + 1) m [⟨.streamEnd, m, m⟩])) := by
  have he : (Reader.atLine size taken false m []).settle = _ := Reader.settle_end hm
  rw [← h] at he
  rw [blockPairs]
  exact bind_of_ok (next_eq he rfl) _

/-- Behind the end of the stream there is no document. -/
theorem nextDocument_end {start stop : Mark} (fuel : Nat) (h : s.reader.settle = .ok r)
    (hr : r.settle = .ok r) (ht : r.tokens = ⟨.streamEnd, start, stop⟩ :: tokens) :
    nextDocument (fuel + 1) s = .ok (none, s.goTo r) := by
  have hskip : skipEnds (fuel + 1) s = .ok ((), s.goTo r) := by
    rw [skipEnds]
    exact bind_of_ok (isAt_eq _ h ht) _
  have hpeek := peek_eq (s := s.goTo r) hr ht
  rw [nextDocument]
  refine (bind_of_ok hskip _).trans ?_
  exact bind_of_ok hpeek _

/-- A stream that is one node is a document. -/
theorem document_of_node {start stop : Mark} {fuel root : Nat} {s' : NodeReader} {r' : Reader}
    {tokens' : List Token} (h : s.reader.settle = .ok r) (ht : r.tokens = token :: tokens)
    (hk : isHead token.kind = false)
    (hn : node true false (fuel + 1) { s.goTo r with handles := defaultHandles } = .ok (root, s'))
    (he : s'.reader.settle = .ok r') (hr : r'.settle = .ok r')
    (ht' : r'.tokens = ⟨.streamEnd, start, stop⟩ :: tokens') :
    document (fuel + 1) s = .ok (some root, s'.goTo r') := by
  have hat := isAt_eq [.documentEnd] he ht'
  have hnext := nextDocument_end (s := s'.goTo r') fuel hr hr ht'
  rw [document]
  refine (bind_of_ok (peek_eq h ht) _).trans ?_
  rw [hk, if_neg Bool.false_ne_true]
  have hmodify : (modify fun r => { r with handles := defaultHandles } : ReadNode Unit) (s.goTo r) =
      .ok ((), { s.goTo r with handles := defaultHandles }) := rfl
  refine (bind_of_ok hmodify _).trans ?_
  refine (bind_of_ok (map_of_ok hn some) _).trans ?_
  refine (bind_of_ok hat _).trans ?_
  exact bind_of_ok hnext _

end ReadNode

/-- A line with an entry. -/
def entryLine (k v : List Char) : List Char :=
  k ++ ':' :: ' ' :: v ++ ['\n']

section
variable {k₁ v₁ k₂ v₂ : List Char}

/-- Two lines with entries become a mapping of two pairs. -/
theorem Document.read_two (hk₁ : PlainWord k₁) (hl₁ : k₁.length ≤ 1024) (hv₁ : PlainWord v₁)
    (hk₂ : PlainWord k₂) (hl₂ : k₂.length ≤ 1024) (hv₂ : PlainWord v₂) :
    ∃ m₁ m₂ m₃ m₄, Document.read ⟨entryLine k₁ v₁ ++ entryLine k₂ v₂, none⟩ =
      .ok (some ⟨⟨#[⟨standard "map", .mapping [(1, 2), (3, 4)], {}⟩, .plain k₁ m₁, .plain v₁ m₂,
        .plain k₂ m₃, .plain v₂ m₄]⟩, 0⟩) := by
  let m₁ : Mark := {}
  let m₂ := m₁.along (k₁.length + 2)
  let m₃ := (m₂.along v₁.length).nextLine
  let m₄ := m₃.along (k₂.length + 2)
  refine ⟨m₁, m₂, m₃, m₄, ?_⟩
  let line := k₂ ++ ':' :: ' ' :: (v₂ ++ ['\n'])
  have htext : entryLine k₁ v₁ ++ entryLine k₂ v₂ = k₁ ++ ':' :: ' ' :: (v₁ ++ '\n' :: line) := by
    simp [entryLine, line]
  rw [htext]
  generalize hsize : (k₁ ++ ':' :: ' ' :: (v₁ ++ '\n' :: line)).length = size
  have hstart : Reader.ofIntake ⟨k₁ ++ ':' :: ' ' :: (v₁ ++ '\n' :: line), none⟩ =
      .atLine size 0 true {} (k₁ ++ ':' :: ' ' :: (v₁ ++ '\n' :: line)) := by
    obtain ⟨c, hp, hc⟩ := hk₁.head? (':' :: ' ' :: (v₁ ++ '\n' :: line))
    have hn : c ≠ '\ufeff' := ne_of_isWordMark hc (by decide)
    simp [Reader.ofIntake, Cursor.peek?, hp, hn, hsize, Reader.atLine]
  let s : NodeReader := { reader := .ofIntake ⟨k₁ ++ ':' :: ' ' :: (v₁ ++ '\n' :: line), none⟩ }
  let r : Reader := .behindColon size 0 (⟨.blockMappingStart, m₁, m₁⟩ :: Reader.entryTokens m₁ k₁)
    (m₁.along (k₁.length + 1)) (' ' :: (v₁ ++ '\n' :: line))
  have hfirst : s.reader.settle = .ok r :=
    (congrArg _ hstart).trans (Reader.settle_key rfl hk₁ hl₁)
  have hr : r.settle = .ok r := Reader.settleFrom_certain (List.cons_ne_nil _ _) rfl _
  let root : Node := ⟨standard "map", .mapping [], m₁⟩
  -- the pairs, in the state in which the mapping asks for them
  let t : NodeReader := { reader := r.pop, graph := Graph.push {} root, handles := defaultHandles }
  have ht : t.reader.settle = .ok t.reader := Reader.settleFrom_certain (List.cons_ne_nil _ _) rfl _
  have hend : StartsLine line := hk₂.startsLine _
  let t' : NodeReader := { t with
    reader := .atLine size 5 false m₃ line
    graph := (t.graph.push (.plain k₁ m₁)).push (.plain v₁ m₂) }
  have ht' : t'.reader.settle = _ :=
    show (Reader.atLine size 5 false m₃ line).settle = _ from Reader.settle_key rfl hk₂ hl₂
  let m₅ := (m₄.along v₂.length).nextLine
  let t'' : NodeReader := { t' with
    reader := .atLine size 9 false m₅ []
    graph := (t'.graph.push (.plain k₂ m₃)).push (.plain v₂ m₄) }
  have hnone : StartsLine [] := fun c h => by cases h
  have hpairs : ReadNode.blockPairs m₁ (16 * size + 63) t =
      .ok ([(1, 2), (3, 4)], t''.goTo (.ended size 10 m₅ [⟨.streamEnd, m₅, m₅⟩])) := by
    refine (ReadNode.blockPairs_entry m₁ hv₁ (hk₂.startsLine _) ht).trans ?_
    refine (congrArg (· >>= _) (ReadNode.blockPairs_entry (s := t') m₁ hv₂ hnone ht')).trans ?_
    exact (congrArg (· >>= _) (congrArg (· >>= _)
      (ReadNode.blockPairs_end (s := t'') m₁ rfl rfl))).trans rfl
  have hnode := ReadNode.node_mapping (s := { t with reader := r, graph := {} }) false hr hr rfl hpairs
  -- behind the mapping there is only the end of the stream
  let u : NodeReader := { t''.goTo (.ended size 10 m₅ [⟨.streamEnd, m₅, m₅⟩]) with
    graph := t''.graph.setBody 0 (.mapping [(1, 2), (3, 4)]) }
  have hu : u.reader.settle = .ok u.reader :=
    Reader.settleFrom_certain (List.cons_ne_nil _ _) rfl _
  have hdocument := ReadNode.document_of_node (s := s) hfirst rfl rfl hnode hu hu rfl
  have hrun : Document.read ⟨k₁ ++ ':' :: ' ' :: (v₁ ++ '\n' :: line), none⟩ =
      ReadNode.document (16 * size + 64) s >>= fun p =>
        .ok (p.1.map fun root => ⟨p.2.graph, root⟩) := by
    rw [← hsize]
    rfl
  rw [hrun, hdocument]
  rfl

end
end Ancestry.Yaml
