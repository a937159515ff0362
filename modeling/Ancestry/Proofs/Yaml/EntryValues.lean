import Ancestry.Proofs.Yaml.PlainEntries
import Mathlib.Algebra.Group.Int.Defs
import Mathlib.Algebra.Group.Nat.Defs

/-!
Values of documents of plain entries. The bytes of such a document come in as its text, the words behind
the colons have values of their own, and the mapping at the root takes its only turn.
-/

namespace Ancestry.Yaml

namespace AtomKind

theorem ofKind?_standard (kind : AtomKind) : ofKind? (standard kind.name) = some kind := by
  cases kind <;> decide +kernel

end AtomKind

namespace Construct
variable {m : Meaning} {id : Nat}

theorem get_apply (m : Meaning) : (get : Construct Meaning) m = .ok (m, m) :=
  rfl

theorem node_apply (m : Meaning) (id : Nat) : node id m = .ok (m.graph.node id, m) :=
  rfl

theorem scalarText_scalar {g : Graph} {text : String} (fuel : Nat)
    (hb : (g.node id).body = .scalar text) : scalarText g (fuel + 1) id = .ok text := by
  rw [scalarText]
  simp only [hb]

theorem atom_scalar {kind : AtomKind} {text : String} {value : Value}
    (hb : (m.graph.node id).body = .scalar text)
    (hv : atomOf id (m.graph.node id).start kind text = .ok value) :
    atom id kind m = .ok (value, m) := by
  have ht : (liftM (scalarText m.graph (m.graph.size + 1) id) : Construct String) m = .ok (text, m) := by
    rw [scalarText_scalar _ hb]
    rfl
  rw [atom]
  refine (bind_of_ok (get_apply m) _).trans ?_
  refine (bind_of_ok ht _).trans ?_
  simp only [hb, hv]
  rfl

/-- A scalar that is met for the first time gets its value. -/
theorem item_scalar {kind : AtomKind} {text : String} {start : Mark} {value : Value}
    (hi : m.items[id]?.join = none)
    (hn : m.graph.node id = ⟨standard kind.name, .scalar text, start⟩)
    (hv : atomOf id start kind text = .ok value) :
    item id m =
      .ok (.atom value, { m with items := m.items.setIfInBounds id (some (.atom value)) }) := by
  have ha : atom id kind m = .ok (value, m) := atom_scalar (by rw [hn]) (by rw [hn, hv])
  rw [item]
  refine (bind_of_ok (get_apply m) _).trans ?_
  simp only [hi]
  refine (bind_of_ok (node_apply m id) _).trans ?_
  simp only [hn, AtomKind.ofKind?_standard]
  refine (bind_of_ok (map_of_ok ha _) _).trans ?_
  rfl

theorem item_text {text : String} {start : Mark} (hi : m.items[id]?.join = none)
    (hn : m.graph.node id = ⟨standard "str", .scalar text, start⟩) :
    item id m =
      .ok (.atom (.text text), { m with
        items := m.items.setIfInBounds id (some (.atom (.text text))) }) :=
  @item_scalar m id .str text start _ hi hn rfl

/-- A collection that is met for the first time joins the queue. -/
theorem item_collection {kind : CollectionKind} (hi : m.items[id]?.join = none)
    (ha : AtomKind.ofKind? (m.graph.node id).kind = none)
    (hc : CollectionKind.ofKind? (m.graph.node id).kind = some kind) :
    item id m = .ok (.collection id, { m with
      queue := m.queue ++ [id]
      items := m.items.setIfInBounds id (some (.collection id)) }) := by
  rw [item]
  refine (bind_of_ok (get_apply m) _).trans ?_
  simp only [hi]
  refine (bind_of_ok (node_apply m id) _).trans ?_
  simp only [ha, hc]
  rfl

theorem pairsOf_mapping {pairs : List (Nat × Nat)}
    (hb : (m.graph.node id).body = .mapping pairs) : pairsOf id m = .ok (pairs, m) := by
  rw [pairsOf]
  refine (bind_of_ok (node_apply m id) _).trans ?_
  simp only [hb]
  rfl

/-- Pairs with texts for their keys stay as they are. -/
theorem flattenFrom_texts {pairs : List (Nat × Nat)} {fuel index : Nat}
    (hb : (m.graph.node id).body = .mapping pairs)
    (hk : ∀ p ∈ pairs, (m.graph.node p.1).kind = standard "str")
    (hi : index ≤ pairs.length) (hf : pairs.length < fuel + index) :
    flattenFrom fuel id index [] m =
      .ok ((), { m with graph := m.graph.setBody id (.mapping pairs) }) := by
  induction fuel generalizing index with
  | zero => omega
  | succ fuel ih =>
    rw [flattenFrom]
    refine (bind_of_ok (pairsOf_mapping hb) _).trans ?_
    cases hp : pairs[index]? with
    | none => rfl
    | some pair =>
      obtain ⟨key, value⟩ := pair
      obtain ⟨hlt, hget⟩ := List.getElem?_eq_some_iff.1 hp
      have hkey : (m.graph.node key).kind = standard "str" :=
        hk (key, value) (hget ▸ List.getElem_mem hlt)
      have hmerge : standard "str" ≠ standard "merge" := by decide +kernel
      have hvalue : standard "str" ≠ standard "value" := by decide +kernel
      refine (bind_of_ok (node_apply m key) _).trans ?_
      simp only [hkey, if_neg hmerge, if_neg hvalue]
      exact ih hlt (by omega)

theorem flatten_texts {pairs : List (Nat × Nat)}
    (hb : (m.graph.node id).body = .mapping pairs)
    (hk : ∀ p ∈ pairs, (m.graph.node p.1).kind = standard "str")
    (hf : pairs.length ≤ m.graph.size) :
    flatten id m = .ok ((), { m with graph := m.graph.setBody id (.mapping pairs) }) := by
  have hn : m.graph.size + 2 ≤ (m.graph.size + 2) * (m.graph.size + 2) * (m.graph.size + 2) :=
    Nat.le_mul_of_pos_left _ (by simp)
  refine (bind_of_ok (get_apply m) _).trans ?_
  exact flattenFrom_texts hb hk (Nat.zero_le _) (by omega)

/-- Two pairs with different keys. -/
theorem keyedItems_two {m₁ m₂ m₃ m₄ : Meaning} {a b c d : Nat} {k₁ k₂ : Value} {x₁ x₂ : Item}
    (hb : (m.graph.node id).body = .mapping [(a, b), (c, d)]) (hf : flatten id m = .ok ((), m))
    (h₁ : item a m = .ok (.atom k₁, m₁)) (h₂ : item b m₁ = .ok (x₁, m₂))
    (h₃ : item c m₂ = .ok (.atom k₂, m₃)) (h₄ : item d m₃ = .ok (x₂, m₄))
    (hk : k₁.sameKey k₂ = false) : keyedItems id m = .ok ([(k₁, x₁), (k₂, x₂)], m₄) := by
  rw [keyedItems]
  refine (bind_of_ok (node_apply m id) _).trans ?_
  simp only [hb]
  refine (bind_of_ok hf _).trans ?_
  refine (bind_of_ok (pairsOf_mapping hb) _).trans ?_
  have hput₁ : putPair [] k₁ x₁ = [(k₁, x₁)] := rfl
  have hput₂ : putPair [(k₁, x₁)] k₂ x₂ = [(k₁, x₁), (k₂, x₂)] := by simp [putPair, hk]
  simp only [List.foldlM_cons, List.foldlM_nil]
  refine (bind_of_ok ((bind_of_ok h₁ _).trans (bind_of_ok h₂ _)) _).trans ?_
  rw [hput₁]
  refine (bind_of_ok ((bind_of_ok h₃ _).trans (bind_of_ok h₄ _)) _).trans ?_
  rw [hput₂]
  rfl

theorem runQueue_nil (hq : m.queue = []) (fuel : Nat) : runQueue fuel m = .ok ((), m) := by
  cases fuel with
  | zero => rfl
  | succ fuel =>
    rw [runQueue]
    refine (bind_of_ok (get_apply m) _).trans ?_
    simp only [hq]
    rfl

/-- The collection in front of the queue takes its turn. -/
theorem runQueue_cons {kind : CollectionKind} {found : Content} {rest : List Nat} {m' : Meaning}
    (hq : m.queue = id :: rest) (hc : CollectionKind.ofKind? (m.graph.node id).kind = some kind)
    (hf : content id kind { m with queue := rest } = .ok (found, m')) (fuel : Nat) :
    runQueue (fuel + 1) m =
      runQueue fuel { m' with contents := m'.contents.setIfInBounds id (some found) } := by
  rw [runQueue]
  refine (bind_of_ok (get_apply m) _).trans ?_
  simp only [hq]
  have hmodify : (modify fun m => { m with queue := rest } : Construct Unit) m =
      .ok ((), { m with queue := rest }) := rfl
  refine (bind_of_ok hmodify _).trans ?_
  refine (bind_of_ok (node_apply _ id) _).trans ?_
  simp only [hc]
  exact (bind_of_ok hf _).trans rfl

end Construct

/-- A document has the value of its root once all collections have had their turn. -/
theorem Document.value_of_runQueue {d : Document} {root : Item} {m m' : Meaning}
    (hroot : Construct.item d.root ⟨d.graph, Array.replicate d.graph.size none,
      Array.replicate d.graph.size none, []⟩ = .ok (root, m))
    (hq : Construct.runQueue (d.graph.size + 1) m = .ok ((), m')) :
    d.value = .ok (m'.rootValue root) := by
  let construct : Construct Item := do
    let root ← Construct.item d.root
    Construct.runQueue (d.graph.size + 1)
    pure root
  have hrun : construct.run ⟨d.graph, Array.replicate d.graph.size none,
      Array.replicate d.graph.size none, []⟩ = .ok (root, m') :=
    (bind_of_ok hroot _).trans ((bind_of_ok hq _).trans rfl)
  rw [Document.value]
  exact (congrArg (· >>= _) hrun).trans rfl

section
variable {k₁ v₁ k₂ v₂ : String} {s₂ s₄ : Mark} {a₁ a₂ : AtomKind} {x₁ x₂ : Value}

/-- A mapping of two pairs of scalars has their values. -/
theorem Document.value_two (s₁ s₃ : Mark) (hk : k₁ ≠ k₂) (h₁ : atomOf 2 s₂ a₁ v₁ = .ok x₁)
    (h₂ : atomOf 4 s₄ a₂ v₂ = .ok x₂) :
    Document.value ⟨⟨#[⟨standard "map", .mapping [(1, 2), (3, 4)], {}⟩,
        ⟨standard "str", .scalar k₁, s₁⟩, ⟨standard a₁.name, .scalar v₁, s₂⟩,
        ⟨standard "str", .scalar k₂, s₃⟩, ⟨standard a₂.name, .scalar v₂, s₄⟩]⟩, 0⟩ =
      .ok (.mapping [(.text k₁, x₁), (.text k₂, x₂)]) := by
  let g : Graph := ⟨#[⟨standard "map", .mapping [(1, 2), (3, 4)], {}⟩,
    ⟨standard "str", .scalar k₁, s₁⟩, ⟨standard a₁.name, .scalar v₁, s₂⟩,
    ⟨standard "str", .scalar k₂, s₃⟩, ⟨standard a₂.name, .scalar v₂, s₄⟩]⟩
  let root : Item := .collection 0
  let none₅ {α : Type} : Array (Option α) := #[none, none, none, none, none]
  let m₁ : Meaning := ⟨g, #[some root, none, none, none, none], none₅, [0]⟩
  have hmap : AtomKind.ofKind? (standard "map") = none := by decide +kernel
  have hmap' : CollectionKind.ofKind? (standard "map") = some .map := by decide +kernel
  have hroot : Construct.item 0 ⟨g, none₅, none₅, []⟩ = .ok (root, m₁) :=
    Construct.item_collection rfl hmap hmap'
  -- the mapping takes its turn
  let m₂ : Meaning := { m₁ with queue := [] }
  have hmapping : (m₂.graph.node 0).body = .mapping [(1, 2), (3, 4)] := rfl
  have hkeys : ∀ p ∈ [(1, 2), (3, 4)], (m₂.graph.node p.1).kind = standard "str" :=
    List.forall_mem_cons.2 ⟨rfl, List.forall_mem_singleton.2 rfl⟩
  have hflat : Construct.flatten 0 m₂ = .ok ((), m₂) :=
    Construct.flatten_texts hmapping hkeys (Nat.le_add_left 2 3)
  let known (items : List (Option Item)) : Meaning := { m₂ with items := ⟨some root :: items⟩ }
  let key₁ : Option Item := some (.atom (.text k₁))
  let key₂ : Option Item := some (.atom (.text k₂))
  have hk₁ : Construct.item 1 m₂ = .ok (.atom (.text k₁), known [key₁, none, none, none]) :=
    Construct.item_text rfl rfl
  have hv₁ : Construct.item 2 (known [key₁, none, none, none]) =
      .ok (.atom x₁, known [key₁, some (.atom x₁), none, none]) :=
    Construct.item_scalar rfl rfl h₁
  have hk₂ : Construct.item 3 (known [key₁, some (.atom x₁), none, none]) =
      .ok (.atom (.text k₂), known [key₁, some (.atom x₁), key₂, none]) :=
    Construct.item_text rfl rfl
  have hv₂ : Construct.item 4 (known [key₁, some (.atom x₁), key₂, none]) =
      .ok (.atom x₂, known [key₁, some (.atom x₁), key₂, some (.atom x₂)]) :=
    Construct.item_scalar rfl rfl h₂
  have hpairs := Construct.keyedItems_two hmapping hflat hk₁ hv₁ hk₂ hv₂ (by simp [Value.sameKey, hk])
  have hcontent : Construct.content 0 .map m₂ = _ := map_of_ok hpairs Content.mapping
  let m₃ : Meaning := { known [key₁, some (.atom x₁), key₂, some (.atom x₂)] with
    contents := #[some (.mapping [(.text k₁, .atom x₁), (.text k₂, .atom x₂)]), none, none, none,
      none] }
  have hkind : CollectionKind.ofKind? (m₁.graph.node 0).kind = some .map := hmap'
  have hqueue : Construct.runQueue 6 m₁ = .ok ((), m₃) :=
    (Construct.runQueue_cons rfl hkind hcontent 5).trans (Construct.runQueue_nil rfl 5)
  exact Document.value_of_runQueue (d := ⟨g, 0⟩) hroot hqueue

end

/-! ### Hexadecimal numerals -/

section
variable {s : String} {d : List Char}

theorem isBool_of_zero (hs : s.toList = '0' :: d) : isBool s = false := by
  have hwords : ∀ w ∈ ["yes", "Yes", "YES", "no", "No", "NO", "true", "True", "TRUE", "false",
      "False", "FALSE", "on", "On", "ON", "off", "Off", "OFF"], w.toList.head? ≠ some '0' := by
    decide +kernel
  refine Bool.not_eq_true _ ▸ fun hb => hwords s (List.contains_iff_mem.1 hb) ?_
  rw [hs]
  rfl

/-- What is written like a hexadecimal number is one. -/
theorem plainKind_hex (hs : s.toList = '0' :: 'x' :: d) (hd : d ≠ []) (hm : ∀ c ∈ d, isHexMark c) :
    plainKind s = standard "int" := by
  have hlast : ('0' :: 'x' :: d).getLast? ≠ some '\n' := by
    intro h
    have hd : '\n' ∈ d := by simpa using List.mem_of_getLast? h
    exact absurd (hm '\n' hd) (by decide)
  have hend : String.ofList (dropLineEnd s.toList) = s := by
    rw [dropLineEnd, hs, if_neg hlast, ← hs, String.ofList_toList]
  have hfloat : isFloat s = false := by
    simp [isFloat, hs, dropSign, isDigitMark, sixtieths?, sixtieth?]
  have hint : isInt s := by
    simpa [isInt, hs, dropSign, hd] using hm
  have hlong : s.toList.length ≠ 1 := by simp [hs]
  rw [plainKind]
  simp only [if_neg hlong, hend, isBool_of_zero hs, hfloat, hint]
  rfl

end

section
variable {s : String}
open Ancestry.Number

theorem takeDigits_replicate (n : Nat) :
    takeDigits 16 (List.replicate n 'f') = (List.replicate n 15, []) := by
  induction n with
  | zero => rfl
  | succ n ih =>
    have hf : (digit? 'f').filter (· < 16) = some 15 := by decide
    rw [List.replicate_succ, takeDigits]
    simp [hf, ih, List.replicate_succ]

theorem foldl_replicate (n size : Nat) :
    (List.replicate n 15).foldl (fun n d => n * 16 + d) size + 1 = (size + 1) * 16 ^ n := by
  induction n generalizing size with
  | zero => simp
  | succ n ih =>
    have hs : size * 16 + 15 + 1 = (size + 1) * 16 := by omega
    rw [List.replicate_succ, List.foldl_cons, ih, hs, Nat.pow_succ, Nat.mul_assoc, Nat.mul_comm 16]

theorem whole_replicate (n : Nat) :
    whole 16 (String.ofList (List.replicate (n + 1) 'f')) = .ok (16 ^ (n + 1) - 1 : Int) := by
  have hc : plainChars (String.ofList (List.replicate (n + 1) 'f')) = List.replicate (n + 1) 'f' := by
    have hf : plainChar 'f' = 'f' := by decide
    have hb : isBlank 'f' = false := by decide
    simp [plainChars, hf, List.replicate_succ, hb]
  have hsign : takeSign (List.replicate (n + 1) 'f') = (false, List.replicate (n + 1) 'f') := rfl
  have hmark : dropBaseMark 16 (List.replicate (n + 1) 'f') = List.replicate (n + 1) 'f' := rfl
  have hsize : ((List.replicate (n + 1) 15).foldl (fun n d => n * 16 + d) 0 : Nat) =
      (16 ^ (n + 1) - 1 : Int) := by
    have hone := foldl_replicate (n + 1) 0
    rw [Nat.zero_add, Nat.one_mul] at hone
    have hpow : ((16 ^ (n + 1) : Nat) : Int) = 16 ^ (n + 1) := Int.natCast_pow 16 (n + 1)
    rw [← hpow, ← hone]
    exact (Int.add_sub_cancel _ 1).symm
  have hne : List.replicate (n + 1) 15 ≠ [] := List.cons_ne_nil _ _
  rw [whole]
  simp only [hc, hsign, hmark, takeDigits_replicate, hne, hsize]
  rfl

/-- A row of the highest digit stands for the number below the next power. -/
theorem intOf_replicate (n : Nat) (hs : s.toList = '0' :: 'x' :: List.replicate (n + 1) 'f') :
    intOf s = .ok (16 ^ (n + 1) - 1 : Int) := by
  have hd : plainDigits s = '0' :: 'x' :: List.replicate (n + 1) 'f' := by
    simp [plainDigits, hs]
  have hsign : signed ('0' :: 'x' :: List.replicate (n + 1) 'f') =
      .ok (false, '0' :: 'x' :: List.replicate (n + 1) 'f') := rfl
  have hsize : sizeOf ('0' :: 'x' :: List.replicate (n + 1) 'f') = .ok (16 ^ (n + 1) - 1 : Int) := by
    rw [sizeOf, whole_replicate]
    rfl
  rw [intOf]
  simp only [hd, hsign, hsize, bind, Except.bind]
  rfl

end

/-! ### Bytes -/

section
variable {text : List Char}

/-- The bytes of a text in ASCII. -/
def asciiBytes (text : List Char) : List UInt8 :=
  text.map fun c => c.toNat.toUInt8

theorem decodeFrom_asciiBytes (h : ∀ c ∈ text, c.toNat < 0x80) (n : Nat) :
    Text.Utf8.decodeFrom n none (asciiBytes text) = ⟨text, none⟩ := by
  induction text generalizing n with
  | nil => rfl
  | cons c text ih =>
    obtain ⟨hc, h⟩ := List.forall_mem_cons.1 h
    have hb : c.toNat.toUInt8.toNat = c.toNat := by
      have hlt : c.toNat < 256 := by omega
      simpa using Nat.mod_eq_of_lt hlt
    have hr := ih h (n + 1)
    rw [asciiBytes] at hr
    rw [asciiBytes, List.map_cons, Text.Utf8.decodeFrom]
    simp only [hb, if_pos hc, hr, Text.Utf8.Decoded.push, Char.ofNat_toNat]

theorem portions_of_length_le {bytes : List UInt8} (hb : bytes ≠ [])
    (hl : bytes.length ≤ Text.Utf8.portion) : Text.Utf8.portions bytes = [bytes] := by
  have hnil (fuel : Nat) : Text.Utf8.portionsFrom fuel [] = [] := by cases fuel <;> rfl
  obtain ⟨n, hn⟩ := Nat.exists_eq_succ_of_ne_zero (mt List.length_eq_zero_iff.1 hb)
  rw [Text.Utf8.portions, hn, Text.Utf8.portionsFrom, if_neg hb, List.take_of_length_le hl,
    List.drop_of_length_le hl, hnil]

/-- A text in ASCII that comes in at once. -/
theorem read_asciiBytes (h : ∀ c ∈ text, c.toNat < 0x80) (hl : text.length ≤ Text.Utf8.portion) :
    Text.Utf8.read (asciiBytes text) = ⟨text, none⟩ := by
  have hd : Text.Utf8.decodePortions [] (Text.Utf8.portions (asciiBytes text)) = ⟨text, none⟩ := by
    by_cases ht : text = []
    · rw [ht]
      rfl
    · have hb : asciiBytes text ≠ [] := by simpa [asciiBytes] using ht
      have hp : Text.Utf8.portions (asciiBytes text) = [asciiBytes text] :=
        portions_of_length_le hb (by simpa [asciiBytes] using hl)
      simp [hp, Text.Utf8.decodePortions, Text.Utf8.decode, decodeFrom_asciiBytes h]
  rw [Text.Utf8.read, hd]
  rfl

theorem normalizeBreaks_of_not_mem (h : '\r' ∉ text) : Text.normalizeBreaks text = text := by
  fun_induction Text.normalizeBreaks text with
  | case1 => rfl
  | case2 => simp at h
  | case3 => simp at h
  | case4 c s _ _ ih => rw [ih fun hs => h (List.mem_cons_of_mem c hs)]

/-- Characters that come in as they are written. -/
def isPlainAscii (c : Char) : Bool :=
  c.toNat < 0x80 && isAllowed c && c ≠ '\r'

theorem isPlainAscii_iff {c : Char} :
    isPlainAscii c ↔ c.toNat < 0x80 ∧ isAllowed c ∧ c ≠ '\r' := by
  simp [isPlainAscii, and_assoc]

theorem isPlainAscii_of_isWordMark {c : Char} (h : isWordMark c) : isPlainAscii c := by
  have hr : c ≠ '\r' := ne_of_isWordMark h (by decide)
  have hc : 48 ≤ c.toNat ∧ c.toNat ≤ 122 := by
    have hn (c : Char) : c.val.toNat = c.toNat := rfl
    simp [isWordMark, Char.le_def, UInt32.le_iff_toNat_le, hn] at h
    rcases h with h | rfl
    · omega
    · decide
  have ha : isAllowed c := by
    simp [isAllowed]
    omega
  exact isPlainAscii_iff.2 ⟨by omega, ha, hr⟩

/-- A text of such characters comes in as it is. -/
theorem Intake.ofBytes_asciiBytes (h : ∀ c ∈ text, isPlainAscii c)
    (hl : text.length ≤ Text.Utf8.portion) : Intake.ofBytes (asciiBytes text) = ⟨text, none⟩ := by
  have hlow : ∀ c ∈ text, c.toNat < 0x80 := fun c hc => (isPlainAscii_iff.1 (h c hc)).1
  have hr : '\r' ∉ text := fun hc => (isPlainAscii_iff.1 (h _ hc)).2.2 rfl
  have hf : text.zipIdx.find? (fun e => !isAllowed e.1) = none := by
    rw [List.find?_eq_none]
    intro e he
    simp [(isPlainAscii_iff.1 (h e.1 (List.fst_mem_of_mem_zipIdx he))).2.1]
  rw [Intake.ofBytes, read_asciiBytes hlow hl]
  simp only [normalizeBreaks_of_not_mem hr, Intake.ofDecoded, hf]

end

/-! ### Documents -/

section
variable {k v k₁ v₁ k₂ v₂ : List Char} {a a₁ a₂ : AtomKind} {x x₁ x₂ : Value}

/-- An entry of two words, the first one a text and the second one a scalar of some kind. -/
structure PlainEntry (k v : List Char) (kind : AtomKind) (value : Value) : Prop where
  key : PlainWord k
  short : k.length ≤ 1024
  word : PlainWord v
  text : plainKind (String.ofList k) = standard "str"
  shape : plainKind (String.ofList v) = standard kind.name
  means : ∀ id start, atomOf id start kind (String.ofList v) = .ok value

theorem PlainEntry.isPlainAscii_entryLine (e : PlainEntry k v a x) :
    ∀ c ∈ entryLine k v, isPlainAscii c := by
  intro c hc
  simp only [entryLine, List.mem_append, List.mem_cons, List.not_mem_nil, or_false] at hc
  rcases hc with (hc | rfl | rfl | hc) | rfl
  · exact isPlainAscii_of_isWordMark (e.key.marks c hc)
  · decide
  · decide
  · exact isPlainAscii_of_isWordMark (e.word.marks c hc)
  · decide

theorem length_entryLine (k v : List Char) : (entryLine k v).length = k.length + v.length + 3 := by
  simp [entryLine]
  omega

/-- An entry with a row of the highest digit. -/
theorem PlainEntry.replicate (n : Nat) (hk : PlainWord k) (hl : k.length ≤ 1024)
    (ht : plainKind (String.ofList k) = standard "str") :
    PlainEntry k ('0' :: 'x' :: List.replicate (n + 1) 'f') .int (.int (16 ^ (n + 1) - 1)) where
  key := hk
  short := hl
  word := by
    refine ⟨List.cons_ne_nil _ _, ?_⟩
    simp only [List.mem_cons, List.mem_replicate]
    rintro c (rfl | rfl | ⟨-, rfl⟩) <;> decide
  text := ht
  shape := by
    refine plainKind_hex String.toList_ofList (List.cons_ne_nil _ _) fun c hc => ?_
    rw [List.eq_of_mem_replicate hc]
    decide
  means id start := by
    rw [atomOf, intOf_replicate n String.toList_ofList]
    rfl

/-- A document of two entries is a mapping that holds them. -/
theorem Value.ofBytes_two (e₁ : PlainEntry k₁ v₁ a₁ x₁) (e₂ : PlainEntry k₂ v₂ a₂ x₂)
    (hk : k₁ ≠ k₂)
    (hl : (entryLine k₁ v₁ ++ entryLine k₂ v₂).length ≤ Text.Utf8.portion) :
    Value.ofBytes (asciiBytes (entryLine k₁ v₁ ++ entryLine k₂ v₂)) =
      .ok (.mapping [(.text (String.ofList k₁), x₁), (.text (String.ofList k₂), x₂)]) := by
  have hascii : ∀ c ∈ entryLine k₁ v₁ ++ entryLine k₂ v₂, isPlainAscii c := fun c hc =>
    (List.mem_append.1 hc).elim (e₁.isPlainAscii_entryLine c) (e₂.isPlainAscii_entryLine c)
  obtain ⟨m₁, m₂, m₃, m₄, hread⟩ :=
    Document.read_two e₁.key e₁.short e₁.word e₂.key e₂.short e₂.word
  have hin : Intake.ofBytes (asciiBytes (entryLine k₁ v₁ ++ entryLine k₂ v₂)) = _ :=
    Intake.ofBytes_asciiBytes hascii hl
  simp only [Node.plain, e₁.text, e₁.shape, e₂.text, e₂.shape] at hread
  have hne : String.ofList k₁ ≠ String.ofList k₂ := fun h => hk (String.ofList_injective h)
  have hvalue := Document.value_two m₁ m₃ hne (e₁.means 2 m₂) (e₂.means 4 m₄)
  rw [Value.ofBytes, hin, Value.ofIntake, hread]
  exact hvalue

end

end Ancestry.Yaml
