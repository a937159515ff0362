import Ancestry.Yaml.Meaning

/-!
The keys of mappings. A mapping is made by putting one pair after the other under its key, and a
key that is there already is not put in again; so in the value of a document no key of the mapping
at its root comes twice.
-/

namespace Ancestry.Yaml

section
variable {α : Type} {pairs : List (Value × α)}

/-- No key comes twice. -/
def DistinctKeys (pairs : List (Value × α)) : Prop :=
  pairs.Pairwise fun p q => p.1.sameKey q.1 = false

theorem distinctKeys_putPair (h : DistinctKeys pairs) (key : Value) (value : α) :
    DistinctKeys (putPair pairs key value) := by
  unfold putPair
  split
  · -- the pairs change, but not their keys
    refine List.pairwise_map.2 (h.imp fun {p q} hpq => ?_)
    split <;> split <;> exact hpq
  · rename_i hnew
    simp only [Bool.not_eq_true, List.any_eq_false] at hnew
    exact List.pairwise_append.2 ⟨h, by simp, fun p hp q hq => by
      simpa [List.mem_singleton.1 hq] using hnew p hp⟩

theorem DistinctKeys.not_mem {word : String} {a b : α}
    (h : DistinctKeys ((.text word, a) :: pairs)) : (.text word, b) ∉ pairs := by
  intro hm
  have hk := (List.pairwise_cons.1 h).1 _ hm
  simp [Value.sameKey] at hk

end

/-- Whether a value is a mapping. -/
def Value.isMapping : Value → Bool
  | mapping _ => true
  | _ => false

/-- An item that is no mapping yet. -/
def Item.Plain : Item → Prop
  | .atom value => value.isMapping = false
  | .collection _ => True

/-- What holds of all that is known at any time. -/
structure Meaning.Sane (m : Meaning) : Prop where
  plain : ∀ (id : Nat) (item : Item), m.items[id]?.join = some item → item.Plain
  distinct : ∀ (id : Nat) (pairs : List (Value × Item)),
    m.contents[id]?.join = some (.mapping pairs) → DistinctKeys pairs

theorem join_set {α : Type} {a : Array (Option α)} {id i : Nat} {x? : Option α} {y : α}
    (h : (a.setIfInBounds id x?)[i]?.join = some y) :
    id = i ∧ x? = some y ∨ a[i]?.join = some y := by
  rw [Array.getElem?_setIfInBounds] at h
  split at h
  · split at h
    · exact .inl ⟨‹_›, by simpa using h⟩
    · cases h
  · exact .inr h

theorem mapError_eq_ok {ε ε' α : Type} {x : Except ε α} {f : ε → ε'} {a : α} :
    x.mapError f = .ok a ↔ x = .ok a := by
  cases x with
  | ok b =>
    constructor <;>
    · intro h
      cases h
      rfl
  | error e => exact iff_of_false nofun nofun

theorem map_eq_ok {ε α β : Type} {x : Except ε α} {f : α → β} {b : β} :
    f <$> x = .ok b ↔ ∃ a, x = .ok a ∧ f a = b := by
  cases x <;> simp [Functor.map, Except.map]

theorem isMapping_floatOf {id : Nat} {s : String} {value : Value} (h : floatOf id s = .ok value) :
    value.isMapping = false := by
  simp only [floatOf, bind, Except.bind, pure, Except.pure] at h
  repeat' split at h
  all_goals cases h <;> rfl

theorem isMapping_timeOf {s : String} {value : Value} (h : timeOf s = .ok value) :
    value.isMapping = false := by
  rw [timeOf] at h
  repeat' split at h
  all_goals cases h <;> rfl

/-- No scalar is a mapping. -/
theorem isMapping_atomOf {id : Nat} {start : Mark} {kind : AtomKind} {s : String} {value : Value}
    (h : atomOf id start kind s = .ok value) : value.isMapping = false := by
  cases kind <;> simp only [atomOf] at h
  case null | str =>
    cases h
    rfl
  case bool | int | binary =>
    obtain ⟨_, -, rfl⟩ := map_eq_ok.1 h
    rfl
  case float => exact isMapping_floatOf (mapError_eq_ok.1 h)
  case timestamp => exact isMapping_timeOf (mapError_eq_ok.1 h)

namespace Construct
variable {α β : Type} {x : Construct α} {P : α → Prop} {Q : β → Prop}

/-- A computation keeps what is known in order, and what it gives has the property `P`. -/
def Keeps (x : Construct α) (P : α → Prop) : Prop :=
  ∀ ⦃m a m'⦄, m.Sane → x m = .ok (a, m') → m'.Sane ∧ P a

theorem Keeps.pure {a : α} (h : P a) : Keeps (Pure.pure a) P := by
  intro m a m' hm hx
  cases hx
  exact ⟨hm, h⟩

theorem Keeps.throw (e : Error) : Keeps (throw e : Construct α) P := by
  intro m a m' hm hx
  cases hx

theorem Keeps.bind {f : α → Construct β} (hx : Keeps x P) (hf : ∀ a, P a → Keeps (f a) Q) :
    Keeps (x >>= f) Q := by
  intro m b m' hm h
  cases hr : x m with
  | error e =>
    have hb : (x >>= f) m = .error e := by
      simp [Bind.bind, StateT.bind, hr, Except.bind]
    cases hb.symm.trans h
  | ok r =>
    obtain ⟨a, m₁⟩ := r
    have hb : (x >>= f) m = f a m₁ := by
      simp [Bind.bind, StateT.bind, hr, Except.bind]
    obtain ⟨hm₁, ha⟩ := hx hm hr
    exact hf a ha hm₁ (hb.symm.trans h)

theorem Keeps.map {f : α → β} (hx : Keeps x P) (hf : ∀ a, P a → Q (f a)) : Keeps (f <$> x) Q := by
  rw [map_eq_pure_bind]
  exact hx.bind fun a ha => .pure (hf a ha)

theorem Keeps.lift {x : Except Error α} (h : ∀ a, x = .ok a → P a) :
    Keeps (liftM x : Construct α) P := by
  intro m a m' hm hx
  cases x with
  | error e => cases hx
  | ok b =>
    cases hx
    exact ⟨hm, h a rfl⟩

theorem Keeps.get : Keeps MonadState.get Meaning.Sane := by
  intro m a m' hm hx
  cases hx
  exact ⟨hm, hm⟩

theorem Keeps.modify {f : Meaning → Meaning} (h : ∀ m : Meaning, m.Sane → (f m).Sane) :
    Keeps (modify f) fun _ => True := by
  intro m a m' hm hx
  cases hx
  exact ⟨h m hm, trivial⟩

theorem Keeps.mono {P' : α → Prop} (hx : Keeps x P) (h : ∀ a, P a → P' a) : Keeps x P' :=
  fun _ a _ hm hr => (hx hm hr).imp id (h a)

theorem Keeps.mapM {f : β → Construct α} {l : List β} (h : ∀ b, Keeps (f b) fun _ => True) :
    Keeps (l.mapM f) fun _ => True := by
  induction l with
  | nil => exact .pure trivial
  | cons b l ih =>
    rw [List.mapM_cons]
    exact (h b).bind fun _ _ => ih.bind fun _ _ => .pure trivial

theorem Keeps.foldlM {f : α → β → Construct α} {l : List β} {a : α}
    (h : ∀ a b, P a → Keeps (f a b) P) (ha : P a) : Keeps (l.foldlM f a) P := by
  induction l generalizing a with
  | nil => exact .pure ha
  | cons b l ih =>
    rw [List.foldlM_cons]
    exact (h a b ha).bind fun a ha => ih ha

theorem keeps_node (id : Nat) : Keeps (node id) fun _ => True :=
  Keeps.get.bind fun _ _ => .pure trivial

theorem keeps_modifyGraph (f : Graph → Graph) : Keeps (modifyGraph f) fun _ => True :=
  .modify fun _ hm => ⟨hm.plain, hm.distinct⟩

theorem keeps_pairsOf (id : Nat) : Keeps (pairsOf id) fun _ => True := by
  refine (keeps_node id).bind fun n _ => ?_
  split
  · exact .pure trivial
  · exact .pure trivial

theorem keeps_atom (id : Nat) (kind : AtomKind) : Keeps (atom id kind) (·.isMapping = false) := by
  refine Keeps.get.bind fun m _ => ?_
  refine (Keeps.lift fun _ _ => trivial).bind fun text _ => ?_
  dsimp only
  split
  · exact .throw _
  · exact .lift fun _ h => isMapping_atomOf h

theorem keeps_queue {f : Meaning → List Nat} :
    Keeps (modify fun m => { m with queue := f m }) fun _ => True :=
  .modify fun _ hm => ⟨hm.plain, hm.distinct⟩

theorem keeps_stored {id : Nat} {item : Item} (h : item.Plain) :
    Keeps (do
      modify fun m => { m with items := m.items.setIfInBounds id (some item) }
      pure item) Item.Plain := by
  refine Keeps.bind (.modify fun m hm => ⟨fun i found hf => ?_, hm.distinct⟩) fun _ _ => .pure h
  obtain ⟨-, hs⟩ | hf := join_set hf
  · cases hs
    exact h
  · exact hm.plain i found hf

theorem keeps_item (id : Nat) : Keeps (item id) Item.Plain := by
  refine Keeps.get.bind fun m hm => ?_
  split
  · exact .pure (hm.plain id _ ‹_›)
  · refine (keeps_node id).bind fun n _ => ?_
    dsimp only
    split
    · exact (keeps_atom id _).map (fun _ h => h) |>.bind fun _ h => keeps_stored h
    · have hc : Item.Plain (.collection id) := trivial
      exact keeps_queue.bind fun _ _ => (Keeps.pure hc).bind fun _ h => keeps_stored h
    · exact (Keeps.throw _).bind fun _ h => keeps_stored h

theorem keeps_flattenFrom (fuel : Nat) :
    (∀ id index taken, Keeps (flattenFrom fuel id index taken) fun _ => True) ∧
      ∀ id source, Keeps (mergedPairs fuel id source) fun _ => True := by
  induction fuel with
  | zero => exact ⟨fun _ _ _ => .throw _, fun _ _ => .throw _⟩
  | succ fuel ih =>
    obtain ⟨hflat, hmerged⟩ := ih
    refine ⟨fun id index taken => ?_, fun id source => ?_⟩
    · refine (keeps_pairsOf id).bind fun pairs _ => ?_
      split
      · exact keeps_modifyGraph _
      · refine (keeps_node _).bind fun n _ => ?_
        dsimp only
        split
        · refine (keeps_modifyGraph _).bind fun _ _ => (hmerged id _).bind fun more _ => ?_
          exact hflat _ _ _
        · split
          · exact (keeps_modifyGraph _).bind fun _ _ => hflat _ _ _
          · exact hflat _ _ _
    · refine (keeps_node source).bind fun n _ => ?_
      dsimp only
      split
      · exact (hflat _ _ _).bind fun _ _ => keeps_pairsOf _
      · refine Keeps.bind (.mapM fun part => (keeps_node part).bind fun n _ => ?_)
          fun lists _ => .pure trivial
        split
        · exact (hflat _ _ _).bind fun _ _ => keeps_pairsOf _
        · exact (keeps_node _).bind fun _ _ => .throw _
      · exact (keeps_node _).bind fun _ _ => .throw _

theorem keeps_flatten (id : Nat) : Keeps (flatten id) fun _ => True :=
  Keeps.get.bind fun _ _ => (keeps_flattenFrom _).1 id 0 []

theorem keeps_keyedItems (id : Nat) : Keeps (keyedItems id) DistinctKeys := by
  refine (keeps_node id).bind fun whole _ => ?_
  split
  · refine (keeps_flatten id).bind fun _ _ => (keeps_pairsOf id).bind fun pairs _ => ?_
    refine Keeps.foldlM (fun pairs p hp => ?_) List.Pairwise.nil
    refine (keeps_item p.1).bind fun key _ => ?_
    split
    · exact (keeps_item p.2).bind fun value _ => .pure (distinctKeys_putPair hp _ value)
    · exact (keeps_node p.1).bind fun _ _ => .throw _
  · exact .throw _

theorem keeps_singlePairs (context : String) (id : Nat) :
    Keeps (singlePairs context id) fun _ => True := by
  refine (keeps_node id).bind fun whole _ => ?_
  split
  · refine Keeps.mapM fun part => (keeps_node part).bind fun n _ => ?_
    split
    · exact (keeps_item _).bind fun _ _ => (keeps_item _).bind fun _ _ => .pure trivial
    · exact .throw _
    · exact .throw _
  · exact .throw _

theorem keeps_content (id : Nat) (kind : CollectionKind) :
    Keeps (content id kind) fun c => ∀ pairs, c = .mapping pairs → DistinctKeys pairs := by
  cases kind with
  | seq =>
    refine (keeps_node id).bind fun whole _ => ?_
    split
    · exact (Keeps.mapM fun part => (keeps_item part).mono fun _ _ => trivial).map (by simp)
    · exact .throw _
  | map => exact (keeps_keyedItems id).map fun pairs hp => by simpa using hp
  | set => exact (keeps_keyedItems id).bind fun _ _ => .pure (by simp)
  | omap => exact (keeps_singlePairs _ id).map (by simp)
  | pairs => exact (keeps_singlePairs _ id).map (by simp)

theorem keeps_runQueue (fuel : Nat) : Keeps (runQueue fuel) fun _ => True := by
  induction fuel with
  | zero => exact .pure trivial
  | succ fuel ih =>
    refine Keeps.get.bind fun m _ => ?_
    split
    · exact .pure trivial
    · refine keeps_queue.bind fun _ _ => (keeps_node _).bind fun n _ => ?_
      dsimp only
      split
      · refine (keeps_content _ _).bind fun c hc =>
          Keeps.bind (.modify fun m hm => ?_) fun _ _ => ih
        refine ⟨hm.plain, fun i pairs h => ?_⟩
        obtain ⟨-, hs⟩ | h := join_set h
        · exact hc pairs (Option.some.inj hs)
        · exact hm.distinct i pairs h
      · exact ih

end Construct
/-- Values that are mappings are those of collections that hold pairs under keys. -/
def Settled.Shaped (contents : Array (Option Content)) (values : Settled) : Prop :=
  ∀ (id : Nat) (value : Value), values[id]?.join = some value → value.isMapping →
    ∃ pairs, contents[id]?.join = some (Content.mapping pairs)

namespace Settled
variable {contents : Array (Option Content)} {values : Settled}

theorem mapping_of_value? {content : Content} {value : Value}
    (h : values.value? content = some value) (hv : value.isMapping) :
    ∃ pairs, content = .mapping pairs := by
  cases content with
  | mapping pairs => exact ⟨pairs, rfl⟩
  | list items =>
    obtain ⟨_, -, rfl⟩ := Option.map_eq_some_iff.1 h
    cases hv
  | set keys =>
    cases h
    cases hv
  | pairs pairs =>
    obtain ⟨_, -, rfl⟩ := Option.map_eq_some_iff.1 h
    cases hv

theorem Shaped.foldl {ids : List Nat} (h : values.Shaped contents) :
    (ids.foldl (fun values id =>
      match values[id]?.join, contents[id]?.join with
      | none, some content => values.setIfInBounds id (values.value? content)
      | _, _ => values) values).Shaped contents := by
  induction ids generalizing values with
  | nil => exact h
  | cons id ids ih =>
    rw [List.foldl_cons]
    refine ih ?_
    split
    · rename_i content _ hc
      intro i value hi hv
      obtain ⟨rfl, hs⟩ | hi := join_set hi
      · obtain ⟨pairs, rfl⟩ := mapping_of_value? hs hv
        exact ⟨pairs, hc⟩
      · exact h i value hi hv
    · exact h

theorem Shaped.passes (h : values.Shaped contents) (fuel : Nat) :
    (Settled.passes contents fuel values).Shaped contents := by
  induction fuel generalizing values with
  | zero => exact h
  | succ fuel ih =>
    rw [Settled.passes]
    split
    · exact h.foldl
    · exact ih h.foldl

end Settled

theorem join_replicate_none {α : Type} (n i : Nat) :
    (Array.replicate n (none : Option α))[i]?.join = none := by
  rw [Array.getElem?_replicate]
  split <;> rfl

/-- A collection that holds no pairs under keys has no mapping for its value. -/
theorem Meaning.isMapping_value (m : Meaning) {values : Settled} (path : List Nat) {id : Nat}
    (hs : values.Shaped m.contents) (h : ∀ pairs, m.contents[id]?.join ≠ some (.mapping pairs))
    (fuel : Nat) : (m.value values path fuel (.collection id)).isMapping = false := by
  cases fuel with
  | zero => rfl
  | succ fuel =>
    unfold Meaning.value
    split
    · rename_i value hv
      refine Bool.eq_false_iff.2 fun hm => ?_
      obtain ⟨pairs, hp⟩ := hs id value hv hm
      exact h pairs hp
    · rename_i hi
      cases hi
    · rename_i hi
      cases hi
      dsimp only
      split
      · split <;> rfl
      · split <;> rfl
      · exact absurd ‹_› (h _)
      · rfl
      · rfl

theorem Meaning.distinctKeys_rootValue {m : Meaning} {root : Item} {pairs : List (Value × Value)}
    (hm : m.Sane) (hr : root.Plain) (h : m.rootValue root = .mapping pairs) :
    DistinctKeys pairs := by
  cases root with
  | atom v =>
    obtain rfl : v = .mapping pairs := h
    cases hr
  | collection id =>
    simp only [rootValue] at h
    split at h
    · rename_i held hheld
      cases h
      exact List.pairwise_map.2 (hm.distinct id held hheld)
    · rename_i hheld
      have hnone : Settled.Shaped m.contents (Array.replicate m.contents.size none) := by
        intro id value hi
        simp [join_replicate_none] at hi
      have hv := m.isMapping_value [] (hnone.passes m.contents.size) hheld (m.contents.size + 1)
      rw [h] at hv
      cases hv

theorem Document.distinctKeys_value {d : Document} {pairs : List (Value × Value)}
    (h : d.value = .ok (.mapping pairs)) : DistinctKeys pairs := by
  let start : Meaning :=
    ⟨d.graph, Array.replicate d.graph.size none, Array.replicate d.graph.size none, []⟩
  let construct : Construct Item := do
    let root ← Construct.item d.root
    Construct.runQueue (d.graph.size + 1)
    pure root
  have hstart : start.Sane := by
    constructor <;> simp [start, join_replicate_none]
  have hkeeps : construct.Keeps Item.Plain :=
    (Construct.keeps_item d.root).bind fun _ hr =>
      (Construct.keeps_runQueue _).bind fun _ _ => .pure hr
  have hv : d.value = construct start >>= fun r => pure (r.2.rootValue r.1) := rfl
  cases hc : construct start with
  | error e =>
    rw [hv, hc] at h
    cases h
  | ok r =>
    rw [hv, hc] at h
    obtain ⟨hm, hr⟩ := hkeeps hstart hc
    exact Meaning.distinctKeys_rootValue hm hr (Except.ok.inj h)

/-- No key of a document that is a mapping comes twice. -/
theorem Value.distinctKeys_ofIntake {document : Intake} {pairs : List (Value × Value)}
    (h : Value.ofIntake document = .ok (.mapping pairs)) : DistinctKeys pairs := by
  rw [Value.ofIntake] at h
  cases hd : Document.read document with
  | error e =>
    rw [hd] at h
    cases h
  | ok d? =>
    rw [hd] at h
    cases d? with
    | none => cases h
    | some d => exact Document.distinctKeys_value h

theorem Value.distinctKeys_ofBytes (bytes : List UInt8) (pairs : List (Value × Value))
    (h : Value.ofBytes bytes = .ok (.mapping pairs)) : DistinctKeys pairs :=
  Value.distinctKeys_ofIntake h

end Ancestry.Yaml
