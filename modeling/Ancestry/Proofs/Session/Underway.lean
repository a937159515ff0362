import Ancestry.Proofs.Session.Chains

/-!
A search that several branches carry on at once. They share the files visited and the records; what
each of them has in hand is a file to visit, a visited file that is not reported yet, or a component
whose importers are asked for. Any branch may move next. Whichever does, the files visited and in
hand stay closed under importers as far as the branches in hand will not see to it, so a search with
nothing in hand has visited all that can be reached.
-/

namespace Ancestry
namespace Session
variable {files : Files} {s : Session} {name path : String}
variable {visited looked names ahead : List String} {records : List Record}

/-- The importers of a component are asked for, or each of them is visited or to be visited. -/
def Met (files : Files) (s : Session) (visited names ahead : List String) (n : String) : Prop :=
  n ∈ names ∨ ∀ q ∈ s.shownImporters files n, q ∈ visited ∨ q ∈ ahead

/-- A search from `name` on the way: `looked` are the visited files that are not reported yet, `names`
the components whose importers are asked for, and `ahead` the files to visit. -/
structure Underway (files : Files) (s : Session) (name : String) (visited : List String)
    (records : List Record) (looked names ahead : List String) : Prop where
  nodup : visited.Nodup
  looked_visited : ∀ p ∈ looked, p ∈ visited
  reported : (records ++ recordsOf files s looked).Perm (recordsOf files s visited)
  sound : ∀ p, p ∈ visited ∨ p ∈ ahead → Reachable files s name p
  asked : ∀ n ∈ names, n = name ∨ ∃ p ∈ visited, n = componentName p
  start : Met files s visited names ahead name
  closed : ∀ p ∈ visited, p ∈ looked ∨ Met files s visited names ahead (componentName p)
  climbing : Chain files s name → Climbing files s name visited records looked names ahead

theorem recordsOf_perm {paths paths' : List String} (h : paths.Perm paths') :
    (recordsOf files s paths).Perm (recordsOf files s paths') :=
  (h.filter _).map _

theorem Met.mono {visited' names' ahead' : List String} {n : String}
    (h : Met files s visited names ahead n) (hn : n ∈ names → n ∈ names')
    (hq : ∀ q, q ∈ visited ∨ q ∈ ahead → q ∈ visited' ∨ q ∈ ahead') :
    Met files s visited' names' ahead' n :=
  h.imp hn fun h q hi => hq q (h q hi)

namespace Underway

theorem perm {looked' names' ahead' : List String}
    (h : Underway files s name visited records looked names ahead) (hl : looked.Perm looked')
    (hn : names.Perm names') (ha : ahead.Perm ahead') :
    Underway files s name visited records looked' names' ahead' := by
  have hm : ∀ {n}, Met files s visited names ahead n → Met files s visited names' ahead' n :=
    fun h => h.mono hn.mem_iff.1 fun _ => Or.imp_right ha.mem_iff.1
  refine ⟨h.nodup, ?_, ?_, ?_, ?_, hm h.start, ?_, fun hc => (h.climbing hc).perm hl hn ha⟩
  · exact fun p hp => h.looked_visited p (hl.mem_iff.2 hp)
  · exact ((recordsOf_perm hl.symm).append_left records).trans h.reported
  · exact fun p hp => h.sound p (hp.imp_right ha.mem_iff.2)
  · exact fun n hx => h.asked n (hn.mem_iff.2 hx)
  · exact fun p hp => (h.closed p hp).imp hl.mem_iff.1 hm

/-- The search begins by asking for the importers of its component. -/
theorem begin (files : Files) (s : Session) (name : String) :
    Underway files s name [] [] [] [name] [] := by
  refine ⟨List.nodup_nil, nofun, .refl _, ?_, ?_, .inl (by simp), nofun,
    fun _ => .begin files s name⟩
  · rintro p (hp | hp) <;> simp at hp
  · exact fun n hn => .inl (List.mem_singleton.1 hn)

theorem skip (h : Underway files s name visited records looked names (path :: ahead))
    (hv : path ∈ visited) : Underway files s name visited records looked names ahead := by
  have hm : ∀ {n}, Met files s visited names (path :: ahead) n →
      Met files s visited names ahead n := by
    refine fun h => h.mono id fun q hq => ?_
    rcases hq with hq | hq
    · exact .inl hq
    · rcases List.mem_cons.1 hq with rfl | hq
      · exact .inl hv
      · exact .inr hq
  exact ⟨h.nodup, h.looked_visited, h.reported,
    fun p hp => h.sound p (hp.imp_right (List.mem_cons_of_mem path)), h.asked, hm h.start,
    fun p hp => (h.closed p hp).imp_right hm, fun hc => (h.climbing hc).skip⟩

theorem enter (h : Underway files s name visited records looked names (path :: ahead))
    (hv : path ∉ visited) :
    Underway files s name (path :: visited) records (path :: looked) names ahead := by
  have hm : ∀ {n}, Met files s visited names (path :: ahead) n →
      Met files s (path :: visited) names ahead n := by
    refine fun h => h.mono id fun q hq => ?_
    simp only [List.mem_cons] at hq ⊢
    tauto
  refine ⟨List.nodup_cons.2 ⟨hv, h.nodup⟩, ?_, ?_, ?_, ?_, hm h.start, ?_,
    fun hc => (h.climbing hc).enter⟩
  · exact fun p hp => List.mem_cons.2 ((List.mem_cons.1 hp).imp_right (h.looked_visited p))
  · rw [recordsOf_cons files s path looked, recordsOf_cons files s path visited]
    exact List.perm_append_comm_assoc _ _ _ |>.trans (h.reported.append_left _)
  · intro p hp
    refine h.sound p ?_
    simp only [List.mem_cons] at hp ⊢
    tauto
  · intro n hn
    obtain hn | ⟨p, hp, hn⟩ := h.asked n hn
    · exact .inl hn
    · exact .inr ⟨p, List.mem_cons_of_mem path hp, hn⟩
  · intro p hp
    rcases List.mem_cons.1 hp with rfl | hp
    · exact .inl List.mem_cons_self
    · exact (h.closed p hp).imp (List.mem_cons_of_mem path) hm

theorem report (h : Underway files s name visited records (path :: looked) names ahead)
    {calls : List String} (hc : calls = s.contents.shownCalls files path) :
    Underway files s name visited
      (if calls = [] then records else records ++ [recordOf path calls]) looked
      (componentName path :: names) ahead := by
  have hv : path ∈ visited := h.looked_visited path List.mem_cons_self
  have hm : ∀ {n}, Met files s visited names ahead n →
      Met files s visited (componentName path :: names) ahead n :=
    fun h => h.mono (List.mem_cons_of_mem _) fun _ => id
  refine ⟨h.nodup, fun p hp => h.looked_visited p (List.mem_cons_of_mem path hp), ?_, h.sound, ?_,
    hm h.start, ?_, fun hx => (h.climbing hx).report hc⟩
  · rw [report_eq hc, List.append_assoc, ← recordsOf_cons]
    exact h.reported
  · intro n hn
    rcases List.mem_cons.1 hn with rfl | hn
    · exact .inr ⟨path, hv, rfl⟩
    · exact h.asked n hn
  · intro p hp
    rcases h.closed p hp with hl | hp
    · rcases List.mem_cons.1 hl with rfl | hl
      · exact .inr (.inl List.mem_cons_self)
      · exact .inl hl
    · exact .inr (hm hp)

theorem ascend {n : String} (h : Underway files s name visited records looked (n :: names) ahead) :
    Underway files s name visited records looked names
      (s.shownImporters files n ++ ahead) := by
  have hm : ∀ {m}, Met files s visited (n :: names) ahead m →
      Met files s visited names (s.shownImporters files n ++ ahead) m := by
    rintro m (hm | hm)
    · rcases List.mem_cons.1 hm with rfl | hm
      · exact .inr fun q hq => .inr (List.mem_append_left _ hq)
      · exact .inl hm
    · exact .inr fun q hq => (hm q hq).imp_right (List.mem_append_right _)
  have hn : Sought files s name n :=
    (h.asked n List.mem_cons_self).imp_right fun ⟨q, hq, he⟩ => ⟨q, h.sound q (.inl hq), he⟩
  refine ⟨h.nodup, h.looked_visited, h.reported, ?_,
    fun m hx => h.asked m (List.mem_cons_of_mem n hx), hm h.start,
    fun p hp => (h.closed p hp).imp_right hm, fun hc => (h.climbing hc).ascend (hc n hn)⟩
  intro p hp
  rcases hp with hp | hp
  · exact h.sound p (.inl hp)
  · rcases List.mem_append.1 hp with hp | hp
    · exact hn.reachable hp
    · exact h.sound p (.inr hp)

/-- With nothing in hand the search has visited what can be reached. -/
theorem mem_iff (h : Underway files s name visited records [] [] []) (p : String) :
    p ∈ visited ↔ Reachable files s name p := by
  have hm : ∀ {n}, Met files s visited [] [] n → ∀ q ∈ s.shownImporters files n, q ∈ visited := by
    intro n hn q hq
    simpa using (hn.resolve_left List.not_mem_nil) q hq
  constructor
  · exact fun hp => h.sound p (.inl hp)
  · intro hp
    induction hp with
    | importer hi => exact hm h.start _ hi
    | above _ hq ih => exact hm ((h.closed _ ih).resolve_left List.not_mem_nil) _ hq

/-- Then it reports what a search by a single branch does. -/
theorem records_perm (h : Underway files s name visited records [] [] []) :
    records.Perm (s.ancestors files name).1 := by
  obtain ⟨order, hn, hm, he⟩ := exists_visit_order files name s
  have hp : visited.Perm order := by
    refine (List.perm_ext_iff_of_nodup h.nodup hn).2 fun p => ?_
    rw [h.mem_iff, hm]
  have hr := h.reported
  rw [recordsOf, List.filter_nil, List.map_nil, List.append_nil] at hr
  rw [he]
  exact hr.trans (recordsOf_perm hp)

end Underway
end Session
end Ancestry
