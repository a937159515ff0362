import Ancestry.Proofs.Session.Events
import Ancestry.Proofs.Session.Reachability
import Ancestry.Watcher
import Mathlib.Data.List.Perm.Basic
import Mathlib.Logic.Function.Conjugate

/-!
Events of different files commute. Each event touches what is kept of its own file, how often that
file stands among the candidates, and the lists of importers. Several files may share one list, by
their common name or as members of it; but to drop a list, to take a file out of all lists and to
drop all lists can be done in any order.

So only the order of the events of each single file matters. The candidates may end up in another
order, which no search can see in its set of records.
-/

namespace Ancestry
open Function

namespace Table
variable {α : Type}

theorem erase_comm (t : Table α) (a b : String) : (t.erase a).erase b = (t.erase b).erase a := by
  simp only [erase, List.filter_filter]
  congr 1
  exact List.filter_congr fun e _ => Bool.and_comm _ _

theorem mapValues_erase (f : α → α) (t : Table α) (key : String) :
    (t.erase key).mapValues f = (t.mapValues f).erase key := by
  simp only [erase, mapValues, List.filter_map]
  rfl

theorem mapValues_comm {f g : α → α} (h : Function.Commute f g) (t : Table α) :
    (t.mapValues f).mapValues g = (t.mapValues g).mapValues f := by
  simp only [mapValues, List.map_map]
  congr 1
  refine List.map_congr_left fun e _ => ?_
  exact congrArg (Prod.mk e.1) (h e.2).symm

end Table

theorem Contents.invalidate_comm (p q : String) : Function.Commute (invalidate p) (invalidate q) := by
  intro c
  have hg : ((c.invalidate q).invalidate p).generation =
      ((c.invalidate p).invalidate q).generation := by
    funext r
    simp only [invalidate]
    split <;> split <;> rfl
  simp only [invalidate, Table.erase_comm _ q p] at hg ⊢
  rw [hg]

namespace Importers

theorem invalidate_comm (m n : String) : Function.Commute (invalidate m) (invalidate n) := by
  intro g
  simp only [invalidate, Table.erase_comm _ n m]

theorem invalidate_removeFile_comm (name path : String) :
    Function.Commute (invalidate name) (removeFile path) := by
  intro g
  simp only [invalidate, removeFile, Table.mapValues_erase]

theorem removeFile_comm (p q : String) : Function.Commute (removeFile p) (removeFile q) := by
  have hf : Function.Commute (fun l : List String => l.filter (· ≠ q))
      (fun l : List String => l.filter (· ≠ p)) := by
    intro l
    simp only [List.filter_filter]
    exact List.filter_congr fun r _ => Bool.and_comm _ _
  intro g
  simp only [removeFile, Table.mapValues_comm hf]

theorem invalidate_clear_comm (name : String) : Function.Commute (invalidate name) clear :=
  fun _ => rfl

theorem removeFile_clear_comm (path : String) : Function.Commute (removeFile path) clear :=
  fun _ => rfl

theorem refresh_comm (strict : Bool) (p q : String) :
    Function.Commute (refresh strict p) (refresh strict q) := by
  unfold refresh
  split
  · exact Function.Commute.refl _
  · exact invalidate_comm _ _

theorem refresh_forget_comm (strict : Bool) (p q : String) :
    Function.Commute (refresh strict p) (forget q) := by
  unfold refresh forget
  split
  · exact ((removeFile_clear_comm q).comp_left (invalidate_clear_comm _)).symm
  · exact (invalidate_removeFile_comm _ q).comp_right (invalidate_comm _ _)

theorem forget_comm (p q : String) : Function.Commute (forget p) (forget q) := by
  unfold forget
  refine .comp_left ?_ ?_
  · exact (removeFile_comm p q).comp_right (invalidate_removeFile_comm _ p).symm
  · exact (invalidate_removeFile_comm _ q).comp_right (invalidate_comm _ _)

theorem handle_comm (strict : Bool) (k l : EventKind) (p q : String) :
    Function.Commute (handle strict k p) (handle strict l q) := by
  cases k with
  | deleted =>
    cases l with
    | deleted => exact forget_comm p q
    | created => exact (refresh_forget_comm strict q p).symm
    | changed => exact (refresh_forget_comm strict q p).symm
  | created =>
    cases l with
    | deleted => exact refresh_forget_comm strict p q
    | created => exact refresh_comm strict p q
    | changed => exact refresh_comm strict p q
  | changed =>
    cases l with
    | deleted => exact refresh_forget_comm strict p q
    | created => exact refresh_comm strict p q
    | changed => exact refresh_comm strict p q

end Importers

namespace Session
variable {files : Files} {s t u : Session}

/-- Sessions that differ at most in the order of their candidates. -/
structure Rearranged (s t : Session) : Prop where
  strict : t.strict = s.strict
  candidates : t.candidates.Perm s.candidates
  contents : t.contents = s.contents
  importers : t.importers = s.importers

namespace Rearranged

theorem refl (s : Session) : s.Rearranged s :=
  ⟨rfl, .refl _, rfl, rfl⟩

theorem trans (h : s.Rearranged t) (h' : t.Rearranged u) : s.Rearranged u where
  strict := h'.strict.trans h.strict
  candidates := h'.candidates.trans h.candidates
  contents := h'.contents.trans h.contents
  importers := h'.importers.trans h.importers

theorem handle (h : s.Rearranged t) (kind : EventKind) (path : String) :
    (s.handle kind path).Rearranged (t.handle kind path) := by
  have hp : (t.handle kind path).candidates.Perm (s.handle kind path).candidates := by
    refine List.perm_iff_count.2 fun p => ?_
    rw [count_handle, count_handle, h.candidates.count_eq]
  rw [handle_eq kind path s, handle_eq kind path t]
  exact ⟨h.strict, hp, by rw [h.contents], by rw [h.importers, h.strict]⟩

end Rearranged

/-- Two events of different files. -/
theorem handle_comm (s : Session) (k l : EventKind) {p q : String} (hpq : p ≠ q) :
    ((s.handle k p).handle l q).Rearranged ((s.handle l q).handle k p) := by
  have hp : ((s.handle l q).handle k p).candidates.Perm
      ((s.handle k p).handle l q).candidates := by
    refine List.perm_iff_count.2 fun r => ?_
    simp only [count_handle]
    by_cases hr : r = p
    · simp only [hr, hpq, if_true, if_false]
    · simp only [hr, if_false]
  rw [handle_eq l q (s.handle k p), handle_eq k p (s.handle l q), handle_eq k p s, handle_eq l q s]
    at *
  exact ⟨rfl, hp, Contents.invalidate_comm p q s.contents,
    Importers.handle_comm s.strict k l p q s.importers⟩

/-- The session after a sequence of events. -/
def follow (s : Session) (events : List Notice) : Session :=
  events.foldl (fun s e => s.handle e.kind e.path) s

theorem follow_append (s : Session) (before after : List Notice) :
    s.follow (before ++ after) = (s.follow before).follow after :=
  List.foldl_append

theorem Rearranged.follow (h : s.Rearranged t) (events : List Notice) :
    (s.follow events).Rearranged (t.follow events) := by
  induction events generalizing s t with
  | nil => exact h
  | cons e events ih => exact ih (h.handle e.kind e.path)

/-- An event may come before all events of other files. -/
theorem follow_handle (s : Session) (e : Notice) {before : List Notice}
    (hb : ∀ d ∈ before, d.path ≠ e.path) :
    ((s.handle e.kind e.path).follow before).Rearranged
      ((s.follow before).handle e.kind e.path) := by
  induction before generalizing s with
  | nil => exact .refl _
  | cons d before ih =>
    have hd : e.path ≠ d.path := (hb d List.mem_cons_self).symm
    have hc := (s.handle_comm e.kind d.kind hd).follow before
    exact hc.trans (ih (s.handle d.kind d.path) fun f hf => hb f (List.mem_cons_of_mem d hf))

/-- The induction is on the first sequence. Its first event is the first of its file in the second
one too, so it can be moved to the front there. -/
theorem Rearranged.follow_of_filter_eq (h : s.Rearranged t) {events events' : List Notice}
    (he : ∀ path, events.filter (·.path = path) = events'.filter (·.path = path)) :
    (s.follow events).Rearranged (t.follow events') := by
  induction events generalizing s t events' with
  | nil =>
    have hn : events' = [] := by
      refine List.eq_nil_iff_forall_not_mem.2 fun e hm => ?_
      have hf : e ∈ events'.filter (·.path = e.path) := List.mem_filter.2 ⟨hm, by simp⟩
      rw [← he] at hf
      simp at hf
    rw [hn]
    exact h
  | cons e events ih =>
    have hf := he e.path
    rw [List.filter_cons_of_pos (by simp), eq_comm, List.filter_eq_cons_iff] at hf
    obtain ⟨before, after, rfl, hb, -, ha⟩ := hf
    have hb : ∀ d ∈ before, d.path ≠ e.path := by simpa using hb
    have hr : ∀ path, events.filter (·.path = path) =
        (before ++ after).filter (·.path = path) := by
      intro path
      have hp := he path
      rw [List.filter_append] at hp ⊢
      by_cases hpe : e.path = path
      · have hn : before.filter (·.path = path) = [] := by
          rw [← hpe]
          exact List.filter_eq_nil_iff.2 fun d hd => by simpa using hb d hd
        rw [hn, List.nil_append, ← hpe, ha]
      · simpa [hpe] using hp
    have hm := (t.follow_handle e hb).follow after
    have hi := ih (h.handle e.kind e.path) hr
    rw [follow_append] at hi ⊢
    exact hi.trans hm

/-- Sessions that differ in the order of their candidates show the same importers, in some order. -/
theorem Rearranged.shownImporters (h : s.Rearranged t) (files : Files) (name : String) :
    (t.shownImporters files name).Perm (s.shownImporters files name) := by
  rw [Session.shownImporters, Session.shownImporters, h.importers, h.contents]
  cases s.importers.lists.get? name with
  | some found => exact .refl _
  | none => exact h.candidates.filter _

theorem Rearranged.symm (h : s.Rearranged t) : t.Rearranged s :=
  ⟨h.strict.symm, h.candidates.symm, h.contents.symm, h.importers.symm⟩

theorem Rearranged.reachable (h : s.Rearranged t) {name p : String}
    (hp : Reachable files s name p) : Reachable files t name p := by
  induction hp with
  | importer hi => exact .importer ((h.shownImporters files _).mem_iff.2 hi)
  | above _ hq ih => exact .above ih ((h.shownImporters files _).mem_iff.2 hq)

/-- A search of either reports the same. -/
theorem Rearranged.ancestors (h : s.Rearranged t) (files : Files) (name : String) :
    (t.ancestors files name).1.Perm (s.ancestors files name).1 := by
  obtain ⟨order, hn, hm, hr⟩ := exists_visit_order files name s
  obtain ⟨order', hn', hm', hr'⟩ := exists_visit_order files name t
  have ho : order'.Perm order := by
    refine (List.perm_ext_iff_of_nodup hn' hn).2 fun p => ?_
    rw [hm, hm']
    exact ⟨h.symm.reachable, h.reachable⟩
  rw [hr, hr', recordsOf, recordsOf, h.contents]
  exact (ho.filter _).map _

end Session

/-- Two sequences of events that agree on the events of each single file lead to the same contents
and lists, marks and epochs included, and to the same candidates in some order. Therefore every
search that follows reports the same. -/
theorem events_commute (s : Session) (files : Files) {events events' : List Notice}
    (h : ∀ path, events.filter (·.path = path) = events'.filter (·.path = path)) :
    (s.follow events).contents = (s.follow events').contents ∧
      (s.follow events).importers = (s.follow events').importers ∧
      (s.follow events).candidates.Perm (s.follow events').candidates ∧
      ∀ name, ((s.follow events).ancestors files name).1.Perm
        ((s.follow events').ancestors files name).1 := by
  have hr := ((Session.Rearranged.refl s).follow_of_filter_eq h).symm
  exact ⟨hr.contents, hr.importers, hr.candidates, hr.ancestors files⟩

/-- Two files of one name: one is created before or after the other is deleted and created again. -/
def createdFirst : List Notice :=
  [⟨.created, "/a/B.vue"⟩, ⟨.deleted, "/c/B.vue"⟩, ⟨.created, "/c/B.vue"⟩]

def createdLast : List Notice :=
  [⟨.deleted, "/c/B.vue"⟩, ⟨.created, "/c/B.vue"⟩, ⟨.created, "/a/B.vue"⟩]

theorem events_commute_sameName :
    let s := Session.new false ".vue" ["/c/B.vue"]
    (∀ path, createdFirst.filter (·.path = path) = createdLast.filter (·.path = path)) ∧
      (s.follow createdFirst).candidates = ["/a/B.vue", "/c/B.vue"] ∧
      (s.follow createdLast).candidates = ["/c/B.vue", "/a/B.vue"] ∧
      (s.follow createdFirst).importers = (s.follow createdLast).importers ∧
      ((s.follow createdFirst).ancestors (fun _ => none) "B").1.Perm
        ((s.follow createdLast).ancestors (fun _ => none) "B").1 := by
  intro s
  have h : ∀ path, createdFirst.filter (·.path = path) = createdLast.filter (·.path = path) := by
    intro path
    by_cases ha : "/a/B.vue" = path
    · subst ha
      decide
    · simp [createdFirst, createdLast, List.filter_cons, ha]
  have hc := events_commute s (fun _ => none) h
  exact ⟨h, by decide, by decide, hc.2.1, hc.2.2.2 "B"⟩

end Ancestry
