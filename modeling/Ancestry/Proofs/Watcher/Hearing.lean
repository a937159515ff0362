import Ancestry.Proofs.Session.Commuting
import Ancestry.Server
import Mathlib.Data.List.Induction

/-!
What a server makes of the reports of the file system: its candidates follow the deletions and
creations of files that are of interest, and nothing else in it takes notice of the others.
-/

namespace Ancestry

namespace Session
variable {s : Session}

theorem nodup_handle (hn : s.candidates.Nodup) (kind : EventKind) (path : String) :
    (s.handle kind path).candidates.Nodup := by
  refine List.nodup_iff_count_le_one.2 fun p => ?_
  have hc := List.nodup_iff_count_le_one.1 hn p
  rw [count_handle]
  split
  · cases kind <;> simp only [EventKind.count] <;> omega
  · exact hc

theorem mem_handle_self (hn : s.candidates.Nodup) (kind : EventKind) (path : String) :
    path ∈ (s.handle kind path).candidates ↔
      kind = .created ∨ kind = .changed ∧ path ∈ s.candidates := by
  have hc := List.nodup_iff_count_le_one.1 hn path
  rw [← List.count_pos_iff, count_handle, if_pos rfl, ← List.count_pos_iff]
  cases kind with
  | created =>
    have hmax := Nat.le_max_right (s.candidates.count path) 1
    simp [EventKind.count, Nat.lt_of_succ_le hmax]
  | changed => simp [EventKind.count]
  | deleted => simp [EventKind.count, Nat.sub_eq_zero_of_le hc]

theorem nodup_follow (hn : s.candidates.Nodup) (events : List Notice) :
    (s.follow events).candidates.Nodup := by
  induction events generalizing s with
  | nil => exact hn
  | cons e events ih => exact ih (nodup_handle hn e.kind e.path)

end Session

/-- The deletions and creations of a path among events. -/
def turnsOf (path : String) (events : List Notice) : List EventKind :=
  (events.filter fun e => e.path = path && e.kind ≠ .changed).map (·.kind)

theorem turnsOf_concat (path : String) (events : List Notice) (e : Notice) :
    turnsOf path (events ++ [e]) =
      turnsOf path events ++ if e.path = path ∧ e.kind ≠ .changed then [e.kind] else [] := by
  by_cases h : e.path = path ∧ e.kind ≠ .changed <;> simp [turnsOf, List.filter_append, h]

/-- The last deletion or creation of a file decides whether it is a candidate. -/
theorem Session.mem_follow {s : Session} (hn : s.candidates.Nodup) (events : List Notice)
    (path : String) :
    path ∈ (s.follow events).candidates ↔ (turnsOf path events).getLast? = some .created ∨
      turnsOf path events = [] ∧ path ∈ s.candidates := by
  induction events using List.reverseRecOn with
  | nil => simp [follow, turnsOf]
  | append_singleton events e ih =>
    have hf : s.follow (events ++ [e]) = (s.follow events).handle e.kind e.path :=
      s.follow_append events [e]
    have hn' := nodup_follow hn events
    rw [hf, turnsOf_concat]
    by_cases hp : e.path = path
    · rw [hp, mem_handle_self hn', ih]
      cases hk : e.kind <;> simp
    · rw [mem_handle_of_ne (Ne.symm hp), ih]
      simp [hp]

/-- The events that a report tells of. A move is a deletion and then a creation. -/
def Report.events : Report → List Notice
  | created path => [⟨.created, path⟩]
  | modified path => [⟨.changed, path⟩]
  | deleted path => [⟨.deleted, path⟩]
  | moved source target => [⟨.deleted, source⟩, ⟨.created, target⟩]
  | other => []

namespace Watcher
variable {α : Type}

/-- The events of files of interest that a row of reports tells of. The first part of a report says
whether it is about a directory. -/
def heard (w : Watcher α) (reports : List (Bool × Report)) : List Notice :=
  ((reports.filter (!·.1)).flatMap (·.2.events)).filter (w.accepts ·.path)

theorem noticeOf_eq (w : Watcher α) (kind : EventKind) (path : String) :
    w.noticeOf kind path = [⟨kind, path⟩].filter (w.accepts ·.path) := by
  rw [noticeOf, List.filter_cons, List.filter_nil]

theorem notices_eq (w : Watcher α) (isDirectory : Bool) (report : Report) :
    w.notices isDirectory report =
      if isDirectory then [] else report.events.filter (w.accepts ·.path) := by
  unfold notices
  split
  · rfl
  · cases report with
    | moved source target =>
      simp only [noticeOf_eq, ← List.filter_append]
      rfl
    | other => rfl
    | _ path => exact noticeOf_eq w _ path

theorem heard_cons (w : Watcher α) (isDirectory : Bool) (report : Report)
    (reports : List (Bool × Report)) :
    w.heard ((isDirectory, report) :: reports) =
      w.notices isDirectory report ++ w.heard reports := by
  cases isDirectory <;> simp [heard, notices_eq]

theorem accepts_of_mem_turns {w : Watcher α} {reports : List (Bool × Report)} {path : String}
    {kind : EventKind} (h : kind ∈ turnsOf path (w.heard reports)) : w.accepts path := by
  obtain ⟨e, he, -⟩ := List.mem_map.1 h
  obtain ⟨hm, hp⟩ := List.mem_filter.1 he
  have hp : e.path = path := by simp_all
  exact hp ▸ (List.mem_filter.1 hm).2

/-- With one callback for each kind, the notices are followed as the events they are. -/
theorem deliverAll_follow {w : Watcher EventKind} (hw : ∀ kind, w.callbacks kind = [kind])
    (events : List Notice) (s : Session) :
    (w.deliverAll Server.follow events s).1 = s.follow events := by
  induction events generalizing s with
  | nil => rfl
  | cons e events ih =>
    have he : w.deliver Server.follow e s = (s.handle e.kind e.path, []) := by
      rw [deliver, hw]
      rfl
    rw [deliverAll, he]
    exact ih _

end Watcher

namespace Server

/-- The server after a row of reports. -/
def hearAll (reports : List (Bool × Report)) (s : Server) : Server :=
  reports.foldl (fun s r => (s.hear r.1 r.2).1) s

theorem callbacks_watch (settings : Settings) (project : Project) (kind : EventKind) :
    (watch settings project).1.callbacks kind = [kind] := by
  cases kind <;> rfl

theorem hear_eq {s : Server} {w : Watcher EventKind} (hs : s.watcher? = some w)
    (hw : ∀ kind, w.callbacks kind = [kind]) (isDirectory : Bool) (report : Report) :
    (s.hear isDirectory report).1 =
      s.withSession (s.project.session.follow (w.notices isDirectory report)) := by
  simp only [hear, hs]
  rw [w.deliverAll_follow hw]

theorem hearAll_eq {s : Server} {w : Watcher EventKind} (hs : s.watcher? = some w)
    (hw : ∀ kind, w.callbacks kind = [kind]) (reports : List (Bool × Report)) :
    s.hearAll reports = s.withSession (s.project.session.follow (w.heard reports)) := by
  induction reports generalizing s with
  | nil => rfl
  | cons r reports ih =>
    obtain ⟨isDirectory, report⟩ := r
    have hc : s.hearAll ((isDirectory, report) :: reports) =
        (s.hear isDirectory report).1.hearAll reports := rfl
    have ht := ih (s := s.withSession (s.project.session.follow (w.notices isDirectory report))) hs
    rw [hc, hear_eq hs hw, ht, w.heard_cons, Session.follow_append]
    rfl

end Server

/-- A server that hears a row of reports, whatever they are. Its candidates stay free of duplicates;
a path is among them if it is of interest and its last deletion or creation was a creation, or if it
had neither and was a candidate before. Reports about directories, or about nothing of interest,
change nothing at all, so the session is where the events of interest alone would have led it. -/
theorem candidates_follow_reports (settings : Settings) (hw : settings.watches) (project : Project)
    (hn : project.session.candidates.Nodup) (reports : List (Bool × Report)) :
    let w := (Server.watch settings project).1
    let s := (Server.new settings project).1.hearAll reports
    s.project.session.candidates.Nodup ∧
      (∀ path, path ∈ s.project.session.candidates ↔
        w.accepts path ∧ (turnsOf path (w.heard reports)).getLast? = some .created ∨
          turnsOf path (w.heard reports) = [] ∧ path ∈ project.session.candidates) ∧
      (∀ isDirectory report,
        isDirectory = true ∨ (∀ e ∈ report.events, w.accepts e.path = false) →
          (s.hear isDirectory report).1 = s) ∧
      s.project.session = project.session.follow (w.heard reports) := by
  intro w s
  have hc := Server.callbacks_watch settings project
  have hs₀ : (Server.new settings project).1.watcher? = some w := by
    simp only [Server.new, hw, if_true]
    rfl
  have hs : s = (Server.new settings project).1.withSession
      (project.session.follow (w.heard reports)) :=
    Server.hearAll_eq hs₀ hc reports
  have hf : s.project.session = project.session.follow (w.heard reports) := by
    rw [hs]
    rfl
  have hsw : s.watcher? = some w := by
    rw [hs]
    exact hs₀
  refine ⟨hf ▸ Session.nodup_follow hn _, fun path => ?_, fun isDirectory report h => ?_, hf⟩
  · rw [hf, Session.mem_follow hn, iff_comm]
    -- a path with a turn that was heard is of interest
    refine or_congr_left (and_iff_right_of_imp fun hl => ?_)
    exact w.accepts_of_mem_turns (List.mem_of_getLast? hl)
  · have hn : w.notices isDirectory report = [] := by
      rw [w.notices_eq]
      rcases h with rfl | h
      · rfl
      · simpa [List.filter_eq_nil_iff] using fun _ => h
    rw [Server.hear_eq hsw hc, hn]
    rfl

/-- Moves out of the files of interest, onto itself and into them. -/
def movesHeard : List (Bool × Report) :=
  [(true, .deleted "/p/B.vue"), (false, .moved "/p/A.vue" "/p/A.txt"),
    (false, .moved "/p/B.vue" "/p/B.vue"), (false, .moved "/p/dist/C.vue" "/p/C.vue"),
    (false, .created "/p/dist/D.vue")]

theorem candidates_follow_reports_moves :
    let root : Path := ⟨.root, ["p"]⟩
    let project : Project := ⟨root, "**/*.vue", ⟨root, [], ["**/node_modules/**"]⟩,
      64, Session.new false ".vue" ["/p/A.vue", "/p/B.vue"]⟩
    let w := (Server.watch .default project).1
    let s := (Server.new .default project).1.hearAll movesHeard
    Settings.default.watches ∧ project.session.candidates.Nodup ∧
      s.project.session.candidates = ["/p/B.vue", "/p/C.vue"] ∧
      turnsOf "/p/B.vue" (w.heard movesHeard) = [.deleted, .created] ∧
      ("/p/B.vue" ∈ s.project.session.candidates ↔
        w.accepts "/p/B.vue" ∧
            (turnsOf "/p/B.vue" (w.heard movesHeard)).getLast? = some .created ∨
          turnsOf "/p/B.vue" (w.heard movesHeard) = [] ∧
            "/p/B.vue" ∈ project.session.candidates) ∧
      (s.hear false (.deleted "/p/dist/D.vue")).1 = s := by
  intro root project w s
  have hn : project.session.candidates.Nodup := by decide
  obtain ⟨-, hm, hu, -⟩ := candidates_follow_reports .default rfl project hn movesHeard
  refine ⟨rfl, hn, by decide +kernel, by decide +kernel, hm "/p/B.vue", hu _ _ (.inr ?_)⟩
  decide +kernel

end Ancestry
