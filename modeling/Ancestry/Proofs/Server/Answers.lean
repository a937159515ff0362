import Ancestry.Proofs.Server.Starting
import Ancestry.Proofs.Session.Liveness

/-!
A server answers every request that is in order. The settings it was made with leave it a slot,
whatever they were read from, and it keeps its slots; so each of its searches comes to an end.
-/

namespace Ancestry
open Yaml (Value)

theorem Session.exists_ancestorsOfFile {slots : Nat} (files : Files) (hs : 0 < slots)
    (path : String) (s : Session) : ∃ records t,
      s.Yields files slots (.ancestorsOfFile path) (.records records) t ∧
        Schedule.ancestorsOfFile files slots path s = (records, t) := by
  have hc : (Call.ancestorsOfFile path).IsSearch := trivial
  obtain ⟨records, t, h⟩ := exists_ask files hs hc s
  refine ⟨records, t, yields_of_ask h, ?_⟩
  unfold Schedule.ancestorsOfFile
  generalize Schedule.ask files slots (.ancestorsOfFile path) s = answered at h ⊢
  rw [h]

namespace Settings
variable {s next : Settings}

theorem maxReads_pos_put? {key : Key} {value : Value} (h : s.put? key value = some next)
    (hs : 0 < s.maxReads) : 0 < next.maxReads := by
  unfold put? at h
  split at h
  · split at h <;> cases h
    exact hs
  · obtain ⟨_, -, rfl⟩ := Option.map_eq_some_iff.1 h
    exact hs
  · split at h <;> cases h
    exact hs
  · obtain ⟨_, -, rfl⟩ := Option.map_eq_some_iff.1 h
    exact hs
  · split at h <;> cases h
    rename_i hn
    simpa using hn
  · cases h
    exact hs
  · cases h
    exact hs
  · cases h

theorem maxReads_pos_merge (hs : 0 < s.maxReads) (pairs : List (Value × Value)) :
    0 < (s.merge pairs).1.maxReads := by
  induction pairs generalizing s with
  | nil => exact hs
  | cons entry rest ih =>
    have hm : 0 < (s.mergeEntry entry).1.maxReads := by
      unfold mergeEntry
      split
      · exact hs
      · split
        · exact hs
        · rename_i hp
          exact maxReads_pos_put? hp hs
    exact ih hm

theorem maxReads_pos_ofValue (document : Value) : 0 < (ofValue document).1.maxReads := by
  have hd : 0 < default.maxReads := by decide
  unfold ofValue
  split
  · exact hd
  · exact maxReads_pos_merge hd _
  · exact hd

theorem maxReads_pos_ofReading {file : Path} {reading : Except Yaml.Error Value}
    {warnings : List Warning} (h : ofReading file reading = .ok (s, warnings)) :
    0 < s.maxReads := by
  unfold ofReading at h
  split at h
  · rename_i document
    have hp := maxReads_pos_ofValue document
    rwa [Except.ok.inj h] at hp
  · cases h
  · cases h
  · cases h
    decide

/-- Whatever settings are read, there is a slot. -/
theorem maxReads_pos_of_load {read : List UInt8 → Except Yaml.Error Value} {levels : Nat}
    {tree : Disk.Tree} {here file : Path} (h : (load read levels tree here file).2 = .ok s) :
    0 < s.maxReads := by
  have hd : 0 < default.maxReads := by decide
  unfold load at h
  split at h
  · cases h
  · cases h
    exact hd
  · split at h
    · unfold ofDocument at h
      split at h
      · cases h
      · rename_i settings warnings hr
        have hp := maxReads_pos_ofReading hr
        generalize logWarnings levels warnings = logged at h
        obtain ⟨_, _ | _⟩ := logged
        · cases h
        · cases h
          exact hp
    · cases h
      exact hd

end Settings

namespace Server
variable {s : Server}

theorem slots_answer (env : Surroundings) (path : String) (s : Server) :
    (s.answer env path).2.project.slots = s.project.slots := by
  obtain ⟨session, h, -⟩ := s.answer_snd env path
  rw [h]
  rfl

/-- Nothing that happens to a server changes how many files it reads at once. -/
theorem slots_act (a : Act) (s : Server) : (s.act a).project.slots = s.project.slots := by
  cases a with
  | request env path =>
    obtain ⟨_, -, h⟩ | ⟨-, h⟩ | ⟨-, _, h⟩ | ⟨-, _, _, h⟩ | ⟨-, _, h⟩ := find_cases env path s
    · rw [act, h]
    · rw [act, h, slots_answer]
    · rw [act, h]
    · rw [act, h]
      rfl
    · rw [act, h, slots_answer]
      rfl
  | event kind path => rfl
  | report isDirectory report =>
    cases hw : s.watcher? with
    | none => simp only [act, hear, hw]
    | some w =>
      simp only [act, hear, hw]
      rfl

theorem slots_run (acts : List Act) (s : Server) :
    (s.run acts).project.slots = s.project.slots := by
  induction acts generalizing s with
  | nil => rfl
  | cons a acts ih => exact (ih (s.act a)).trans (slots_act a s)

end Server

/-- After any requests, events and reports a server with settings that were read answers for every
path that it locates, with the records of a search whose turns came in some order. -/
theorem server_answers {read : List UInt8 → Except Yaml.Error Value} {levels : Nat}
    {tree : Disk.Tree} {here file : Path} {root? : Option Path} {settings : Settings}
    {project : Project} {logged : List Log.Entry}
    (loaded : (Settings.load read levels tree here file).2 = .ok settings)
    (made : Project.new tree here root? settings = .ok (project, logged))
    (acts : List Server.Act) (env : Surroundings) (place : Path) :
    let s := (Server.new settings project).1.run acts
    ∃ records t, s.project.session.Yields (env.tree.files env.here) s.project.slots
        (.ancestorsOfFile place.toString) (.records records) t ∧
      s.reply env place = (.ofRecords place.toString records, s.withSession t) := by
  intro s
  have hs : 0 < s.project.slots := by
    have hn : (Server.new settings project).1.project = project := rfl
    obtain ⟨rules, rfl⟩ := Project.eq_of_new made
    rw [Server.slots_run, hn]
    exact Settings.maxReads_pos_of_load loaded
  obtain ⟨records, t, hy, he⟩ :=
    s.project.session.exists_ancestorsOfFile (env.tree.files env.here) hs place.toString
  exact ⟨records, t, hy, by rw [Server.reply_eq, he]⟩

end Ancestry
