import Ancestry.Proofs.Session.Solo
import Ancestry.Proofs.Watcher.Agreement
import Ancestry.Proofs.Watcher.Hearing

/-!
When a server starts, and what changes its candidates. A request that is out of order, or during
whose start the candidates cannot be listed, leaves the server as it was; a later one starts it. One
during whose start the file system cannot be observed leaves the new candidates behind. From the start
on requests fill the caches, and the candidates go where the events lead them.
-/

namespace Ancestry

/-- What an event makes of a list of candidates. -/
def Notice.relist (e : Notice) (paths : List String) : List String :=
  match e.kind with
  | .created => if e.path ∈ paths then paths else paths ++ [e.path]
  | .changed => paths
  | .deleted => paths.erase e.path

/-- What a row of events makes of a list of candidates. -/
def relistAll (events : List Notice) (paths : List String) : List String :=
  events.foldl (fun paths e => e.relist paths) paths

namespace Session

theorem candidates_handle (kind : EventKind) (path : String) (s : Session) :
    (s.handle kind path).candidates = Notice.relist ⟨kind, path⟩ s.candidates := by
  cases kind with
  | created => exact candidates_onCreate path s
  | changed =>
    rw [handle, onChange, refreshFile_eq]
    rfl
  | deleted => rfl

theorem candidates_follow (events : List Notice) (s : Session) :
    (s.follow events).candidates = relistAll events s.candidates := by
  induction events generalizing s with
  | nil => rfl
  | cons e events ih =>
    have h := ih (s.handle e.kind e.path)
    rw [candidates_handle] at h
    exact h

/-- A search keeps the candidates. -/
theorem candidates_ancestorsOfFile (files : Files) (slots : Nat) (path : String) (s : Session) :
    (Schedule.ancestorsOfFile files slots path s).2.candidates = s.candidates := by
  have h := (s.shows_ask files slots (.ancestorsOfFile path)).candidates
  unfold Schedule.ancestorsOfFile
  split
  · rename_i ha
    rwa [ha] at h
  · rename_i ha
    rwa [ha] at h

end Session

namespace Watcher

/-- A watcher that runs: it stays as it is, or starts with a loop. -/
def awake {α : Type} (w : Watcher α) : Watcher α :=
  if w.isRunning then w else { w with isRunning := true, loop := .running }

/-- A watcher that did not run and could not start: it has its loop. -/
def stalled {α : Type} (w : Watcher α) : Watcher α :=
  { w with loop := .running }

/-- The events that the callbacks make of notices. -/
def told (w : Watcher EventKind) (notices : List Notice) : List Notice :=
  notices.flatMap fun n => (w.callbacks n.kind).map (⟨·, n.path⟩)

theorem runAll_follow (notice : Notice) (callbacks : List EventKind) (s : Session) :
    (runAll Server.follow notice callbacks s).1 = s.follow (callbacks.map (⟨·, notice.path⟩)) := by
  induction callbacks generalizing s with
  | nil => rfl
  | cons kind callbacks ih => exact ih (s.handle kind notice.path)

theorem deliverAll_told (w : Watcher EventKind) (notices : List Notice) (s : Session) :
    (w.deliverAll Server.follow notices s).1 = s.follow (w.told notices) := by
  induction notices generalizing s with
  | nil => rfl
  | cons n notices ih =>
    have ht : w.told (n :: notices) =
        (w.callbacks n.kind).map (⟨·, n.path⟩) ++ w.told notices := by
      simp [told]
    have hd : (w.deliver Server.follow n s).1 =
        s.follow ((w.callbacks n.kind).map (⟨·, n.path⟩)) := runAll_follow n _ s
    rw [ht, Session.follow_append, ← hd, ← ih]
    rfl

end Watcher

namespace Server
variable {s : Server} {env : Surroundings} {path : String} {found : List String}

/-- What the server looks for when it starts. -/
def listing (s : Server) (env : Surroundings) : Except Disk.GlobError (List String) :=
  listCandidates env.stack env.tree s.project.root s.project.glob s.project.rules

/-- Why the watcher cannot start, if there is one that does not run. -/
def hindrance? (s : Server) (env : Surroundings) : Option String :=
  match s.watcher? with
  | some w => if w.isRunning then none else env.obstacle?
  | none => none

/-- The server after a start that found these candidates. -/
def startedWith (s : Server) (found : List String) : Server :=
  ⟨s.project.withSession (s.project.session.setCandidates found),
    s.watcher?.map Watcher.awake, true⟩

/-- The server after a start that found these candidates and failed with its watcher. -/
def stalledWith (s : Server) (found : List String) : Server :=
  ⟨s.project.withSession (s.project.session.setCandidates found),
    s.watcher?.map Watcher.stalled, false⟩

theorem startWatcher_of_free {w : Watcher EventKind} (h : w.isRunning ∨ env.obstacle? = none) :
    ∃ entries, startWatcher env w = (.ok entries, w.awake) := by
  unfold startWatcher Watcher.awake
  by_cases hw : w.isRunning
  · rw [if_pos hw, if_pos hw]
    exact ⟨[], rfl⟩
  · rw [if_neg hw, if_neg hw, Watcher.start.eq_def, if_neg hw, h.resolve_left hw]
    exact ⟨_, rfl⟩

theorem startWatcher_of_obstacle {w : Watcher EventKind} {message : String}
    (hw : w.isRunning = false) (ho : env.obstacle? = some message) :
    startWatcher env w = (.error (.watcher (.unobserved message)), w.stalled) := by
  have hn : ¬ w.isRunning := by simp [hw]
  rw [startWatcher, if_neg hn, Watcher.start.eq_def, if_neg hn, ho]
  rfl

theorem ensureStarted_of_started (hs : s.started) (env : Surroundings) :
    s.ensureStarted env = (.ok [], s) :=
  if_pos hs

theorem ensureStarted_of_error {e : Disk.GlobError} (hs : s.started = false)
    (hl : s.listing env = .error e) : s.ensureStarted env = (.error (.badGlob e), s) := by
  have hr : s.project.refresh env.stack env.tree = .error e := by
    unfold listing at hl
    rw [Project.refresh, hl]
    rfl
  simp [ensureStarted, hs, hr]

theorem refresh_of_ok (hl : s.listing env = .ok found) :
    ∃ logged, s.project.refresh env.stack env.tree =
      .ok (s.project.withSession (s.project.session.setCandidates found), logged) := by
  unfold listing at hl
  rw [Project.refresh, hl]
  exact ⟨_, rfl⟩

theorem ensureStarted_of_ok (hs : s.started = false) (hl : s.listing env = .ok found)
    (hh : s.hindrance? env = none) :
    ∃ entries, s.ensureStarted env = (.ok entries, s.startedWith found) := by
  obtain ⟨logged, hr⟩ := refresh_of_ok hl
  cases hw : s.watcher? with
  | none => simp [ensureStarted, hs, hr, hw, startedWith]
  | some w =>
    have hf : w.isRunning ∨ env.obstacle? = none := by
      simpa [hindrance?, hw, Classical.or_iff_not_imp_left] using hh
    obtain ⟨entries, he⟩ := startWatcher_of_free hf
    simp [ensureStarted, hs, hr, hw, he, startedWith]

theorem ensureStarted_of_hindrance {message : String} (hs : s.started = false)
    (hl : s.listing env = .ok found) (hh : s.hindrance? env = some message) :
    s.ensureStarted env = (.error (.watcher (.unobserved message)), s.stalledWith found) := by
  obtain ⟨logged, hr⟩ := refresh_of_ok hl
  cases hw : s.watcher? with
  | none => simp [hindrance?, hw] at hh
  | some w =>
    obtain ⟨hn, ho⟩ : w.isRunning = false ∧ env.obstacle? = some message := by
      simpa [hindrance?, hw] using hh
    simp [ensureStarted, hs, hr, hw, startWatcher_of_obstacle hn ho, stalledWith]

/-- What is done for a request once the server has started. -/
def answer (env : Surroundings) (path : String) (s : Server) : Except RequestError Reply × Server :=
  match locate env path with
  | .error e => (.error e, s)
  | .ok place => (s.reply env place).map .ok id

theorem find_of_fault {e : RequestError} (hf : fault? path = some e) :
    s.find env path = (.error e, s) := by
  simp only [find, hf]

theorem find_of_started (hf : fault? path = none) (hs : s.started) :
    s.find env path = s.answer env path := by
  simp only [find, hf, ensureStarted_of_started hs]
  rfl

theorem find_of_error {e : Disk.GlobError} (hf : fault? path = none) (hs : s.started = false)
    (hl : s.listing env = .error e) : s.find env path = (.error (.badGlob e), s) := by
  simp only [find, hf, ensureStarted_of_error hs hl]

theorem find_of_ok (hf : fault? path = none) (hs : s.started = false)
    (hl : s.listing env = .ok found) (hh : s.hindrance? env = none) :
    s.find env path = (s.startedWith found).answer env path := by
  obtain ⟨entries, he⟩ := ensureStarted_of_ok hs hl hh
  simp only [find, hf, he]
  rfl

theorem find_of_hindrance {message : String} (hf : fault? path = none) (hs : s.started = false)
    (hl : s.listing env = .ok found) (hh : s.hindrance? env = some message) :
    s.find env path = (.error (.watcher (.unobserved message)), s.stalledWith found) := by
  simp only [find, hf, ensureStarted_of_hindrance hs hl hh]

/-- All that a request can come to: it is refused, or answered at once, or the start fails with the
candidates or with the watcher, or it is answered after the start. -/
theorem find_cases (env : Surroundings) (path : String) (s : Server) :
    (∃ e, fault? path = some e ∧ s.find env path = (.error e, s)) ∨
      (s.started ∧ s.find env path = s.answer env path) ∨
      (s.started = false ∧ ∃ e, s.find env path = (.error (.badGlob e), s)) ∨
      (s.started = false ∧ ∃ message found,
        s.find env path = (.error (.watcher (.unobserved message)), s.stalledWith found)) ∨
      (s.started = false ∧ ∃ found, s.find env path = (s.startedWith found).answer env path) := by
  cases hf : fault? path with
  | some e => exact .inl ⟨e, rfl, find_of_fault hf⟩
  | none =>
    refine .inr ?_
    cases hs : s.started with
    | true => exact .inl ⟨rfl, find_of_started hf hs⟩
    | false =>
      refine .inr ?_
      cases hl : s.listing env with
      | error e => exact .inl ⟨rfl, e, find_of_error hf hs hl⟩
      | ok found =>
        refine .inr ?_
        cases hh : s.hindrance? env with
        | some message => exact .inl ⟨rfl, message, found, find_of_hindrance hf hs hl hh⟩
        | none => exact .inr ⟨rfl, found, find_of_ok hf hs hl hh⟩

/-- An answer changes nothing but what the session keeps. -/
theorem answer_snd (env : Surroundings) (path : String) (s : Server) :
    ∃ session, (s.answer env path).2 = s.withSession session ∧
      session.candidates = s.project.session.candidates := by
  unfold answer
  split
  · exact ⟨s.project.session, rfl, rfl⟩
  · rename_i place hl
    rw [Prod.map_snd, reply_eq]
    exact ⟨_, rfl, Session.candidates_ancestorsOfFile _ _ _ _⟩

theorem locate_ne_watcher (env : Surroundings) (path : String) (e : StartError) :
    locate env path ≠ .error (.watcher e) := by
  have hh : expandHome env.home (Path.ofString path) ≠ .error (.watcher e) := by
    unfold expandHome
    split
    · split
      · simp
      · split <;> simp
      · simp
    · simp
  intro h
  unfold locate at h
  cases hx : expandHome env.home (Path.ofString path) with
  | error e' =>
    rw [hx] at h
    exact hh (hx.trans h)
  | ok p =>
    rw [hx] at h
    simp only [bind, Except.bind] at h
    split at h
    · cases h
    · cases h

theorem answer_ne_watcher (env : Surroundings) (path : String) (s : Server) (e : StartError) :
    (s.answer env path).1 ≠ .error (.watcher e) := by
  unfold answer
  cases hl : locate env path with
  | error e' =>
    intro h
    exact locate_ne_watcher env path e (hl.trans (congrArg _ (Except.error.inj h)))
  | ok place => simp

/-- No request starts a watcher that runs. -/
theorem find_ne_alreadyRunning (env : Surroundings) (path : String) (s : Server) :
    (s.find env path).1 ≠ .error (.watcher .alreadyRunning) := by
  obtain ⟨e, hf, h⟩ | ⟨-, h⟩ | ⟨-, e, h⟩ | ⟨-, message, found, h⟩ | ⟨-, found, h⟩ :=
    find_cases env path s
  · rw [h]
    rintro he
    obtain rfl : e = .watcher .alreadyRunning := Except.error.inj he
    unfold fault? at hf
    split at hf
    · cases hf
    · split at hf <;> cases hf
  · rw [h]
    exact answer_ne_watcher env path s .alreadyRunning
  · rw [h]
    simp
  · rw [h]
    simp
  · rw [h]
    exact answer_ne_watcher env path _ .alreadyRunning

/-- Paths that no request may have. -/
def Unfit (path : String) : Prop :=
  Text.isBlank path.toList ∨ maxPathLength < path.length

theorem fault?_eq_none_iff : fault? path = none ↔ ¬Unfit path := by
  unfold fault? Unfit
  by_cases hb : Text.isBlank path.toList
  · simp [hb]
  · by_cases hl : maxPathLength < path.length <;> simp [hb, hl]

theorem exists_fault (h : Unfit path) :
    ∃ e, fault? path = some e ∧ e.isInvalidValue ∧ (e = .blank ∨ e = .tooLong) := by
  unfold fault?
  by_cases hb : Text.isBlank path.toList
  · rw [if_pos hb]
    exact ⟨_, rfl, rfl, .inl rfl⟩
  · rw [if_neg hb, if_pos (h.resolve_left hb)]
    exact ⟨_, rfl, rfl, .inr rfl⟩

/-! ### Rows of requests and events -/

/-- What may happen to a server that is not shut down: requests, events that its session is told of,
and reports of the file system. -/
inductive Act where
  | request (env : Surroundings) (path : String)
  | event (kind : EventKind) (path : String)
  | report (isDirectory : Bool) (report : Report)

def act (s : Server) : Act → Server
  | .request env path => (s.find env path).2
  | .event kind path => s.withSession (s.project.session.handle kind path)
  | .report isDirectory report => (s.hear isDirectory report).1

def run (s : Server) (acts : List Act) : Server :=
  acts.foldl act s

/-- The events that the session follows. Reports reach it through the watcher, if there is one. -/
def Act.events (watcher? : Option (Watcher EventKind)) : Act → List Notice
  | .request _ _ => []
  | .event kind path => [⟨kind, path⟩]
  | .report isDirectory r =>
    match watcher? with
    | none => []
    | some w => w.told (w.notices isDirectory r)

/-- A server that has started stays so, with the same watcher, and only events change its
candidates. -/
theorem act_of_started (hs : s.started) (a : Act) :
    (s.act a).started ∧ (s.act a).watcher? = s.watcher? ∧
      (s.act a).project.session.candidates =
        relistAll (a.events s.watcher?) s.project.session.candidates := by
  cases a with
  | request env path =>
    obtain ⟨e, -, h⟩ | ⟨-, h⟩ | ⟨hn, -⟩ | ⟨hn, -⟩ | ⟨hn, -⟩ := find_cases env path s
    · have ha : s.act (.request env path) = s := congrArg Prod.snd h
      rw [ha]
      exact ⟨hs, rfl, rfl⟩
    · obtain ⟨session, ha, hc⟩ := answer_snd env path s
      rw [act, h, ha]
      exact ⟨hs, rfl, hc⟩
    · simp [hs] at hn
    · simp [hs] at hn
    · simp [hs] at hn
  | event kind path => exact ⟨hs, rfl, Session.candidates_handle kind path _⟩
  | report isDirectory report =>
    cases hw : s.watcher? with
    | none =>
      simp only [act, hear, hw]
      exact ⟨hs, trivial, rfl⟩
    | some w =>
      simp only [act, hear, hw, w.deliverAll_told]
      exact ⟨hs, hw, Session.candidates_follow _ _⟩

theorem run_of_started (hs : s.started) (acts : List Act) :
    (s.run acts).started ∧ (s.run acts).project.session.candidates =
      relistAll (acts.flatMap (Act.events s.watcher?)) s.project.session.candidates := by
  induction acts generalizing s with
  | nil => exact ⟨hs, rfl⟩
  | cons a acts ih =>
    obtain ⟨hs', hw, hc⟩ := act_of_started hs a
    obtain ⟨hr, hrc⟩ := ih hs'
    refine ⟨hr, hrc.trans ?_⟩
    rw [hw, hc, List.flatMap_cons]
    exact List.foldl_append.symm

end Server

/-- A server, whatever its watcher does already, after any row of requests, events and reports. A
request for a blank path or for one that is too long is refused as invalid and changes nothing. Nor
does one during whose start the candidates cannot be listed; the server has not started then, and
the next request that can list them starts it with what is listed. If it cannot observe the file
system, though, the request fails with that, and the server has the new candidates and has not started.
Once it has started, nothing is listed again, and the candidates are what the events since then make of
them. No request fails because the watcher runs. -/
theorem server_starts_once (server : Server) (acts : List Server.Act) :
    let s := server.run acts
    (∀ env path, Server.Unfit path →
      ∃ e, e.isInvalidValue ∧ (e = .blank ∨ e = .tooLong) ∧ s.find env path = (.error e, s)) ∧
    (∀ env path e, ¬Server.Unfit path → s.started = false → s.listing env = .error e →
      s.find env path = (.error (.badGlob e), s)) ∧
    (∀ env path found, ¬Server.Unfit path → s.started = false → s.listing env = .ok found →
      s.hindrance? env = none →
        (s.find env path).2.started ∧ (s.find env path).2.project.session.candidates = found) ∧
    (∀ env path found message, ¬Server.Unfit path → s.started = false →
      s.listing env = .ok found → s.hindrance? env = some message →
        s.find env path = (.error (.watcher (.unobserved message)), s.stalledWith found)) ∧
    (s.started → ∀ more : List Server.Act,
      (∀ env, (s.run more).ensureStarted env = (.ok [], s.run more)) ∧
      (s.run more).project.session.candidates =
        relistAll (more.flatMap (Server.Act.events s.watcher?)) s.project.session.candidates) ∧
    ∀ env path, (s.find env path).1 ≠ .error (.watcher .alreadyRunning) := by
  intro s
  refine ⟨?_, ?_, ?_, ?_, ?_, fun env path => Server.find_ne_alreadyRunning env path s⟩
  · intro env path hp
    obtain ⟨e, hf, hi, he⟩ := Server.exists_fault hp
    exact ⟨e, hi, he, Server.find_of_fault hf⟩
  · intro env path e hp hs hl
    exact Server.find_of_error (Server.fault?_eq_none_iff.2 hp) hs hl
  · intro env path found hp hs hl hh
    obtain ⟨session, ha, hc⟩ := Server.answer_snd env path (s.startedWith found)
    rw [Server.find_of_ok (Server.fault?_eq_none_iff.2 hp) hs hl hh, ha]
    exact ⟨rfl, hc⟩
  · intro env path found message hp hs hl hh
    exact Server.find_of_hindrance (Server.fault?_eq_none_iff.2 hp) hs hl hh
  · intro hs more
    obtain ⟨hr, hc⟩ := Server.run_of_started hs more
    exact ⟨Server.ensureStarted_of_started hr, hc⟩

/-- A directory whose name is too long to be looked up. -/
def crampedTree : Disk.Tree :=
  ⟨[(["p", String.ofList (List.replicate 256 'a'), "A.vue"], .file [])]⟩

theorem candidates_crampedTree :
    ∃ e, candidates crampedTree ⟨.root, ["p"]⟩ "**/*.vue" bareProject.rules = .error e := by
  have hg : Disk.Glob.ofString "**/*.vue" = .ok (Disk.Glob.ending ".vue".toList) := by
    decide +kernel
  have hf : ((Disk.Glob.ending ".vue".toList).files crampedTree ["p"]).toBool = false := by
    decide +kernel
  cases hc : candidates crampedTree ⟨.root, ["p"]⟩ "**/*.vue" bareProject.rules with
  | error e => exact ⟨e, rfl⟩
  | ok found =>
    obtain ⟨paths, hp, -⟩ := (candidates_eq_ok hg).1 hc
    rw [hp] at hf
    cases hf

/-- A server that has not started, with a watcher that runs already. -/
def wokenServer : Server :=
  ⟨bareProject, some (Server.watch .default bareProject).1.awake, false⟩

/-- A server that has not started, with a watcher that does not run. -/
def restingServer : Server :=
  ⟨bareProject, some (Server.watch .default bareProject).1, false⟩

theorem server_starts_once_woken :
    let cramped : Surroundings := { tree := crampedTree, here := ⟨.root, ["p"]⟩, home := ⟨.root, []⟩ }
    let tidy : Surroundings := { cramped with tree := bareTree }
    let blind : Surroundings := { tidy with obstacle? := some "inotify watch limit reached" }
    let found := ["/p/src/.vue", "/p/src/App.vue"]
    let s := wokenServer.run [.event .created "/p/New.vue"]
    let s' := (s.find tidy "x.txt").2
    let more : List Server.Act :=
      [.request cramped "y.txt", .event .deleted "/p/src/App.vue"]
    Server.Unfit " " ∧ ¬Server.Unfit "x.txt" ∧ s.started = false ∧
      (∃ e, e.isInvalidValue ∧ s.find tidy " " = (.error e, s)) ∧
      (∃ e, s.listing cramped = .error e ∧
        s.find cramped "x.txt" = (.error (.badGlob e), s)) ∧
      s'.started ∧ s'.project.session.candidates = found ∧
      (s'.run more).project.session.candidates = ["/p/src/.vue"] ∧
      restingServer.find blind "x.txt" =
        (.error (.watcher (.unobserved "inotify watch limit reached")),
          restingServer.stalledWith found) := by
  intro cramped tidy blind found s s' more
  have hblank : Server.Unfit " " := .inl (by decide +kernel)
  have hfit : ¬Server.Unfit "x.txt" := by
    unfold Server.Unfit
    decide +kernel
  have hs : s.started = false := rfl
  have hfound (s : Server) (hp : s.project.root = bareProject.root ∧
      s.project.glob = bareProject.glob ∧ s.project.rules = bareProject.rules)
      (env : Surroundings) (he : env.stack = .ample ∧ env.tree = bareTree) :
      s.listing env = .ok found := by
    rw [Server.listing, he.1, he.2, hp.1, hp.2.1, hp.2.2, listCandidates_ample]
    exact candidates_bareTree
  obtain ⟨hrefused, hfailed, hstarted, -, -, -⟩ :=
    server_starts_once wokenServer [.event .created "/p/New.vue"]
  obtain ⟨e, hl⟩ : ∃ e, s.listing cramped = .error e := by
    obtain ⟨e, hl⟩ := candidates_crampedTree
    exact ⟨e, listCandidates_ample.trans hl⟩
  obtain ⟨hs', hc⟩ :=
    hstarted tidy "x.txt" _ hfit hs (hfound s ⟨rfl, rfl, rfl⟩ tidy ⟨rfl, rfl⟩) rfl
  obtain ⟨refusal, hi, -, hr⟩ := hrefused tidy " " hblank
  obtain ⟨-, -, -, -, hlater, -⟩ :=
    server_starts_once wokenServer [.event .created "/p/New.vue", .request tidy "x.txt"]
  obtain ⟨-, -, -, hstalled, -, -⟩ := server_starts_once restingServer []
  refine ⟨hblank, hfit, hs, ⟨refusal, hi, hr⟩,
    ⟨e, hl, hfailed cramped "x.txt" e hfit hs hl⟩, hs', hc,
    ((hlater hs' more).2.trans (congrArg (relistAll _) hc)).trans ?_,
    hstalled blind "x.txt" found _ hfit rfl
      (hfound restingServer ⟨rfl, rfl, rfl⟩ blind ⟨rfl, rfl⟩) rfl⟩
  decide +kernel

end Ancestry
