import Ancestry.Proofs.Session.Run
import Ancestry.Proofs.Session.Solo
import Ancestry.Server

/-!
What a reply shows and what it lists agree. The bullets of a hover text are made call by call and the
entries of an ancestor all at once. They come to the same because no call is without an entry, and
then no section is without a bullet.
-/

namespace Ancestry
open Ancestry.Source

theorem Source.provideEntries_ne_nil (text : String) : provideEntries text ≠ [] := by
  unfold provideEntries
  split
  · exact List.cons_ne_nil _ _
  · rename_i hne
    exact hne

theorem Source.allEntries_ne_nil {texts : List String} (h : texts ≠ []) : allEntries texts ≠ [] := by
  obtain ⟨text, rest, rfl⟩ := List.exists_cons_of_ne_nil h
  rw [allEntries, List.flatMap_cons]
  exact List.append_ne_nil_of_left_ne_nil (provideEntries_ne_nil text) _

namespace Hover

/-- The section of an ancestor around its body. -/
def framed (name source body : String) : String :=
  "**Provides:**\n" ++ body ++ "\n\n" ++ name ++ "\n*(at " ++ source ++ ")*"

theorem framed_inj {name source body body' : String} :
    framed name source body = framed name source body' ↔ body = body' := by
  unfold framed
  iterate 5 rw [String.append_left_inj]
  rw [String.append_right_inj]

theorem bullet_eq (e : Entry) :
    bullet e = if e = ⟨"(Non-valid provide syntax found)", ""⟩
      then "- *(Non-valid provide syntax found)*" else "- **" ++ e.key ++ "**: " ++ e.value := by
  by_cases he : e = .unreadable
  · subst he
    decide
  · simp only [bullet, Entry.isValid, decide_not, Bool.not_eq_true', decide_eq_false he, if_true]
    exact (if_neg he).symm

/-- Joining in groups is joining at once, unless a group is empty. -/
theorem intercalate_flatMap {α : Type} (sep : String) (f : α → List String) (xs : List α)
    (hf : ∀ x ∈ xs, f x ≠ []) :
    sep.intercalate (xs.map fun x => sep.intercalate (f x)) = sep.intercalate (xs.flatMap f) := by
  induction xs with
  | nil => rfl
  | cons x xs ih =>
    have hx := hf x List.mem_cons_self
    have ih := ih fun y hy => hf y (List.mem_cons_of_mem x hy)
    cases xs with
    | nil => simp
    | cons y ys =>
      have hm : ((y :: ys).map fun x => sep.intercalate (f x)) ≠ [] := by simp
      have hr : (y :: ys).flatMap f ≠ [] := by
        rw [List.flatMap_cons]
        exact List.append_ne_nil_of_left_ne_nil (hf y (by simp)) _
      rw [List.map_cons, List.flatMap_cons, String.intercalate_cons_of_ne_nil hm,
        String.intercalate_append_of_ne_nil hx hr, ih]

theorem callTexts_eq_bullets (calls : List String) :
    "\n\n".intercalate (calls.map callText) = bullets (allEntries calls) := by
  have h := intercalate_flatMap "\n\n" (fun c => (provideEntries c).map bullet) calls fun c _ => by
    simpa using provideEntries_ne_nil c
  rw [bullets, allEntries, List.map_flatMap]
  exact h

theorem head?_bullet (e : Entry) : (bullet e).toList.head? = some '-' := by
  unfold bullet
  split <;> simp

/-- Bullets are told from every other body by their first character. -/
theorem head?_bullets {entries : List Entry} (h : entries ≠ []) :
    (bullets entries).toList.head? = some '-' := by
  obtain ⟨e, rest, rfl⟩ := List.exists_cons_of_ne_nil h
  cases rest with
  | nil => simpa [bullets] using head?_bullet e
  | cons e' rest =>
    rw [bullets, List.map_cons, List.map_cons, String.intercalate_cons_cons]
    simp [head?_bullet]

theorem bullets_ne {entries : List Entry} (h : entries ≠ []) {body : String}
    (hb : body.toList.head? ≠ some '-') : bullets entries ≠ body := by
  rintro rfl
  exact hb (head?_bullets h)

theorem sectionText_eq (r : Record) :
    sectionText r = framed r.name r.source
      (if r.provides = [] then "(no values)" else bullets (allEntries r.provides)) := by
  have hs : sectionText r = framed r.name r.source
      (if "\n\n".intercalate (r.provides.map callText) = "" then "(no values)"
        else "\n\n".intercalate (r.provides.map callText)) := rfl
  rw [hs, callTexts_eq_bullets, framed_inj]
  by_cases h : r.provides = []
  · have hb : bullets (allEntries []) = "" := rfl
    rw [if_pos h, h, hb, if_pos rfl]
  · rw [if_neg h, if_neg (bullets_ne (allEntries_ne_nil h) (by decide))]

theorem sectionText_eq_noValues_iff (r : Record) :
    sectionText r = framed r.name r.source "(no values)" ↔ r.provides = [] := by
  rw [sectionText_eq, framed_inj]
  by_cases h : r.provides = []
  · simp [h]
  · simp only [h, if_false, iff_false]
    exact bullets_ne (allEntries_ne_nil h) (by decide)

end Hover

namespace Reply

/-- What a reply shows is made of what it lists. -/
structure Consistent (r : Reply) : Prop where
  entries : ∀ a ∈ r.ancestors, a.entries = allEntries a.provides ∧ a.entries ≠ []
  silent : r.display? = none ↔ r.ancestors = []
  shown : ∀ d, r.display? = some d →
    d.ancestorCount = r.ancestors.length ∧
      d.hover = "\n\n---\n\n".intercalate (Hover.header :: r.ancestors.map fun a =>
        Hover.framed a.name a.source (Hover.bullets a.entries))

theorem consistent_ofRecords (path : String) {records : List Record}
    (h : ∀ r ∈ records, r.provides ≠ []) : (ofRecords path records).Consistent := by
  have hs : records.map Hover.sectionText = (records.map Ancestor.ofRecord).map fun a =>
      Hover.framed a.name a.source (Hover.bullets a.entries) := by
    rw [List.map_map]
    refine List.map_congr_left fun r hr => ?_
    rw [Hover.sectionText_eq, if_neg (h r hr)]
    rfl
  refine ⟨?_, ?_, ?_⟩
  · intro a ha
    obtain ⟨r, hr, rfl⟩ := List.mem_map.1 ha
    exact ⟨rfl, allEntries_ne_nil (h r hr)⟩
  · simp [ofRecords, Hover.display?]
  · intro d hd
    simp only [ofRecords, Hover.display?, Option.ite_none_left_eq_some, Option.some.injEq] at hd
    obtain ⟨-, rfl⟩ := hd
    exact ⟨(List.length_map _).symm, by rw [Hover.text, hs]; rfl⟩

end Reply

/-! Records are made only where calls were found, in whatever order the turns of a search come. -/

def Flight.Provided (fl : Flight) : Prop :=
  ∀ r ∈ fl.records, r.provides ≠ []

theorem Instant.Next.provided {files : Files} {m m' : Instant} (h : m.Next files m')
    (hm : m.flight.Provided) : m'.flight.Provided := by
  cases h with
  | report hc =>
    intro r hr
    simp only at hr
    split at hr
    · exact hm r hr
    · rename_i hne
      rcases List.mem_append.1 hr with hr | hr
      · exact hm r hr
      · rw [List.mem_singleton.1 hr]
        exact hne
  | _ => exact hm

theorem Instant.EndsIn.provided {files : Files} {m : Instant} {b : Nat} {x : Session × Flight}
    (h : m.EndsIn files b x) (hm : m.flight.Provided) : x.2.Provided := by
  obtain ⟨fl, branch, hf, hx⟩ := h.keeps (P := fun m => m.flight.Provided) Instant.Next.provided hm
  rw [hx]
  exact hf

theorem Pool.provided_begin {p : Pool} (files : Files) (call : Call)
    (h : ∀ fl ∈ p.flights, fl.Provided) : ∀ fl ∈ (p.begin call).flights, fl.Provided := by
  have hc : Flight.Provided { call } := fun r hr => nomatch hr
  have hb : (p.session.beginCall call).2.Provided := by
    rcases p.session.beginCall_endsIn files call with hx | ⟨path, -, hx⟩
    · exact hx.provided hc
    · rw [hx]
      exact hc
  intro fl hfl
  rcases List.mem_append.1 hfl with hfl | hfl
  · exact h fl hfl
  · rw [List.mem_singleton.1 hfl]
    exact hb

theorem Pool.provided_turn? {files : Files} {p p' : Pool} {turn : Turn} {place : Place}
    (ht : p.turn? files turn place = some p') (h : ∀ fl ∈ p.flights, fl.Provided) :
    ∀ fl ∈ p'.flights, fl.Provided := by
  obtain ⟨fl, branch, next, hf, -, hx, rfl⟩ := Pool.turn?_endsIn ht
  intro other ho
  rcases List.mem_or_eq_of_mem_set ho with ho | rfl
  · exact h other ho
  · exact hx.provided (h fl (List.mem_of_getElem? hf))

theorem World.provided_step {w : World} (h : ∀ fl ∈ w.pool.flights, fl.Provided) (a : Act) :
    ∀ fl ∈ (w.step a).pool.flights, fl.Provided := by
  cases a with
  | begin call => exact Pool.provided_begin w.files call h
  | turn turn place =>
    cases ht : w.pool.turn? w.files turn place with
    | none => simpa only [World.step, ht, Option.getD_none] using h
    | some p =>
      simp only [World.step, ht, Option.getD_some]
      exact Pool.provided_turn? ht h
  | _ => exact h

theorem World.provided_run {w : World} (h : ∀ fl ∈ w.pool.flights, fl.Provided) (acts : List Act) :
    ∀ fl ∈ (w.run acts).pool.flights, fl.Provided := by
  induction acts generalizing w with
  | nil => exact h
  | cons a acts ih => exact ih (w.provided_step h a)

theorem Flight.Provided.answer {fl : Flight} {path : String} {records : List Record}
    (h : fl.Provided) (hc : fl.call = .ancestorsOfFile path)
    (ha : fl.answer? = some (.records records)) : ∀ r ∈ records, r.provides ≠ [] := by
  rw [Flight.answer?, hc] at ha
  simp only [Option.ite_none_right_eq_some, Option.some.injEq, Answer.records.injEq] at ha
  obtain ⟨-, rfl⟩ := ha
  exact h

theorem Session.provides_ne_nil_of_mem_ancestorsOfFile {files : Files} {slots : Nat} {path : String}
    {s : Session} {r : Record} (h : r ∈ (Schedule.ancestorsOfFile files slots path s).1) :
    r.provides ≠ [] := by
  unfold Schedule.ancestorsOfFile at h
  split at h
  · rename_i records t ha
    obtain ⟨fl, hr, hf⟩ := Session.yields_of_ask ha
    have hb : ∀ fl ∈ (Pool.begin (.ancestorsOfFile path) ⟨s, slots, []⟩).flights, fl.Provided :=
      Pool.provided_begin files _ (by simp)
    have hp : ∀ other ∈ (⟨t, slots, [fl]⟩ : Pool).flights, other.Provided :=
      hr.keeps (P := fun p => ∀ fl ∈ p.flights, fl.Provided) Pool.provided_turn? hb
    obtain ⟨_, _, he, hc⟩ := Session.exists_flight_of_reaches hr
    cases he
    exact (hp fl (List.mem_singleton.2 rfl)).answer hc hf r h
  · cases h

theorem Server.find_consistent {env : Surroundings} {path : String} {s : Server} {r : Reply}
    (h : (s.find env path).1 = .ok r) : r.Consistent := by
  unfold find at h
  split at h
  · cases h
  · split at h
    · cases h
    · split at h
      · cases h
      · rw [Prod.map_fst] at h
        rw [← Except.ok.inj h, reply_eq]
        exact Reply.consistent_ofRecords _ fun _ => Session.provides_ne_nil_of_mem_ancestorsOfFile

/-- The section of a record holds the bullets of all its entries, and says that there are no values
only where there are no calls. So every reply shows what it lists, whatever the server has kept,
and also when other calls, events and changes of files came in between. -/
theorem hover_agrees_with_entries :
    (∀ e : Entry, Hover.bullet e = if e = ⟨"(Non-valid provide syntax found)", ""⟩
      then "- *(Non-valid provide syntax found)*" else "- **" ++ e.key ++ "**: " ++ e.value) ∧
    (∀ r : Record, r.provides ≠ [] → Hover.sectionText r = Hover.framed r.name r.source
      ("\n\n".intercalate ((allEntries r.provides).map Hover.bullet))) ∧
    (∀ r : Record, Hover.sectionText r = Hover.framed r.name r.source "(no values)" ↔
      r.provides = []) ∧
    (∀ (s : Server) (env : Surroundings) (path : String) (r : Reply),
      (s.find env path).1 = .ok r → r.Consistent) ∧
    ∀ (s : Session) (slots : Nat) (files : Files) (acts : List Act),
      ∀ fl ∈ (World.run ⟨files, ⟨s, slots, []⟩⟩ acts).pool.flights, ∀ path records,
        fl.call = .ancestorsOfFile path → fl.answer? = some (.records records) →
          (Reply.ofRecords path records).Consistent := by
  refine ⟨Hover.bullet_eq, ?_, Hover.sectionText_eq_noValues_iff, ?_, ?_⟩
  · intro r hr
    rw [Hover.sectionText_eq, if_neg hr, Hover.bullets]
  · intro s env path r hr
    exact Server.find_consistent hr
  · intro s slots files acts fl hfl path records hc ha
    have hp : fl.Provided := World.provided_run (by simp) acts fl hfl
    exact Reply.consistent_ofRecords path (hp.answer hc ha)

/-- One file above `B` is kept, with a call that can be read and one that cannot. -/
def keptAbove : Session where
  strict := false
  extension := ".vue"
  candidates := []
  contents := { Contents.empty with
    calls := ⟨[("/A.vue", ["provide(x, 1)", "provide(y)"])]⟩ }
  importers := { Importers.empty with lists := ⟨[("B", ["/A.vue"]), ("A", [])]⟩ }

def recordAbove : Record :=
  ⟨"A.vue", "/A.vue", ["provide(x, 1)", "provide(y)"]⟩

def keptServer : Server where
  project := ⟨⟨.root, []⟩, "*.vue", ⟨⟨.root, []⟩, [], []⟩, 64, keptAbove⟩
  watcher? := none
  started := true

def bareGround : Surroundings where
  tree := ⟨[]⟩
  here := ⟨.root, []⟩
  home := ⟨.root, []⟩

theorem ancestors_keptAbove :
    (Schedule.ancestorsOfFile (bareGround.tree.files bareGround.here) 64 "/B.vue" keptAbove).1 =
      [recordAbove] := by
  decide +kernel

theorem find_keptServer :
    (keptServer.find bareGround "/B.vue").1 = .ok (.ofRecords "/B.vue" [recordAbove]) := by
  have hf : Server.fault? "/B.vue" = none := by decide +kernel
  have hs : keptServer.ensureStarted bareGround = (.ok [], keptServer) := rfl
  have hl : Server.locate bareGround "/B.vue" = .ok ⟨.root, ["B.vue"]⟩ := rfl
  have hp : Path.toString ⟨.root, ["B.vue"]⟩ = "/B.vue" := by decide +kernel
  simp only [Server.find, hf, hs, hl, Prod.map_fst, Server.reply_eq, hp]
  exact congrArg (fun records => Except.ok (Reply.ofRecords "/B.vue" records)) ancestors_keptAbove

theorem entries_recordAbove :
    allEntries recordAbove.provides = [⟨"x", "1"⟩, .unreadable] := by
  have hx : calledArgument.read "provide(x, 1)".toList = some ("x, 1".toList, []) := by
    decide +kernel
  have hy : calledArgument.read "provide(y)".toList = some ("y".toList, []) := by decide +kernel
  have h₁ : provideEntries "provide(x, 1)" = [⟨"x", "1"⟩] := by
    rw [provideEntries, arguments, if_pos (by decide +kernel), calledArgument.all_of_read hx,
      calledArgument.all_nil]
    decide +kernel
  have h₂ : provideEntries "provide(y)" = [.unreadable] := by
    rw [provideEntries, arguments, if_pos (by decide +kernel), calledArgument.all_of_read hy,
      calledArgument.all_nil]
    decide +kernel
  simp only [recordAbove, allEntries, List.flatMap_cons, List.flatMap_nil, h₁, h₂, List.append_nil,
    List.singleton_append]

theorem hover_agrees_with_entries_kept :
    let r := Reply.ofRecords "/B.vue" [recordAbove]
    let w := World.run ⟨fun _ => none, ⟨keptAbove, 1, []⟩⟩
      [.begin (.ancestorsOfFile "/B.vue"), .turn .start ⟨0, 1, none⟩]
    recordAbove.provides ≠ [] ∧
      Hover.sectionText recordAbove = Hover.framed "A.vue" "/A.vue"
        ("\n\n".intercalate ([⟨"x", "1"⟩, Entry.unreadable].map Hover.bullet)) ∧
      (keptServer.find bareGround "/B.vue").1 = .ok r ∧ r.Consistent ∧
      ∃ fl ∈ w.pool.flights, ∃ records, fl.call = .ancestorsOfFile "/B.vue" ∧
        fl.answer? = some (.records records) ∧ (Reply.ofRecords "/B.vue" records).Consistent := by
  intro r w
  have hp : recordAbove.provides ≠ [] := List.cons_ne_nil _ _
  have hfl : ∃ fl ∈ w.pool.flights, fl.call = .ancestorsOfFile "/B.vue" ∧
      fl.answer? = some (.records [recordAbove]) := ⟨_, .head _, rfl, rfl⟩
  obtain ⟨-, hsection, -, hfind, hflight⟩ := hover_agrees_with_entries
  have hs := hsection recordAbove hp
  rw [entries_recordAbove] at hs
  have hf := find_keptServer
  obtain ⟨fl, hm, hc, ha⟩ := hfl
  exact ⟨hp, hs, hf, hfind keptServer bareGround "/B.vue" r hf, fl, hm, [recordAbove], hc, ha,
    hflight keptAbove 1 _ _ fl hm "/B.vue" _ hc ha⟩

end Ancestry
