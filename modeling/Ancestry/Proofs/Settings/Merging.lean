import Ancestry.Proofs.Yaml.EntryValues
import Ancestry.Proofs.Yaml.Keys
import Ancestry.Settings
import Mathlib.Algebra.Group.Int.Defs

/-!
Settings from a document. Each entry is looked at on its own: if it names a setting and has a value
that the setting accepts, it replaces this setting, and else it leads to a warning. No key of a
document comes twice, so what becomes of a setting depends on its own entry only.
-/

namespace Ancestry.Settings
open Ancestry.Yaml

section
variable {s next : Settings} {key : Key} {value : Value}

def isText : Value → Bool
  | .text _ => true
  | _ => false

/-- What a setting accepts: a value of its type and of the right form. A truth value is no
number. -/
def Key.accepts : Key → Value → Bool
  | .componentGlob, .text t => !Text.isBlank t.toList
  | .excludePatterns, .list items => items.all isText
  | .componentExtension, .text t => isExtension t
  | .ignorePatterns, .list items => items.all isText
  | .maxReads, .int n => 0 < n
  | .strict, .bool _ => true
  | .watches, .bool _ => true
  | _, _ => false

theorem isSome_texts? (items : List Value) : (texts? items).isSome = items.all isText := by
  induction items with
  | nil => rfl
  | cons v items ih =>
    cases v with
    | text t => simpa [texts?, isText] using ih
    | _ => rfl

theorem map_texts? {items : List Value} {texts : List String} (h : texts? items = some texts) :
    texts.map .text = items := by
  induction items generalizing texts with
  | nil =>
    cases h
    rfl
  | cons v items ih =>
    cases v with
    | text t =>
      obtain ⟨rest, hr, rfl⟩ := Option.map_eq_some_iff.1 h
      rw [List.map_cons, ih hr]
    | _ => cases h

/-- Whether a value is accepted does not depend on the settings so far. -/
theorem isSome_put? (s : Settings) (key : Key) (value : Value) :
    (s.put? key value).isSome = key.accepts value := by
  cases key <;> cases value <;>
    simp only [put?, Key.accepts, Option.isSome_none, Option.isSome_some]
  case componentGlob.text t => cases Text.isBlank t.toList <;> rfl
  case componentExtension.text t => cases isExtension t <;> rfl
  case maxReads.int n => by_cases h : 0 < n <;> simp [h]
  all_goals rw [Option.isSome_map, isSome_texts?]

/-- A setting that is replaced has the new value, and the others have the old ones. -/
theorem get_of_put? (h : s.put? key value = some next) (k : Key) :
    next.get k = if k = key then value else s.get k := by
  cases key <;> cases value
  case componentGlob.text t =>
    obtain ⟨-, rfl⟩ : _ ∧ _ := by simpa [put?] using h
    cases k <;> rfl
  case excludePatterns.list items =>
    obtain ⟨texts, ht, rfl⟩ := Option.map_eq_some_iff.1 h
    cases k <;> simp [get, map_texts? ht]
  case componentExtension.text t =>
    obtain ⟨-, rfl⟩ : _ ∧ _ := by simpa [put?] using h
    cases k <;> rfl
  case ignorePatterns.list items =>
    obtain ⟨texts, ht, rfl⟩ := Option.map_eq_some_iff.1 h
    cases k <;> simp [get, map_texts? ht]
  case maxReads.int n =>
    obtain ⟨hn, rfl⟩ : 0 < n ∧ _ := by simpa [put?] using h
    cases k <;> simp [get, Int.toNat_of_nonneg (Int.le_of_lt hn)]
  case strict.bool b =>
    cases h
    cases k <;> rfl
  case watches.bool b =>
    cases h
    cases k <;> rfl
  all_goals cases h

theorem Key.ofValue?_eq_some_iff : Key.ofValue? value = some key ↔ value = .text key.name := by
  constructor
  · intro h
    cases value with
    | text word =>
      have hw := List.find?_some h
      rw [of_decide_eq_true hw]
    | _ => cases h
  · rintro rfl
    cases key <;> decide

/-- The warning that an entry leads to, if it leads to one. -/
def complaint? (entry : Value × Value) : Option Warning :=
  match Key.ofValue? entry.1 with
  | none => some (.unknownKey entry.1)
  | some key => if key.accepts entry.2 then none else some (.badValue key entry.2)

theorem mergeEntry_snd (s : Settings) (entry : Value × Value) :
    (s.mergeEntry entry).2 = (complaint? entry).toList := by
  rw [mergeEntry, complaint?]
  cases Key.ofValue? entry.1 with
  | none => rfl
  | some key =>
    have hp := isSome_put? s key entry.2
    cases h : s.put? key entry.2 with
    | none => simp [h, ← hp]
    | some next => simp [h, ← hp]

/-- An entry replaces the setting that it names if this accepts its value, and no other. -/
theorem get_mergeEntry (s : Settings) (entry : Value × Value) (k : Key) :
    (s.mergeEntry entry).1.get k =
      if Key.ofValue? entry.1 = some k ∧ k.accepts entry.2 then entry.2 else s.get k := by
  rw [mergeEntry]
  cases Key.ofValue? entry.1 with
  | none => simp
  | some key =>
    have hp := isSome_put? s key entry.2
    cases h : s.put? key entry.2 with
    | none =>
      have hk : ¬(key = k ∧ k.accepts entry.2) := by
        rintro ⟨rfl, ha⟩
        simp [h, ha] at hp
      simp [h, hk]
    | some next =>
      have ha : key.accepts entry.2 := by simpa [h] using hp.symm
      simp only [h, get_of_put? h]
      by_cases hk : k = key
      · simp [hk, ha]
      · simp [hk, Ne.symm hk]

end

section
variable {s : Settings} {key : Key} {value : Value} {pairs : List (Value × Value)}

/-- One warning for each entry that is not taken over, in order. -/
theorem merge_snd (s : Settings) (pairs : List (Value × Value)) :
    (s.merge pairs).2 = pairs.filterMap complaint? := by
  induction pairs generalizing s with
  | nil => rfl
  | cons entry pairs ih =>
    rw [merge]
    simp only [mergeEntry_snd, ih, List.filterMap_cons]
    cases complaint? entry <;> rfl

/-- A setting to which nothing is given that it accepts stays as it is. -/
theorem get_merge_of_none (h : ∀ v, (.text key.name, v) ∈ pairs → key.accepts v = false) :
    (s.merge pairs).1.get key = s.get key := by
  induction pairs generalizing s with
  | nil => rfl
  | cons entry pairs ih =>
    have he : ¬(Key.ofValue? entry.1 = some key ∧ key.accepts entry.2) := by
      rintro ⟨hk, ha⟩
      rw [Key.ofValue?_eq_some_iff] at hk
      simp [h entry.2 (by simp [← hk])] at ha
    rw [merge]
    simp only [ih fun v hv => h v (List.mem_cons_of_mem entry hv), get_mergeEntry, if_neg he]

/-- A setting to which something is given that it accepts has this value. -/
theorem get_merge_of_mem (hd : DistinctKeys pairs) (h : (.text key.name, value) ∈ pairs)
    (ha : key.accepts value) : (s.merge pairs).1.get key = value := by
  induction pairs generalizing s with
  | nil => cases h
  | cons entry pairs ih =>
    rw [merge]
    rcases List.mem_cons.1 h with rfl | hm
    · have hnone : ∀ v, (.text key.name, v) ∈ pairs → key.accepts v = false := fun v hv =>
        absurd hv hd.not_mem
      simp [get_merge_of_none hnone, get_mergeEntry, Key.ofValue?_eq_some_iff, ha]
    · exact ih (List.pairwise_cons.1 hd).2 hm

end

/-- The warnings that a document leads to. -/
def warningsOf : Value → List Warning
  | .null => [.empty]
  | .mapping pairs => pairs.filterMap complaint?
  | value => [.noMapping value]

/-- A document that is a mapping and has the value under the name of the setting. -/
def Gives (document : Value) (key : Key) (value : Value) : Prop :=
  ∃ pairs, document = .mapping pairs ∧ (.text key.name, value) ∈ pairs

/-- Every default passes its own check. -/
theorem accepts_default (key : Key) : key.accepts (default.get key) := by
  cases key <;> decide

theorem ofValue_snd (document : Value) : (ofValue document).2 = warningsOf document := by
  cases document with
  | mapping pairs => exact merge_snd default pairs
  | _ => rfl

section
variable {document value : Value} {key : Key}

theorem get_ofValue_of_none (h : ∀ v, Gives document key v → key.accepts v = false) :
    (ofValue document).1.get key = default.get key := by
  cases document with
  | mapping pairs => exact get_merge_of_none fun v hv => h v ⟨pairs, rfl, hv⟩
  | _ => rfl

theorem get_ofValue_of_gives (hd : ∀ pairs, document = .mapping pairs → DistinctKeys pairs)
    (h : Gives document key value) (ha : key.accepts value) :
    (ofValue document).1.get key = value := by
  obtain ⟨pairs, rfl, hm⟩ := h
  exact get_merge_of_mem (hd pairs rfl) hm ha

/-- Whatever a document is, each setting ends with a value that it accepts. -/
theorem accepts_ofValue (hd : ∀ pairs, document = .mapping pairs → DistinctKeys pairs) (key : Key) :
    key.accepts ((ofValue document).1.get key) := by
  by_cases h : ∃ v, Gives document key v ∧ key.accepts v
  · obtain ⟨v, hv, ha⟩ := h
    rw [get_ofValue_of_gives hd hv ha]
    exact ha
  · rw [get_ofValue_of_none fun v hv => by simpa using fun ha => h ⟨v, hv, ha⟩]
    exact accepts_default key

end

/-- Warnings are logged up to the first one that cannot be written. -/
theorem logWarnings_eq (levels : Nat) (warnings : List Warning) : logWarnings levels warnings =
    ((warnings.takeWhile (·.fault? levels = none)).map fun w => ⟨logger, .warning, w.message⟩,
      match warnings.findSome? (·.fault? levels) with
      | some fault => .error (.badValue fault)
      | none => .ok ()) := by
  induction warnings with
  | nil => rfl
  | cons w rest ih =>
    rw [logWarnings]
    cases h : w.fault? levels with
    | some fault => simp [h]
    | none => simp [h, ih]

section
variable {read : List UInt8 → Except Yaml.Error Value} {tree : Disk.Tree} {here file : Path}
  {place : List String} {bytes : List UInt8} {document : Value}

theorem load_of_read (levels : Nat) (found : tree.find? here file = .ok (some place))
    (opened : tree.bytes place = .ok bytes) (given : read bytes = .ok document) :
    load read levels tree here file =
      (((warningsOf document).takeWhile (·.fault? levels = none)).map
          fun w => ⟨logger, .warning, w.message⟩,
        match (warningsOf document).findSome? (·.fault? levels) with
        | some fault => .error (.badValue fault)
        | none => .ok (ofValue document).1) := by
  have hr : ofReading file (read bytes) = .ok (ofValue document) := by
    rw [given]
    rfl
  simp only [load, found, opened, ofDocument, hr, ofValue_snd, logWarnings_eq]
  split <;> rfl

/-- Settings of a file that holds a document, however documents are read, as long as no key of a
mapping comes twice: each one has the value that the document gives to it if it accepts this value,
and else its default, whatever else the document holds. The log has one warning for each entry that
names no setting and for each value that is not accepted, in order. But a warning cannot be written
if it shows a number with too many digits or a value that is nested too deep for the stack, and then
there are no settings. -/
theorem load_merges (levels : Nat)
    (distinct : ∀ bytes pairs, read bytes = .ok (.mapping pairs) → DistinctKeys pairs)
    (found : tree.find? here file = .ok (some place)) (opened : tree.bytes place = .ok bytes)
    (given : read bytes = .ok document) :
    ∃ settings : Settings,
      (∀ key : Key, key.accepts (settings.get key)) ∧
      (∀ key value, Gives document key value → key.accepts value → settings.get key = value) ∧
      (∀ key : Key, (∀ value, Gives document key value → key.accepts value = false) →
        settings.get key = default.get key) ∧
      load read levels tree here file =
        (((warningsOf document).takeWhile (·.fault? levels = none)).map
            fun w => ⟨logger, .warning, w.message⟩,
          match (warningsOf document).findSome? (·.fault? levels) with
          | some fault => .error (.badValue fault)
          | none => .ok settings) := by
  have hd : ∀ pairs, document = .mapping pairs → DistinctKeys pairs := by
    rintro pairs rfl
    exact distinct bytes pairs given
  exact ⟨(ofValue document).1, accepts_ofValue hd, fun key value => get_ofValue_of_gives hd,
    fun key => get_ofValue_of_none, load_of_read levels found opened given⟩

end

/-- A document with a value of the wrong type, one that is accepted and an unknown key. -/
def mixedBytes : List UInt8 :=
  asciiBytes "component_glob: 1\nmax_concurrent_reads: 8\nx: 1\n".toList

/-- A project with a settings file. -/
def treeOf (bytes : List UInt8) : Disk.Tree :=
  ⟨[(["p", fileName], .file bytes)]⟩

theorem find?_treeOf (bytes : List UInt8) :
    (treeOf bytes).find? ⟨.root, []⟩ ⟨.root, ["p", fileName]⟩ = .ok (some ["p", fileName]) :=
  rfl

theorem bytes_treeOf (bytes : List UInt8) : (treeOf bytes).bytes ["p", fileName] = .ok bytes :=
  rfl

theorem load_merges_mixed :
    let file : Path := ⟨.root, ["p", fileName]⟩
    ∃ document settings,
      (treeOf mixedBytes).find? ⟨.root, []⟩ file = .ok (some ["p", fileName]) ∧
      (treeOf mixedBytes).bytes ["p", fileName] = .ok mixedBytes ∧
      Value.ofBytes mixedBytes = .ok document ∧
      (∀ key : Key, key.accepts (settings.get key)) ∧
      load Value.ofBytes 980 (treeOf mixedBytes) ⟨.root, []⟩ file =
        ([⟨logger, .warning, "Invalid value for 'component_glob': 1, using default **/*.vue"⟩,
          ⟨logger, .warning, "Unknown configuration parameter 'x', ignoring"⟩], .ok settings) ∧
      settings = { maxReads := 8 } := by
  intro file
  have hf := find?_treeOf mixedBytes
  have hb := bytes_treeOf mixedBytes
  have hok : (Value.ofBytes mixedBytes).toBool = true := by decide +kernel
  obtain ⟨hlog, hset⟩ : (load Value.ofBytes 980 (treeOf mixedBytes) ⟨.root, []⟩ file).1 =
      [⟨logger, .warning, "Invalid value for 'component_glob': 1, using default **/*.vue"⟩,
        ⟨logger, .warning, "Unknown configuration parameter 'x', ignoring"⟩] ∧
      (load Value.ofBytes 980 (treeOf mixedBytes) ⟨.root, []⟩ file).2.toOption =
        some { maxReads := 8 } := by
    decide +kernel
  cases hr : Value.ofBytes mixedBytes with
  | error e =>
    rw [hr] at hok
    cases hok
  | ok document =>
    obtain ⟨settings, hvalid, -, -, hload⟩ :=
      load_merges 980 Value.distinctKeys_ofBytes hf hb hr
    rw [hload] at hlog hset
    cases hfault : (warningsOf document).findSome? (·.fault? 980) with
    | some fault =>
      rw [hfault] at hset
      cases hset
    | none =>
      rw [hfault] at hload hset
      exact ⟨document, settings, hf, hb, rfl, hvalid, hload.trans (Prod.ext hlog rfl),
        Option.some.inj hset⟩

/-- A file with a number of 3600 hexadecimal digits where patterns should stand, and with a number of
reads. -/
def longBytes : List UInt8 :=
  asciiBytes (entryLine "exclude_patterns".toList ('0' :: 'x' :: List.replicate 3600 'f') ++
    entryLine "max_concurrent_reads".toList ['8'])

/-- The number is not accepted, but the warning of it cannot be written either. So there are no
settings, although the file gives a number of reads that is accepted. -/
theorem long_number_not_replaced :
    let document : Value := .mapping [(.text "exclude_patterns", .int (16 ^ 3600 - 1)),
      (.text "max_concurrent_reads", .int 8)]
    Value.ofBytes longBytes = .ok document ∧
      warningsOf document = [.badValue .excludePatterns (.int (16 ^ 3600 - 1))] ∧
      Gives document .maxReads (.int 8) ∧ Key.maxReads.accepts (.int 8) ∧
      load Value.ofBytes 980 (treeOf longBytes) ⟨.root, []⟩ ⟨.root, ["p", fileName]⟩ =
        ([], .error (.badValue .tooLongToWrite)) := by
  intro document
  have hpatterns : PlainEntry "exclude_patterns".toList ('0' :: 'x' :: List.replicate 3600 'f') .int
      (.int (16 ^ 3600 - 1)) :=
    .replicate 3599 ⟨by decide, List.all_eq_true.1 (by decide)⟩ (by decide) (by decide +kernel)
  have hreads : PlainEntry "max_concurrent_reads".toList ['8'] .int (.int 8) :=
    ⟨⟨by decide, List.all_eq_true.1 (by decide)⟩, by decide, ⟨by decide, List.all_eq_true.1 (by decide)⟩,
      by decide +kernel, by decide +kernel, fun _ _ => rfl⟩
  have hr : Value.ofBytes longBytes = .ok document := by
    have h := Value.ofBytes_two hpatterns hreads (by decide)
      (by rw [List.length_append, length_entryLine, length_entryLine, List.length_cons,
        List.length_cons, List.length_replicate]; decide)
    simp only [String.ofList_toList] at h
    exact h
  have hw : warningsOf document = [.badValue .excludePatterns (.int (16 ^ 3600 - 1))] := rfl
  have hlong : Number.tooLongToWrite (16 ^ 3600 - 1) = true := by decide +kernel
  have hfault : (Warning.badValue .excludePatterns (.int (16 ^ 3600 - 1))).fault? 980 =
      some .tooLongToWrite := by
    rw [Warning.fault?, Value.messageFault?, Value.showFault?, if_pos hlong]
    exact nofun
  refine ⟨hr, hw, ⟨_, rfl, List.mem_cons_of_mem _ List.mem_cons_self⟩, rfl, ?_⟩
  rw [load_of_read 980 (find?_treeOf longBytes) (bytes_treeOf longBytes) hr, hw]
  simp only [List.takeWhile_cons, List.findSome?_cons, hfault]
  rfl

end Ancestry.Settings
