import Ancestry.Yaml.Stream

/-!
Tokens of plain entries: lines with a word, a colon, a blank and another word each. The reader stands
at the start of a line, comes from there to the colon and behind it, and from there to the start of
the next line.
-/

namespace Ancestry.Yaml

/-- Characters of words that stand for themselves wherever they are met. -/
def isWordMark (c : Char) : Bool :=
  ('a' ≤ c && c ≤ 'z') || ('A' ≤ c && c ≤ 'Z') || ('0' ≤ c && c ≤ '9') || c = '_'

/-- Words that are plain scalars. -/
structure PlainWord (w : List Char) : Prop where
  ne_nil : w ≠ []
  marks : ∀ c ∈ w, isWordMark c

section
variable {c d : Char} {w rest : List Char} {m : Mark}

theorem ne_of_isWordMark (h : isWordMark c) (hd : isWordMark d = false) : c ≠ d := by
  rintro rfl
  simp [hd] at h

theorem isBreak_of_isWordMark (h : isWordMark c) : isBreak c = false := by
  have hn (d : Char) (hd : isWordMark d = false) : c ≠ d := ne_of_isWordMark h hd
  simp [isBreak, hn '\n' (by decide), hn '\x85' (by decide), hn '\u2028' (by decide),
    hn '\u2029' (by decide)]

theorem atBlank_of_isWordMark (h : isWordMark c) : atBlank (some c) = false := by
  have hn (d : Char) (hd : isWordMark d = false) : c ≠ d := ne_of_isWordMark h hd
  simp [atBlank, isBreak_of_isWordMark h, hn ' ' (by decide), hn '\t' (by decide)]

theorem plainStops_of_isWordMark (h : isWordMark c) (next : Option Char) :
    plainStops false c next = false := by
  simp [plainStops, atBlank_of_isWordMark h, ne_of_isWordMark h (d := ':') (by decide)]

theorem plainRun_word (hw : ∀ c ∈ w, isWordMark c) (hs : plainStops false d rest.head?) :
    plainRun false (w ++ d :: rest) = w := by
  induction w with
  | nil => simp [plainRun, hs]
  | cons c w ih =>
    obtain ⟨hc, hw⟩ := List.forall_mem_cons.1 hw
    simp [plainRun, plainStops_of_isWordMark hc, ih hw]

/-- The place behind so many characters of a line. -/
def Mark.along (n : Nat) (m : Mark) : Mark :=
  { m with index := m.index + n, column := m.column + n }

theorem Cursor.skip_word (hw : ∀ c ∈ w, isWordMark c) :
    Cursor.skip w.length ⟨w ++ rest, m⟩ = ⟨rest, m.along w.length⟩ := by
  induction w generalizing m with
  | nil => rfl
  | cons c w ih =>
    obtain ⟨hc, hw⟩ := List.forall_mem_cons.1 hw
    have hn : c ≠ '\ufeff' := ne_of_isWordMark hc (by decide)
    have hm : m.step c = m.along 1 := by
      simp [Mark.step, isBreak_of_isWordMark hc, hn, Mark.along]
    rw [List.length_cons, Cursor.skip, Cursor.next, List.cons_append]
    simp only [hm, ih hw, Mark.along, Nat.add_assoc, Nat.add_comm 1]

end

/-! ### Scalars -/

section
variable {c : Char} {w rest : List Char} {m : Mark}

theorem PlainWord.exists_cons (hw : PlainWord w) : ∃ c w', w = c :: w' ∧ isWordMark c := by
  obtain ⟨c, w', rfl⟩ := List.exists_cons_of_ne_nil hw.ne_nil
  exact ⟨c, w', rfl, hw.marks c List.mem_cons_self⟩

theorem PlainWord.head? (hw : PlainWord w) (rest : List Char) :
    ∃ c, (w ++ rest).head? = some c ∧ isWordMark c := by
  obtain ⟨c, w', rfl, hc⟩ := hw.exists_cons
  exact ⟨c, rfl, hc⟩

/-- A scalar that is one word: behind it there is no gap, or a gap to a line that is not indented. -/
theorem plainScalar_word {indent : Int} {stop : Char} {g : PlainGap} (hw : PlainWord w)
    (hs : plainStops false stop rest.head?)
    (hg : plainGap ⟨stop :: rest, m.along w.length⟩ = g)
    (hend : g.text = [] ∨ g.after.mark.column < indent) :
    plainScalar false indent ⟨w ++ stop :: rest, m⟩ =
      ⟨w, m.along w.length, g.newLine, g.after⟩ := by
  have hrun := plainRun_word hw.marks hs
  have hskip : Cursor.skip w.length ⟨w ++ stop :: rest, m⟩ = _ := Cursor.skip_word hw.marks
  obtain ⟨c, w', rfl, hc⟩ := hw.exists_cons
  have hp : c ≠ '#' := ne_of_isWordMark hc (by decide)
  rw [plainScalar, plainRuns, if_neg (by simp [Cursor.peek?, hp])]
  simp only [hrun, hskip, hg]
  rcases hend with h | h
  · simp [h]
  · simp [Int.not_le.2 h]

theorem plainGap_colon : plainGap ⟨':' :: rest, m⟩ = ⟨[], false, false, ⟨':' :: rest, m⟩⟩ := by
  simp [plainGap, Cursor.span, Cursor.skip, Cursor.lineBreak?, Cursor.peek?, isBreak]

/-- A word in front of a colon and a blank. -/
theorem plainScalar_key (indent : Int) (hw : PlainWord w) :
    plainScalar false indent ⟨w ++ ':' :: ' ' :: rest, m⟩ =
      ⟨w, m.along w.length, false, ⟨':' :: ' ' :: rest, m.along w.length⟩⟩ :=
  plainScalar_word hw rfl plainGap_colon (.inl rfl)

/-- What may follow on a line: nothing, or a line that begins with a word. -/
def StartsLine (rest : List Char) : Prop :=
  ∀ c, rest.head? = some c → isWordMark c

/-- The start of the line behind a mark. -/
def Mark.nextLine (m : Mark) : Mark :=
  ⟨m.index + 1, m.line + 1, 0⟩

theorem PlainWord.startsLine (hw : PlainWord w) (rest : List Char) : StartsLine (w ++ rest) := by
  intro d hd
  obtain ⟨c, hp, hc⟩ := hw.head? rest
  cases hp.symm.trans hd
  exact hc

namespace StartsLine

theorem skipSpaces (hr : StartsLine rest) (m : Mark) :
    Cursor.skipSpaces ⟨rest, m⟩ = ⟨rest, m⟩ := by
  cases rest with
  | nil => rfl
  | cons c rest =>
    have hc : c ≠ ' ' := ne_of_isWordMark (hr c rfl) (by decide)
    simp [Cursor.skipSpaces, Cursor.span, hc, Cursor.skip]

theorem skipSpaces_blank (hr : StartsLine rest) (m : Mark) :
    Cursor.skipSpaces ⟨' ' :: rest, m⟩ = ⟨rest, m.along 1⟩ := by
  have ht : rest.takeWhile (· = ' ') = [] := by
    cases rest with
    | nil => rfl
    | cons c rest =>
      have hc : c ≠ ' ' := ne_of_isWordMark (hr c rfl) (by decide)
      simp [hc]
  simp [Cursor.skipSpaces, Cursor.span, ht, Cursor.skip, Cursor.next, Mark.step, isBreak, Mark.along]

theorem peek?_ne (hr : StartsLine rest) (m : Mark) : Cursor.peek? ⟨rest, m⟩ ≠ some '#' :=
  fun h => ne_of_isWordMark (hr '#' h) (by decide) rfl

theorem lineBreak? (hr : StartsLine rest) (m : Mark) : Cursor.lineBreak? ⟨rest, m⟩ = none := by
  cases rest with
  | nil => rfl
  | cons c rest =>
    have hb := isBreak_of_isWordMark (hr c rfl)
    have hn (d : Char) (hd : isWordMark d = false) : c ≠ d := ne_of_isWordMark (hr c rfl) hd
    simp [Cursor.lineBreak?, Cursor.peek?, hb, hn '\n' (by decide), hn '\x85' (by decide)]

theorem atDivider (hr : StartsLine rest) (m : Mark) : Yaml.atDivider ⟨rest, m⟩ = false := by
  cases rest with
  | nil => rfl
  | cons c rest =>
    have hn (d : Char) (hd : isWordMark d = false) : d ≠ c := (ne_of_isWordMark (hr c rfl) hd).symm
    simp [Yaml.atDivider, hn '-' (by decide), hn '.' (by decide)]

end StartsLine

theorem plainGap_lineEnd (hr : StartsLine rest) :
    plainGap ⟨'\n' :: rest, m⟩ = ⟨[' '], true, false, ⟨rest, m.nextLine⟩⟩ := by
  have hb : Cursor.lineBreak? ⟨'\n' :: rest, m⟩ = some ('\n', ⟨rest, m.nextLine⟩) := by
    simp [Cursor.lineBreak?, Cursor.peek?, Cursor.next, Mark.step, isBreak, Mark.nextLine]
  have hd : atDivider ⟨rest, m.nextLine⟩ = false := hr.atDivider m.nextLine
  have ho : plainBreaks (rest.length + 1) ⟨rest, m.nextLine⟩ = ([], false, ⟨rest, m.nextLine⟩) := by
    simp [plainBreaks, hr.skipSpaces, hr.lineBreak?]
  simp [plainGap, Cursor.span, Cursor.skip, hb, hd, ho, folded]

/-- A word at the end of a line. -/
theorem plainScalar_value (hw : PlainWord w) (hr : StartsLine rest) :
    plainScalar false 1 ⟨w ++ '\n' :: rest, m⟩ =
      ⟨w, m.along w.length, true, ⟨rest, (m.along w.length).nextLine⟩⟩ :=
  plainScalar_word hw rfl (plainGap_lineEnd hr) (.inr Int.zero_lt_one)

end

/-! ### Tokens -/

namespace Reader
variable {r : Reader} {c : Char} {w rest : List Char} {m : Mark} {size taken : Nat} {first : Bool}

/-- A token that no key can begin with any more stays as it is. -/
theorem settleFrom_certain (ht : r.tokens ≠ []) (hk : r.keys = []) (fuel : Nat) :
    r.settleFrom fuel = .ok r := by
  cases fuel with
  | zero => rfl
  | succ fuel =>
    cases r
    cases hk
    rw [settleFrom]
    split
    · rfl
    · rfl

/-- A word is read as a plain scalar. -/
theorem token_word (hc : isWordMark c) : r.token c = r.plain := by
  have hn (d : Char) (hd : isWordMark d = false) : c ≠ d := ne_of_isWordMark hc hd
  have hs (next : Option Char) : startsPlain r.inFlow c next = true := by
    simp only [startsPlain, atBlank_of_isWordMark hc, Bool.false_or, Bool.or_eq_true]
    refine .inl ?_
    simp
    repeat' apply And.intro
    all_goals exact hn _ (by decide)
  unfold token
  simp only [hs, hn '%' (by decide), hn '-' (by decide), hn '.' (by decide), hn '[' (by decide),
    hn '\x7b' (by decide), hn ']' (by decide), hn '\x7d' (by decide), hn ',' (by decide),
    hn '?' (by decide), hn ':' (by decide), hn '*' (by decide), hn '&' (by decide),
    hn '!' (by decide), hn '|' (by decide), hn '>' (by decide), hn '\'' (by decide),
    hn '"' (by decide), decide_false, Bool.false_and, Bool.false_eq_true, if_false, if_true]

/-- The reader at the start of a line, the first one or a later one. -/
def atLine (size taken : Nat) (first : Bool) (m : Mark) (rest : List Char) : Reader where
  cursor := ⟨rest, m⟩
  size
  taken
  indent := if first then -1 else 0
  indents := if first then [] else [-1]

theorem skipBlanks_startsLine (hr : StartsLine rest) (hc : r.cursor = ⟨rest, m⟩) (fuel : Nat) :
    r.skipBlanks fuel = r := by
  cases fuel with
  | zero => rfl
  | succ fuel =>
    rw [skipBlanks]
    simp only [hc, hr.skipSpaces, if_neg (hr.peek?_ne m), hr.lineBreak?]
    rw [← hc]

theorem dropStaleKeys_of_nil (hk : r.keys = []) : r.dropStaleKeys = .ok r := by
  cases r
  cases hk
  rfl

/-- Behind blanks, where no block ends and no key becomes stale, a token is read. -/
theorem readOn_token {r' : Reader} (hb : r.skipBlanks (r.size + 1) = r')
    (hk : r'.dropStaleKeys = .ok r') (hu : r'.unwind r'.cursor.mark.column = r')
    (hc : r'.cursor.peek? = some c) : r.readOn = r'.token c := by
  rw [readOn, hb, hk]
  simp only [bind, Except.bind, hu, hc]

/-- The reader in front of the colon of an entry, with the word that may be a key. -/
def atColon (size taken : Nat) (first : Bool) (m : Mark) (w rest : List Char) : Reader :=
  { atLine size taken first (m.along w.length) (':' :: ' ' :: rest) with
    tokens := [⟨.scalar (String.ofList w) true, m, m.along w.length⟩]
    keyAllowed := false
    keys := [(0, ⟨taken, !first, m⟩)] }

theorem readOn_key (hm : m.column = 0) (hw : PlainWord w) :
    (atLine size taken first m (w ++ ':' :: ' ' :: rest)).readOn =
      .ok (atColon size taken first m w rest) := by
  have hu : (atLine size taken first m (w ++ ':' :: ' ' :: rest)).unwind m.column =
      atLine size taken first m (w ++ ':' :: ' ' :: rest) := by
    cases first <;> simp [unwind, unwind.close, atLine, inFlow, hm]
  obtain ⟨c, hp, hc⟩ := hw.head? (':' :: ' ' :: rest)
  rw [readOn_token (skipBlanks_startsLine (hw.startsLine _) rfl _) (dropStaleKeys_of_nil rfl) hu hp,
    token_word hc]
  cases first <;>
    simp [plain, saveKey, removeKey, atLine, atColon, inFlow, hm, bind, Except.bind, push,
      plainScalar_key _ hw]

/-- The tokens of an entry up to its colon. -/
def entryTokens (m : Mark) (w : List Char) : List Token :=
  [⟨.key, m, m⟩, ⟨.scalar (String.ofList w) true, m, m.along w.length⟩,
    ⟨.value, m.along w.length, m.along (w.length + 1)⟩]

/-- The reader behind the colon of an entry. -/
def behindColon (size taken : Nat) (tokens : List Token) (m : Mark) (rest : List Char) : Reader where
  cursor := ⟨rest, m⟩
  size
  taken
  tokens
  indent := 0
  indents := [-1]
  keyAllowed := false

theorem dropStaleKeys_atColon (hl : w.length ≤ 1024) :
    (atColon size taken first m w rest).dropStaleKeys = .ok (atColon size taken first m w rest) := by
  simp [dropStaleKeys, isStale, atColon, atLine, Mark.along, Nat.not_lt.2 hl]

/-- The colon makes the word before it a key, and on the first line it opens a mapping. -/
theorem readOn_colon (hl : w.length ≤ 1024) (hm : m.column = 0) :
    (atColon size taken first m w rest).readOn =
      .ok (behindColon size taken
        ((if first then [⟨.blockMappingStart, m, m⟩] else []) ++ entryTokens m w)
        (m.along (w.length + 1)) (' ' :: rest)) := by
  have hb : (atColon size taken first m w rest).skipBlanks (size + 1) =
      atColon size taken first m w rest := by
    rw [skipBlanks]
    simp [atColon, atLine, Cursor.skipSpaces, Cursor.span, Cursor.skip, Cursor.peek?,
      Cursor.lineBreak?, isBreak]
  have hu : (atColon size taken first m w rest).unwind (m.along w.length).column =
      atColon size taken first m w rest := by
    have hn : ¬ (w.length : Int) < 0 := Int.not_lt.2 (Int.natCast_nonneg _)
    cases first <;> simp [unwind, unwind.close, atColon, atLine, inFlow, hm, Mark.along, hn]
  have ht : (atColon size taken first m w rest).token ':' =
      (atColon size taken first m w rest).valueMark := by
    simp [token, atColon, atLine, Cursor.peekAt?, atBlank]
  have hstep : (m.along w.length).step ':' = m.along (w.length + 1) := by
    simp [Mark.step, isBreak, Mark.along, Nat.add_assoc]
  rw [readOn_token hb (dropStaleKeys_atColon hl) hu rfl, ht]
  cases first <;>
    simp [valueMark, atColon, atLine, behindColon, entryTokens, addIndent, hm, mark, Cursor.skip,
      Cursor.next, push, hstep, inFlow]

/-- The reader behind an entry, with its last word. -/
def behindEntry (size taken : Nat) (m : Mark) (w rest : List Char) : Reader :=
  { atLine size taken false (m.along w.length).nextLine rest with
    tokens := [⟨.scalar (String.ofList w) true, m, m.along w.length⟩] }

theorem readOn_value (hw : PlainWord w) (hr : StartsLine rest) :
    (behindColon size taken [] m (' ' :: w ++ '\n' :: rest)).readOn =
      .ok (behindEntry size taken (m.along 1) w rest) := by
  have hb : (behindColon size taken [] m (' ' :: w ++ '\n' :: rest)).skipBlanks (size + 1) =
      behindColon size taken [] (m.along 1) (w ++ '\n' :: rest) := by
    have hs := hw.startsLine ('\n' :: rest)
    rw [skipBlanks]
    simp [behindColon, hs.skipSpaces_blank, hs.peek?_ne, hs.lineBreak?]
  have hu : (behindColon size taken [] (m.along 1) (w ++ '\n' :: rest)).unwind (m.along 1).column =
      behindColon size taken [] (m.along 1) (w ++ '\n' :: rest) := by
    have hn : ¬ (m.column : Int) + 1 < 0 := by omega
    simp [unwind, unwind.close, behindColon, inFlow, Mark.along, hn]
  obtain ⟨c, hp, hc⟩ := hw.head? ('\n' :: rest)
  rw [readOn_token hb (dropStaleKeys_of_nil rfl) hu hp, token_word hc]
  simp [plain, saveKey, behindColon, behindEntry, atLine, inFlow, bind, Except.bind, push,
    plainScalar_value hw hr]

/-- The reader at the end of the text. -/
def ended (size taken : Nat) (m : Mark) (tokens : List Token) : Reader where
  cursor := ⟨[], m⟩
  size
  taken
  tokens
  keyAllowed := false
  done := true

/-- At the end of the text the mapping ends with it. -/
theorem readOn_end (hm : m.column = 0) :
    (atLine size taken false m []).readOn =
      .ok (ended size taken m [⟨.blockEnd, m, m⟩, ⟨.streamEnd, m, m⟩]) := by
  have hb : (atLine size taken false m []).skipBlanks (size + 1) = atLine size taken false m [] :=
    skipBlanks_startsLine (fun _ h => by cases h) rfl _
  rw [readOn]
  change (((atLine size taken false m []).skipBlanks (size + 1)).dropStaleKeys >>= _) = _
  rw [hb, dropStaleKeys_of_nil rfl]
  simp [bind, Except.bind, unwind, unwind.close, atLine, ended, inFlow, hm, Cursor.peek?,
    leaveBlocks, removeKey, push]

/-! What a reader without a fault settles on. -/

theorem fetch_of_readOn {r' : Reader} (hf : r.fault? = none) (h : r.readOn = .ok r') :
    r.fetch = .ok r' := by
  rw [fetch, hf, h]

theorem settleFrom_of_fetch {r' : Reader} (hd : r.done = false) (ht : r.tokens = [])
    (h : r.fetch = .ok r') (fuel : Nat) : r.settleFrom (fuel + 1) = r'.settleFrom fuel := by
  rw [settleFrom, hd, ht, h]
  rfl

theorem settle_key (hm : m.column = 0) (hw : PlainWord w) (hl : w.length ≤ 1024) :
    (atLine size taken first m (w ++ ':' :: ' ' :: rest)).settle =
      .ok (behindColon size taken
        ((if first then [⟨.blockMappingStart, m, m⟩] else []) ++ entryTokens m w)
        (m.along (w.length + 1)) (' ' :: rest)) := by
  have hp : (atColon size taken first m w rest).keyPending := by
    simp [keyPending, atColon, atLine]
  have hc : (atColon size taken first m w rest).settleFrom (size + 1) =
      (atColon size taken first m w rest).fetch >>= settleFrom size := by
    rw [settleFrom, dropStaleKeys_atColon hl]
    simp only [bind, Except.bind, hp]
    rfl
  rw [settle]
  change settleFrom (size + 2) _ = _
  rw [settleFrom_of_fetch rfl rfl (fetch_of_readOn rfl (readOn_key hm hw)), hc,
    fetch_of_readOn rfl (readOn_colon hl hm)]
  exact settleFrom_certain (by simp [behindColon, entryTokens]) rfl size

theorem settle_value (hw : PlainWord w) (hr : StartsLine rest) :
    (behindColon size taken [] m (' ' :: w ++ '\n' :: rest)).settle =
      .ok (behindEntry size taken (m.along 1) w rest) := by
  rw [settle]
  change settleFrom (size + 2) _ = _
  rw [settleFrom_of_fetch rfl rfl (fetch_of_readOn rfl (readOn_value hw hr))]
  exact settleFrom_certain (by simp [behindEntry]) rfl (size + 1)

theorem settle_end (hm : m.column = 0) :
    (atLine size taken false m []).settle =
      .ok (ended size taken m [⟨.blockEnd, m, m⟩, ⟨.streamEnd, m, m⟩]) := by
  rw [settle]
  change settleFrom (size + 2) _ = _
  rw [settleFrom_of_fetch rfl rfl (fetch_of_readOn rfl (readOn_end hm))]
  exact settleFrom_certain (List.cons_ne_nil _ _) rfl (size + 1)

end Reader

end Ancestry.Yaml
