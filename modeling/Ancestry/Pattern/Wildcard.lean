import Ancestry.Pattern.CharSet

/-!
Name patterns: an asterisk stands for any text, a question mark for any character, square brackets
for a character of a set, and every other character for itself. Slashes are ordinary characters.

Matching is defined by recursion on the pattern; what runs fills a table, which gives the same
answer.
-/

namespace Ancestry.Pattern

/-- One piece of a name pattern. -/
inductive Piece where
  | anything
  | anyChar
  | char (c : Char)
  | oneOf (set : CharSet)
  deriving DecidableEq, Repr

/-- The character `c` at the start of a text, if it stands there, and what follows it. -/
def optionalChar (c : Char) : List Char → List Char × List Char
  | [] => ([], [])
  | d :: s => if d = c then ([c], s) else ([], d :: s)

/-- Divides what follows an opening bracket at the closing one. A bracket in first place, or right
after an exclamation mark, does not close. -/
def setInside? (s : List Char) : Option (List Char × List Char) :=
  let (mark, s) := optionalChar '!' s
  let (bracket, s) := optionalChar ']' s
  match s.dropWhile (· ≠ ']') with
  | [] => none
  | _ :: rest => some (mark ++ bracket ++ s.takeWhile (· ≠ ']'), rest)

theorem length_optionalChar (c : Char) (s : List Char) :
    (optionalChar c s).1.length + (optionalChar c s).2.length = s.length := by
  cases s with
  | nil => rfl
  | cons d s =>
    rw [optionalChar]
    split <;> simp +arith

theorem length_setInside? {s inside rest : List Char} (h : setInside? s = some (inside, rest)) :
    rest.length < s.length := by
  have h₁ := length_optionalChar '!' s
  have h₂ := length_optionalChar ']' (optionalChar '!' s).2
  have h₃ := (List.dropWhile_sublist
    (l := (optionalChar ']' (optionalChar '!' s).2).2) (· ≠ ']')).length_le
  unfold setInside? at h
  simp only at h
  split at h
  · simp at h
  · rename_i hv
    simp only [Option.some.injEq, Prod.mk.injEq] at h
    simp only [hv, List.length_cons] at h₃
    rw [← h.2]
    omega

/-- Reads a name pattern. Asterisks in a row count as one; a bracket that nothing closes is a
character. -/
def pieces (s : List Char) : List Piece :=
  match s with
  | [] => []
  | '*' :: t =>
    match pieces t with
    | .anything :: rest => .anything :: rest
    | rest => .anything :: rest
  | '?' :: t => .anyChar :: pieces t
  | '[' :: t =>
    match _h : setInside? t with
    | some (inside, rest) => .oneOf (.ofInside inside) :: pieces rest
    | none => .char '[' :: pieces t
  | c :: t => .char c :: pieces t
termination_by s.length
decreasing_by
  · exact Nat.lt_succ_self _
  · exact Nat.lt_succ_self _
  · exact Nat.lt_succ_of_lt (length_setInside? _h)
  · exact Nat.lt_succ_self _
  · exact Nat.lt_succ_self _

/-- Whether a piece for one character accepts it. -/
def Piece.accepts (c : Char) : Piece → Bool
  | anything | anyChar => true
  | char d => d = c
  | oneOf set => set.contains c

/-- Whether a test holds of a text or of what is left of it after some characters. -/
def anySuffix (test : List Char → Bool) : List Char → Bool
  | [] => test []
  | c :: s => test (c :: s) || anySuffix test s

/-- Whether a piece accepts the first character of a text and a test holds of the others. -/
def firstThen (p : Piece) (test : List Char → Bool) : List Char → Bool
  | [] => false
  | c :: s => p.accepts c && test s

/-- Whether pieces match a whole text. -/
def matchPieces : List Piece → List Char → Bool
  | [] => List.isEmpty
  | .anything :: rest => anySuffix (matchPieces rest)
  | p :: rest => firstThen p (matchPieces rest)

/-! ### Matching by a table

The same answer in a number of steps that is the product of both lengths: for the last pieces of a
pattern it is noted of every suffix of the text whether they match it. -/

/-- A text and what is left of it after each of its characters. -/
def suffixes : List Char → List (List Char)
  | [] => [[]]
  | c :: s => (c :: s) :: suffixes s

/-- Whether there is a true entry at a place or behind it. -/
def trueFrom : List Bool → List Bool
  | [] => []
  | b :: rest =>
    let behind := trueFrom rest
    (b || behind.headD false) :: behind

/-- The entries one place further on, where the piece accepts the character between. -/
def advance (p : Piece) : List Char → List Bool → List Bool
  | [], _ => [false]
  | c :: s, entries => (p.accepts c && entries.tail.headD false) :: advance p s entries.tail

/-- Of every suffix of a text, whether pieces match it. -/
def table : List Piece → List Char → List Bool
  | [], s => (suffixes s).map List.isEmpty
  | .anything :: rest, s => trueFrom (table rest s)
  | p :: rest, s => advance p s (table rest s)

/-- Whether pieces match a whole text, read off the table. -/
def matchesText (pattern : List Piece) (s : List Char) : Bool :=
  (table pattern s).headD false

theorem headD_map_suffixes (test : List Char → Bool) (s : List Char) :
    ((suffixes s).map test).headD false = test s := by
  cases s <;> rfl

theorem trueFrom_map (test : List Char → Bool) (s : List Char) :
    trueFrom ((suffixes s).map test) = (suffixes s).map (anySuffix test) := by
  induction s with
  | nil => simp [suffixes, trueFrom, anySuffix]
  | cons c s ih =>
    simp only [suffixes, List.map_cons, trueFrom, ih, headD_map_suffixes, anySuffix]

theorem advance_map (p : Piece) (test : List Char → Bool) (s : List Char) :
    advance p s ((suffixes s).map test) = (suffixes s).map (firstThen p test) := by
  induction s with
  | nil => rfl
  | cons c s ih =>
    simp only [suffixes, List.map_cons, advance, List.tail_cons, ih, headD_map_suffixes, firstThen]

theorem table_eq (pattern : List Piece) (s : List Char) :
    table pattern s = (suffixes s).map (matchPieces pattern) := by
  induction pattern with
  | nil => rfl
  | cons p rest ih => cases p <;> simp only [table, matchPieces, ih, trueFrom_map, advance_map]

theorem matchesText_eq (pattern : List Piece) (s : List Char) :
    matchesText pattern s = matchPieces pattern s := by
  rw [matchesText, table_eq, headD_map_suffixes]

/-- Whether a name pattern matches a text. -/
def nameMatches (pattern text : String) : Bool :=
  matchesText (pieces pattern.toList) text.toList

theorem nameMatches_eq (pattern text : String) :
    nameMatches pattern text = matchPieces (pieces pattern.toList) text.toList :=
  matchesText_eq _ _

end Ancestry.Pattern
