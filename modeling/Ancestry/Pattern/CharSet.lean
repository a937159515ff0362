/-!
Character sets of name patterns, as they stand between square brackets: single characters, ranges
with a hyphen, and an exclamation mark in front that takes the complement.

A hyphen makes a range where a character stands on both sides, counted from the left. A range whose
ends are in descending order is taken out together with its ends. An exclamation mark counts as the
first character after that.
-/

namespace Ancestry.Pattern

/-- A set of characters, or the complement of one. -/
structure CharSet where
  negated : Bool
  ranges : List (Char × Char)
  deriving DecidableEq, Repr

namespace CharSet

def contains (set : CharSet) (c : Char) : Bool :=
  set.ranges.any (fun r => r.1 ≤ c && c ≤ r.2) != set.negated

/-- Cuts the inside of a set at its range hyphens. The first `skip` characters of each piece hold
none; a hyphen at the end belongs to the last piece. -/
def chunks (skip : Nat) (s : List Char) : List (List Char) :=
  let head := s.take skip ++ (s.drop skip).takeWhile (· ≠ '-')
  match _h : (s.drop skip).dropWhile (· ≠ '-') with
  | [] => [head]
  | ['-'] => [head ++ ['-']]
  | _ :: rest => head :: chunks 2 rest
termination_by s.length
decreasing_by
  have h₁ := (List.dropWhile_sublist (l := s.drop skip) (· ≠ '-')).length_le
  simp only [_h, List.length_cons, List.length_drop] at h₁
  omega

/-- Joins two pieces whose range is in descending order, without the ends of the range. -/
def joinDescending (chunk : List Char) : List (List Char) → List (List Char)
  | [] => [chunk]
  | next :: rest =>
    match chunk.getLast?, next with
    | some lo, hi :: tail =>
      if hi < lo then (chunk.dropLast ++ tail) :: rest else chunk :: next :: rest
    | _, _ => chunk :: next :: rest

/-- A character of a set, or a hyphen between the ends of a range. -/
inductive Sign where
  | char (c : Char)
  | hyphen
  deriving DecidableEq, Repr

def Sign.toChar : Sign → Char
  | char c => c
  | hyphen => '-'

/-- The signs of the pieces, with a hyphen between each two of them. -/
def signs : List (List Char) → List Sign
  | [] => []
  | [chunk] => chunk.map .char
  | chunk :: rest => chunk.map .char ++ .hyphen :: signs rest

/-- The ranges that a row of signs stands for; a single character is a range of one. -/
def rangesOf : List Sign → List (Char × Char)
  | [] => []
  | a :: .hyphen :: b :: rest => (a.toChar, b.toChar) :: rangesOf rest
  | a :: rest => (a.toChar, a.toChar) :: rangesOf rest

/-- Reads the inside of a set. -/
def ofInside (inside : List Char) : CharSet :=
  let skip := if inside.head? = some '!' then 2 else 1
  match signs ((chunks skip inside).foldr joinDescending []) with
  | .char '!' :: rest => ⟨true, rangesOf rest⟩
  | all => ⟨false, rangesOf all⟩

end CharSet
end Ancestry.Pattern
