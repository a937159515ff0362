import Ancestry.Number.Double

/-!
The shortest decimal text of a number: the fewest digits that read back as the same number, and of
those the nearest. Positions are written out for magnitudes from one ten-thousandth up to ten to the
sixteenth; beyond that there is an exponent of at least two digits.
-/

namespace Ancestry.Number

/-- The power of ten of the first digit of a positive number of units. -/
def leadingPower (units : Nat) : Int :=
  let whole := units / unitsInOne
  if whole ≠ 0 then ((Nat.toDigits 10 whole).length : Int) - 1
  else
    match (List.range 400).find? fun k => unitsInOne ≤ units * tenTo k with
    | some k => -(k : Int)
    | none => 0

/-- Whether `digits` times ten to `power` rounds to the number of `units`. -/
def readsBack (units digits : Nat) (power : Int) : Bool :=
  let (num, den) := match power with
    | .ofNat n => (digits * tenTo n, 1)
    | .negSucc n => (digits, tenTo (n + 1))
  Double.ofRatio false num den = .finite false units

/-- The distance of `digits` times ten to `power` from the number of `units`, in a scale that
depends on the power only. -/
def distance (units digits : Nat) (power : Int) : Nat :=
  let (a, b) := match power with
    | .ofNat n => (digits * tenTo n * unitsInOne, units)
    | .negSucc n => (digits * unitsInOne, units * tenTo (n + 1))
  max a b - min a b

/-- The digits at one power of ten that read back, if there are any: one of the two neighbours of
the number, the nearer one, of two as near the even one. -/
def digitsAt? (units : Nat) (power : Int) : Option Nat :=
  let below := match power with
    | .ofNat n => units / (tenTo n * unitsInOne)
    | .negSucc n => units * tenTo (n + 1) / unitsInOne
  let candidates := [below, below + 1].filter fun d => d ≠ 0 && readsBack units d power
  match candidates with
  | [a, b] =>
    let da := distance units a power
    let db := distance units b power
    some (if da < db || (da = db && a % 2 = 0) then a else b)
  | [a] => some a
  | _ => none

/-- The shortest digits of a positive number and the power of ten of the last one. -/
def shortest (units : Nat) : Nat × Int :=
  let top := leadingPower units
  ((List.range 18).findSome? fun (k : Nat) =>
    (digitsAt? units (top - k)).map fun d => (d, top - (k : Int))).getD (0, 0)

/-- Digits without trailing zeros. -/
def significant (digits : Nat) : List Char :=
  ((Nat.toDigits 10 digits).reverse.dropWhile (· = '0')).reverse

/-- The text of a positive number. -/
def magnitudeText (units : Nat) : String :=
  let (digits, power) := shortest units
  let all := Nat.toDigits 10 digits
  let top := power + all.length - 1
  let shown := significant digits
  if -4 ≤ top && top < 16 then
    if top < 0 then "0." ++ String.ofList (List.replicate (-top - 1).toNat '0' ++ shown)
    else
      let n := top.toNat + 1
      let whole := (shown ++ List.replicate (n - shown.length) '0').take n
      let rest := shown.drop n
      String.ofList whole ++ "." ++ (if rest = [] then "0" else String.ofList rest)
  else
    let mantissa := String.ofList (shown.take 1) ++
      (if shown.length ≤ 1 then "" else "." ++ String.ofList (shown.drop 1))
    let size := Nat.toDigits 10 top.natAbs
    mantissa ++ (if top < 0 then "e-" else "e+") ++
      String.ofList (List.replicate (2 - size.length) '0' ++ size)

def Double.text : Double → String
  | .finite negative units =>
    (if negative then "-" else "") ++ (if units = 0 then "0.0" else magnitudeText units)
  | .infinite negative => if negative then "-inf" else "inf"
  | .nan => "nan"

end Ancestry.Number
