import Ancestry.Number.Shortest

/-!
Decimal texts of a given length: with so many places behind the point, or with so many digits and an
exponent. Numbers are rounded to the nearest text, and to the even one of two.
-/

namespace Ancestry.Number

/-- The digits behind the point, with the point. `keepPoint` keeps it where there are none. -/
def fractionText (keepPoint : Bool) (digits : List Char) : String :=
  if digits = [] && !keepPoint then "" else "." ++ String.ofList digits

/-- A magnitude of so many units with `places` digits behind the point. -/
def fixedText (keepPoint : Bool) (places units : Nat) : String :=
  let digits := Nat.toDigits 10 (roundRatio (units * tenTo places) unitsInOne)
  let digits := List.replicate (places + 1 - digits.length) '0' ++ digits
  let whole := digits.take (digits.length - places)
  String.ofList whole ++ fractionText keepPoint (digits.drop whole.length)

/-- The digits of a magnitude, `places` of them behind the first, and the power of ten of the
first. -/
def leadingDigits (places units : Nat) : List Char × Int :=
  if units = 0 then (List.replicate (places + 1) '0', 0)
  else
    let power := leadingPower units
    let n := match power - places with
      | .ofNat k => roundRatio units (unitsInOne * tenTo k)
      | .negSucc k => roundRatio (units * tenTo (k + 1)) unitsInOne
    if n = tenTo (places + 1) then (Nat.toDigits 10 (tenTo places), power + 1)
    else (Nat.toDigits 10 n, power)

/-- An exponent with its sign and at least two digits. -/
def powerText (power : Int) : String :=
  let digits := Nat.toDigits 10 power.natAbs
  (if power < 0 then "e-" else "e+") ++
    String.ofList (List.replicate (2 - digits.length) '0' ++ digits)

/-- A magnitude with one digit before the point, `places` behind it, and an exponent. -/
def powerForm (keepPoint : Bool) (places units : Nat) : String :=
  let (digits, power) := leadingDigits places units
  String.ofList (digits.take 1) ++ fractionText keepPoint (digits.drop 1) ++ powerText power

def dropTrailingZeros (digits : List Char) : List Char :=
  (digits.reverse.dropWhile (· = '0')).reverse

/-- A magnitude with at most `count` digits, positional where the exponent is from minus four up to
`count`. Trailing zeros stay only with `keepZeros`. -/
def generalText (keepZeros : Bool) (count units : Nat) : String :=
  let count := max count 1
  let (digits, power) := leadingDigits (count - 1) units
  let shorten (fraction : List Char) : List Char :=
    if keepZeros then fraction else dropTrailingZeros fraction
  if power < -4 || count ≤ power then
    String.ofList (digits.take 1) ++ fractionText keepZeros (shorten (digits.drop 1)) ++
      powerText power
  else if power < 0 then
    "0" ++ fractionText keepZeros
      (shorten (List.replicate (power.natAbs - 1) '0' ++ digits))
  else
    let whole := digits.take (power.toNat + 1)
    String.ofList whole ++ fractionText keepZeros (shorten (digits.drop whole.length))

end Ancestry.Number
