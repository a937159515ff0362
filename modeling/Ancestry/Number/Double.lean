/-!
Numbers in double precision. Every finite one is a whole number of units, where the unit is the
smallest positive one, so that all arithmetic here is exact until it rounds, to the nearest number
and to the even one of two.
-/

namespace Ancestry.Number

/-- The unit is this power of two, taken negative. -/
def unitExponent : Nat := 1074

/-- How many units the number one has. -/
def unitsInOne : Nat := Nat.pow 2 unitExponent

/-- Ten to a power. -/
def tenTo (n : Nat) : Nat := Nat.pow 10 n

/-- Significant binary digits. -/
def precision : Nat := 53

/-- A number in double precision. -/
inductive Double where
  | finite (negative : Bool) (units : Nat)
  | infinite (negative : Bool)
  | nan
  deriving DecidableEq, Repr

/-- The whole number nearest to a ratio, the even one of two. -/
def roundRatio (num den : Nat) : Nat :=
  let q := num / den
  let r := num % den
  if 2 * r < den || (2 * r = den && q % 2 = 0) then q else q + 1

/-- The distance between neighbours at a magnitude of so many units. -/
def gap (units : Nat) : Nat :=
  Nat.pow 2 (units.log2 + 1 - precision)

namespace Double

/-- The number nearest to a ratio. -/
def ofRatio (negative : Bool) (num den : Nat) : Double :=
  let scaled := num * unitsInOne
  let step := gap (scaled / den)
  let units := roundRatio scaled (den * step) * step
  if Nat.pow 2 (1024 + unitExponent) ≤ units then infinite negative else finite negative units

/-- The number nearest to `digits` times ten to `exponent`. Far out of range nothing is computed:
from the three hundred and tenth power of ten on numbers are infinite, and below the minus three
hundred and thirtieth they are zero. -/
def ofDecimal (negative : Bool) (digits : List Nat) (exponent : Int) : Double :=
  let digits := digits.dropWhile (· = 0)
  let top := digits.length + exponent
  if digits = [] || top < -330 then finite negative 0
  else if 310 < top then infinite negative
  else
    let n := digits.foldl (fun n d => n * 10 + d) 0
    match exponent with
    | .ofNat k => ofRatio negative (n * tenTo k) 1
    | .negSucc k => ofRatio negative n (tenTo (k + 1))

def negate : Double → Double
  | finite negative units => finite (!negative) units
  | infinite negative => infinite (!negative)
  | nan => nan

/-- The sum of two numbers, rounded. -/
def add : Double → Double → Double
  | finite n a, finite m b =>
    if n = m then ofRatio n (a + b) unitsInOne
    else if a = b then finite false 0
    else ofRatio (if a < b then m else n) (max a b - min a b) unitsInOne
  | nan, _ => nan
  | _, nan => nan
  | infinite n, infinite m => if n = m then infinite n else nan
  | infinite n, finite _ _ => infinite n
  | finite _ _, infinite m => infinite m

/-- The product of two numbers, rounded. -/
def mul : Double → Double → Double
  | finite n a, finite m b => ofRatio (n != m) (a * b) (unitsInOne * unitsInOne)
  | nan, _ => nan
  | _, nan => nan
  | infinite n, infinite m => infinite (n != m)
  | infinite n, finite m b => if b = 0 then nan else infinite (n != m)
  | finite n a, infinite m => if a = 0 then nan else infinite (n != m)

/-- Whether a number is the whole number `n`. -/
def equalsInt (n : Int) : Double → Bool
  | finite negative units =>
    units = n.natAbs * unitsInOne && (units = 0 || negative = decide (n < 0))
  | _ => false

/-- Equality of numbers: the two zeros are equal, and what is no number equals nothing. -/
def same : Double → Double → Bool
  | finite n a, finite m b => a = b && (a = 0 || n = m)
  | infinite n, infinite m => n = m
  | _, _ => false

end Double
end Ancestry.Number
