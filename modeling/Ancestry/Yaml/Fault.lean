import Ancestry.Calendar
import Ancestry.Number.Numeral

/-!
Faults of values: a scalar is said to be of a kind, or looks like it, and is no value of that kind.
They have no place in the document.
-/

namespace Ancestry.Yaml

inductive ValueFault where
  | numeral (fault : Number.NumeralFault)
  /-- Nothing is left of a number but its sign. -/
  | noDigits
  /-- A place of a number to the base sixty that is beyond double precision. -/
  | placeTooLarge
  | notBool (text : String)
  | notTime
  /-- A time that is written as a mapping. -/
  | timeOfMapping
  | calendar (fault : Calendar.Fault)
  /-- An escape with a number beyond all characters. -/
  | noCharacter
  /-- An escape with a number beyond all numbers of characters. -/
  | characterTooLarge
  /-- A whole number with too many digits to be written. -/
  | tooLongToWrite
  | tooDeep
  deriving DecidableEq, Repr

def ValueFault.message : ValueFault → String
  | numeral fault => fault.message
  | noDigits => "string index out of range"
  | placeTooLarge => "int too large to convert to float"
  | notBool text => Text.quoted text
  | notTime => "'NoneType' object has no attribute 'groupdict'"
  | timeOfMapping => "expected string or bytes-like object, got 'list'"
  | calendar fault => fault.message
  | noCharacter => "chr() arg not in range(0x110000)"
  | characterTooLarge => "Python int too large to convert to C int"
  | tooLongToWrite =>
    "Exceeds the limit (" ++ toString Number.maxDigits ++
      " digits) for integer string conversion; use sys.set_int_max_str_digits() to increase the limit"
  | tooDeep => "maximum recursion depth exceeded"

end Ancestry.Yaml
