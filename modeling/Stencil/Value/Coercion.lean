import Stencil.Value.Json
import Stencil.Binary64.Reading

/-!
# Views of a value

A value can be printed, asked as a condition, and read as a number.  Numeric
strings are read as the number they name.
-/

namespace Stencil

def numeric? (t : Text) : Option Float :=
  if t.any Char.isDigit then (Binary64.read? (Text.trim t)).filter Float.isFinite else none

def fitsInt64 (n : Int) : Bool :=
  decide (-0x8000000000000000 ≤ n ∧ n < 0x8000000000000000)

/-- Whole floats below `10 ^ 15` are printed without a fraction. -/
def Number.display : Number → Text
  | .int n => Text.ofInt n
  | .float x =>
    match (Binary64.parts x).whole? with
    | some n => if n.natAbs < 1000000000000000 then Text.ofInt n else (Number.float x).json
    | none => (Number.float x).json

namespace Value

/-- The printed form: nothing for `null` and `false`, JSON for arrays and objects. -/
def display : Value → Text
  | .null => []
  | .bool false => []
  | .bool true => ['1']
  | .number n => n.display
  | .string t => t
  | .array items => (Value.array items).json
  | .object fields => (Value.object fields).json

/-- Zero, the empty string, `"0"` and empty collections are false, as are `null` and `false`. -/
def truthy : Value → Bool
  | .null => false
  | .bool b => b
  | .number n => n.toFloat != 0
  | .string t => !(t == [] || t == ['0'])
  | .array items => !items.isEmpty
  | .object fields => !fields.isEmpty

def number? : Value → Option Float
  | .null => some 0
  | .bool b => some (if b then 1 else 0)
  | .number n => some n.toFloat
  | .string t => numeric? t
  | .array _ => none
  | .object _ => none

/-- The value as a whole number of 64 bits; no float has one. -/
def integer? : Value → Option Int
  | .null => some 0
  | .bool b => some (if b then 1 else 0)
  | .number (.int n) => if fitsInt64 n then some n else none
  | .number (.float _) => none
  | .string t => (Text.int? (Text.trim t)).filter fitsInt64
  | .array _ => none
  | .object _ => none

end Value

end Stencil
