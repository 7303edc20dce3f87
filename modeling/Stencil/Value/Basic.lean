import Stencil.Bindings

/-!
# Values

The data that a template is rendered with.  Whole numbers and floats are
different numbers; the fields of an object keep their order.
-/

namespace Stencil

inductive Number where
  | int (n : Int)
  | float (x : Float)
deriving DecidableEq

inductive Value where
  | null
  | bool (b : Bool)
  | number (n : Number)
  | string (t : Text)
  | array (items : List Value)
  | object (fields : List (Text × Value))

abbrev Context := Bindings Value

namespace Number

def toFloat : Number → Float
  | .int n => .ofInt n
  | .float x => x

/-- Whole numbers are equal by value, floats as floats; no float equals a whole number. -/
def same : Number → Number → Bool
  | .int a, .int b => a == b
  | .float x, .float y => x == y
  | _, _ => false

end Number

namespace Value

instance : Inhabited Value := ⟨.null⟩

def ofInt (n : Int) : Value := .number (.int n)

/-- Data holds finite numbers only; any other float is `null`. -/
def ofFloat (x : Float) : Value := if x.isFinite then .number (.float x) else .null

def isNull : Value → Bool
  | .null => true
  | _ => false

mutual

def same : Value → Value → Bool
  | .null, .null => true
  | .bool a, .bool b => a == b
  | .number a, .number b => a.same b
  | .string a, .string b => a == b
  | .array a, .array b => sameItems a b
  | .object a, .object b => a.length == b.length && sameFields a b
  | _, _ => false

def sameItems : List Value → List Value → Bool
  | [], [] => true
  | a :: as, b :: bs => same a b && sameItems as bs
  | _, _ => false

def sameFields : List (Text × Value) → List (Text × Value) → Bool
  | [], _ => true
  | (name, value) :: rest, fields =>
    (match List.lookup name fields with
      | some other => same value other
      | none => false) && sameFields rest fields

end

end Value

end Stencil
