import Stencil.Value.Coercion

/-!
# Loose comparison

Numeric strings compare as numbers and booleans compare with the truth of the
other side.  Two strings that are not both numeric compare by code points.
-/

namespace Stencil

def floatOrder? (x y : Float) : Option Ordering :=
  if x < y then some .lt
  else if x == y then some .eq
  else if y < x then some .gt
  else none

namespace Value

def looseEq : Value → Value → Bool
  | .null, .null => true
  | .bool b, other => b == other.truthy
  | other, .bool b => b == other.truthy
  | .null, .string t => t.isEmpty
  | .string t, .null => t.isEmpty
  | .null, other => !other.truthy
  | other, .null => !other.truthy
  | .string a, .string b =>
    match numeric? a, numeric? b with
    | some x, some y => x == y
    | _, _ => a == b
  | .number n, .string t => numberEqText n t
  | .string t, .number n => numberEqText n t
  | .number a, .number b => a.toFloat == b.toFloat
  | a, b => a.same b
where
  numberEqText (n : Number) (t : Text) : Bool :=
    match numeric? t with
    | some x => n.toFloat == x
    | none => n.display == t

def order? (a b : Value) : Option Ordering :=
  match a, b with
  | .string s, .string t =>
    match numeric? s, numeric? t with
    | some x, some y => floatOrder? x y
    | _, _ => some (compare s t)
  | a, b =>
    match a.number?, b.number? with
    | some x, some y => floatOrder? x y
    | _, _ => none

end Value

end Stencil
