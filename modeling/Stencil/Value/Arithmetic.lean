import Stencil.Value.Coercion

/-!
# Arithmetic

Whole numbers are computed exactly as long as the result fits in 64 bits; all
else is computed with floats, where a value without a numeric view counts as
zero.  Division and remainder by zero give `null`.
-/

namespace Stencil

inductive Arithmetic where
  | add
  | sub
  | mul
  | div
  | rem
deriving DecidableEq, Repr

namespace Arithmetic

def whole? : Arithmetic → Int → Int → Option Int
  | .add, a, b => fit (a + b)
  | .sub, a, b => fit (a - b)
  | .mul, a, b => fit (a * b)
  | .div, a, b => if b ≠ 0 ∧ a.tmod b = 0 then fit (a.tdiv b) else none
  | .rem, a, b => if b ≠ 0 ∧ fitsInt64 (a.tdiv b) then some (a.tmod b) else none
where
  fit (n : Int) : Option Int := if fitsInt64 n then some n else none

def float? : Arithmetic → Float → Float → Option Float
  | .add, x, y => some (x + y)
  | .sub, x, y => some (x - y)
  | .mul, x, y => some (x * y)
  | .div, x, y => if y == 0 then none else some (x / y)
  | .rem, x, y => if y == 0 then none else some (Binary64.remainder x y)

def floats (op : Arithmetic) (a b : Value) : Value :=
  match op.float? (a.number?.getD 0) (b.number?.getD 0) with
  | some x => .ofFloat x
  | none => .null

def apply (op : Arithmetic) (a b : Value) : Value :=
  match a.integer?, b.integer? with
  | some m, some n =>
    match op.whole? m n with
    | some result => .ofInt result
    | none => if op = .rem ∧ n = 0 then .null else op.floats a b
  | _, _ => op.floats a b

end Arithmetic

end Stencil
