import Stencil.Text.Basic

/-!
# The parts of a 64-bit float

A finite float is a sign and a magnitude `significand * 2 ^ exponent`.  Exact
questions about floats are asked of these natural numbers.
-/

namespace Stencil.Binary64

structure Parts where
  negative : Bool
  significand : Nat
  exponent : Int
deriving DecidableEq, Repr

/-- The bit of a significand that is not stored. -/
def hiddenBit : Nat := 0x10000000000000

/-- The least exponent.  Significands without the hidden bit occur with this exponent only. -/
def leastExponent : Int := -1074

def signBit : Nat := 0x8000000000000000

def parts (x : Float) : Parts :=
  let bits := x.toBits.toNat
  let biased : Nat := bits / hiddenBit % 0x800
  let fraction : Nat := bits % hiddenBit
  { negative := decide (signBit ≤ bits)
    significand := if biased = 0 then fraction else hiddenBit + fraction
    exponent := if biased = 0 then leastExponent else (biased : Int) - 1075 }

namespace Parts

def fraction (p : Parts) : Nat × Nat :=
  (p.significand * Nat.pow 2 p.exponent.toNat, Nat.pow 2 (-p.exponent).toNat)

def whole? (p : Parts) : Option Int :=
  let (num, den) := p.fraction
  if num % den = 0 then
    some (if p.negative then -((num / den : Nat) : Int) else ((num / den : Nat) : Int))
  else none

end Parts

def scaled (negative : Bool) (significand : Nat) (exponent : Int) : Float :=
  let k := (-exponent).toNat
  let magnitude := Float.ofScientific (significand * Nat.pow 2 exponent.toNat * Nat.pow 5 k) true k
  if negative then -magnitude else magnitude

/-- The remainder of the quotient that is rounded toward zero; it has the sign of `x`. -/
def remainder (x y : Float) : Float :=
  let p := parts x
  let q := parts y
  let e := min p.exponent q.exponent
  let a := p.significand * Nat.pow 2 (p.exponent - e).toNat
  let b := q.significand * Nat.pow 2 (q.exponent - e).toNat
  scaled p.negative (a % b) e

end Stencil.Binary64
