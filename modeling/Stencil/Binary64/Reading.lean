import Stencil.Text.Basic

/-!
# Reading decimals

A decimal has an optional sign, digits with at most one point among or around
them, and an optional power of ten.  It reads as the nearest float.
-/

namespace Stencil.Binary64

/-- `mantissa * 10 ^ exponent`, with its sign. -/
structure Numeral where
  negative : Bool
  mantissa : Nat
  exponent : Int
deriving DecidableEq, Repr

def sign (t : Text) : Bool × Text :=
  match t with
  | '-' :: rest => (true, rest)
  | '+' :: rest => (false, rest)
  | rest => (false, rest)

/-- The power of ten after the digits; no text at all is the power zero. -/
def power? : Text → Option Int
  | [] => some 0
  | c :: t =>
    if c = 'e' ∨ c = 'E' then
      let (negative, digits) := sign t
      if digits ≠ [] ∧ digits.all Char.isDigit then
        let n : Int := Text.natOfDigits digits
        some (if negative then -n else n)
      else none
    else none

def Numeral.read? (t : Text) : Option Numeral :=
  let (negative, t) := sign t
  let whole := t.takeWhile Char.isDigit
  let (fraction, rest) :=
    match t.dropWhile Char.isDigit with
    | '.' :: rest => (rest.takeWhile Char.isDigit, rest.dropWhile Char.isDigit)
    | rest => ([], rest)
  if whole = [] ∧ fraction = [] then none
  else (power? rest).map fun power =>
    { negative
      mantissa := Text.natOfDigits (whole ++ fraction)
      exponent := power - fraction.length }

def infinity : Float := Float.ofBits 0x7FF0000000000000

/-- The nearest float; magnitudes beyond the range are infinite or zero. -/
def Numeral.toFloat (n : Numeral) : Float :=
  let size : Int := (Text.ofNat n.mantissa).length + n.exponent
  let magnitude :=
    if n.mantissa = 0 ∨ size < -400 then 0
    else if 400 < size then infinity
    else if n.exponent < 0 then Float.ofScientific n.mantissa true (-n.exponent).toNat
    else Float.ofScientific n.mantissa false n.exponent.toNat
  if n.negative then -magnitude else magnitude

def read? (t : Text) : Option Float := (Numeral.read? t).map Numeral.toFloat

end Stencil.Binary64
