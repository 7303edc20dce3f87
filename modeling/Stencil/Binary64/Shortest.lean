import Stencil.Binary64.Parts

/-!
# Shortest decimals

The shortest decimal of a float has the fewest digits among the decimals that
round to the float; of two with equally few digits it is the nearer one, and of
two equally near ones the even one.
-/

namespace Stencil.Binary64

/-- The decimal `digits[0].digits[1]… * 10 ^ exponent`. -/
structure Decimal where
  digits : Text
  exponent : Int
deriving DecidableEq, Repr

def leadingExponent (num den : Nat) : Int :=
  if den ≤ num then (Text.ofNat (num / den)).length - 1
  else -((Text.ofNat ((den + num - 1) / num - 1)).length : Int)

/--
The multiple of `10 ^ k` that stands for the magnitude `p`, if one rounds to it.
The reals that round to the float reach half way to its neighbours, and take in
both ends when the significand is even.  All bounds are counted in quarters of
the last place, since the lower neighbour of a power of two is half as far.
-/
def onGrid? (p : Parts) (k : Int) : Option Nat :=
  let e := p.exponent - 2
  let a := Nat.pow 10 k.toNat * Nat.pow 2 (-e).toNat
  let b := Nat.pow 2 e.toNat * Nat.pow 10 (-k).toNat
  let value := 4 * p.significand
  let below := if p.significand = hiddenBit ∧ leastExponent < p.exponent then 1 else 2
  let low := (value - below) * b
  let high := (value + 2) * b
  let hits (c : Nat) : Bool :=
    if p.significand % 2 = 0 then decide (low ≤ c * a ∧ c * a ≤ high)
    else decide (low < c * a ∧ c * a < high)
  let c := value * b / a
  match hits c, hits (c + 1) with
  | true, false => some c
  | false, true => some (c + 1)
  | false, false => none
  | true, true =>
    if 2 * (value * b) < (2 * c + 1) * a then some c
    else if (2 * c + 1) * a < 2 * (value * b) then some (c + 1)
    else some (if c % 2 = 0 then c else c + 1)

def Decimal.ofGrid (c : Nat) (k : Int) : Decimal :=
  let digits := Text.ofNat c
  { digits := (digits.reverse.dropWhile (· == '0')).reverse
    exponent := k + digits.length - 1 }

/-- Seventeen digits always suffice, so a grid with a hit is found. -/
def shortest (p : Parts) : Decimal :=
  let (num, den) := p.fraction
  let e := leadingExponent num den
  let onGridOf (n : Nat) : Option Decimal :=
    (onGrid? p (e - n)).map fun c => .ofGrid c (e - n)
  ((List.range 17).findSome? onGridOf).getD ⟨['0'], 0⟩

/-! ## Written form -/

structure NumberStyle where
  /-- The least exponent of the first digit that is written positionally. -/
  positionalFrom : Int
  /-- The first exponent that is written with a power of ten. -/
  scientificFrom : Int
  wholeEnd : Text
  positiveSign : Text

def Decimal.positional (style : NumberStyle) (d : Decimal) : Text :=
  if d.exponent < 0 then
    ['0', '.'] ++ List.replicate ((-d.exponent).toNat - 1) '0' ++ d.digits
  else
    let units := d.exponent.toNat + 1
    if d.digits.length ≤ units then
      d.digits ++ List.replicate (units - d.digits.length) '0' ++ style.wholeEnd
    else d.digits.take units ++ ['.'] ++ d.digits.drop units

def Decimal.scientific (style : NumberStyle) (d : Decimal) : Text :=
  let mantissa :=
    match d.digits with
    | first :: second :: more => first :: '.' :: second :: more
    | digits => digits
  let sign := if d.exponent < 0 then [] else style.positiveSign
  mantissa ++ ['e'] ++ sign ++ Text.ofInt d.exponent

def Decimal.write (style : NumberStyle) (d : Decimal) : Text :=
  if style.positionalFrom ≤ d.exponent ∧ d.exponent < style.scientificFrom then
    d.positional style
  else d.scientific style

def write (style : NumberStyle) (x : Float) : Text :=
  let p := parts x
  let sign := if p.negative then ['-'] else []
  if p.significand = 0 then sign ++ ['0'] ++ style.wholeEnd
  else sign ++ (shortest p).write style

end Stencil.Binary64
