import Stencil.Text.Basic

/-!
# Dates and times

Moments of the Gregorian calendar, continued to all years, and their written
form under a format in which single letters stand for parts of the moment.
-/

namespace Stencil

structure Moment where
  year : Int
  month : Nat
  day : Nat
  hour : Nat
  minute : Nat
  second : Nat
deriving DecidableEq, Repr

namespace Moment

/--
Days since the first of March of the year zero.  Years are counted from March,
so that a leap day ends its year.
-/
def dayNumber (m : Moment) : Int :=
  let year := if m.month ≤ 2 then m.year - 1 else m.year
  let month : Int := ((m.month + 9) % 12 : Nat)
  year * 365 + year / 4 - year / 100 + year / 400 + (153 * month + 2) / 5 + m.day - 1

/-- Zero is Sunday; the first of March of the year zero was a Wednesday. -/
def weekday (m : Moment) : Nat := ((m.dayNumber + 3) % 7).toNat

def weekdayNames : List String :=
  ["Sunday", "Monday", "Tuesday", "Wednesday", "Thursday", "Friday", "Saturday"]

def monthNames : List String :=
  ["January", "February", "March", "April", "May", "June", "July", "August", "September",
    "October", "November", "December"]

def weekdayName (m : Moment) : Text := (weekdayNames.getD m.weekday "").toList

def monthName (m : Moment) : Text := (monthNames.getD (m.month - 1) "").toList

def padded (width n : Nat) : Text :=
  let digits := Text.ofNat n
  List.replicate (width - digits.length) '0' ++ digits

/-- At least four digits, with a sign for years before zero and years of five digits. -/
def yearText (year : Int) : Text :=
  if year < 0 then '-' :: padded 4 year.natAbs
  else if 9999 < year then '+' :: padded 4 year.natAbs
  else padded 4 year.natAbs

def part? (m : Moment) : Char → Option Text
  | 'Y' => some (yearText m.year)
  | 'y' => some (padded 2 (m.year % 100).toNat)
  | 'm' => some (padded 2 m.month)
  | 'n' => some (Text.ofNat m.month)
  | 'd' => some (padded 2 m.day)
  | 'j' => some (Text.ofNat m.day)
  | 'H' => some (padded 2 m.hour)
  | 'G' => some (Text.ofNat m.hour)
  | 'i' => some (padded 2 m.minute)
  | 's' => some (padded 2 m.second)
  | 'D' => some (m.weekdayName.take 3)
  | 'l' => some m.weekdayName
  | 'M' => some (m.monthName.take 3)
  | 'F' => some m.monthName
  | _ => none

/-- A backslash keeps the next character as it is; other characters stand for themselves. -/
def format (m : Moment) : Text → Text
  | [] => []
  | '\\' :: c :: rest => c :: m.format rest
  | ['\\'] => []
  | c :: rest => (m.part? c).getD [c] ++ m.format rest

end Moment

end Stencil
