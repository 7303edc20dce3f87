import Stencil.Binary64.Reading
import Stencil.Text.Hex
import Stencil.Toml.Basic

/-!
# TOML scalars

Strings, numbers and moments, as they are written in a document.  Every reader
takes what it knows from the start of a text and hands back the rest.
-/

namespace Stencil.Toml

/-! ## Characters -/

def isLineChar (c : Char) : Bool := c == '\t' || (0x20 ≤ c.toNat && c.toNat != 0x7F)

def isBlank (c : Char) : Bool := c == ' ' || c == '\t'

def dropBlanks (t : Text) : Text := t.dropWhile isBlank

def afterBreak? : Text → Option Text
  | '\n' :: t => some t
  | '\r' :: '\n' :: t => some t
  | _ => none

def dropSpace : Text → Text
  | '\r' :: '\n' :: t => dropSpace t
  | c :: t => if isBlank c || c == '\n' then dropSpace t else c :: t
  | [] => []

def consRead (c : Char) (read : Option (Text × Text)) : Option (Text × Text) :=
  read.map fun (t, rest) => (c :: t, rest)

/-! ## Strings -/

def numbered? (digits : Nat) (t : Text) : Option (Char × Text) :=
  match (t.take digits).mapM Hex.value? with
  | some values =>
    let n := values.foldl (fun n digit => n * 16 + digit) 0
    if values.length = digits ∧ n.isValidChar then some (Char.ofNat n, t.drop digits) else none
  | none => none

def escaped? : Text → Option (Char × Text)
  | 'b' :: t => some (Char.ofNat 8, t)
  | 't' :: t => some ('\t', t)
  | 'n' :: t => some ('\n', t)
  | 'f' :: t => some (Char.ofNat 12, t)
  | 'r' :: t => some ('\r', t)
  | '"' :: t => some ('"', t)
  | '\\' :: t => some ('\\', t)
  | 'u' :: t => numbered? 4 t
  | 'U' :: t => numbered? 8 t
  | _ => none

theorem length_of_numbered? {digits : Nat} {t rest : Text} {c : Char}
    (h : numbered? digits t = some (c, rest)) : rest.length ≤ t.length := by
  unfold numbered? at h
  split at h
  · dsimp only at h
    split at h
    · simp only [Option.some.injEq, Prod.mk.injEq] at h
      simp [← h.2]
    · simp at h
  · simp at h

theorem length_of_escaped? {t rest : Text} {c : Char} (h : escaped? t = some (c, rest)) :
    rest.length < t.length := by
  unfold escaped? at h
  split at h
  case h_8 | h_9 =>
    have := length_of_numbered? h
    simp only [List.length_cons]
    omega
  all_goals simp_all

def quoted? : Text → Option (Text × Text)
  | [] => none
  | '"' :: t => some ([], t)
  | '\\' :: t =>
    match h : escaped? t with
    | some (c, rest) =>
      have := length_of_escaped? h
      consRead c (quoted? rest)
    | none => none
  | c :: t => if isLineChar c then consRead c (quoted? t) else none
termination_by t => t.length

def verbatim? : Text → Option (Text × Text)
  | [] => none
  | '\'' :: t => some ([], t)
  | c :: t => if isLineChar c then consRead c (verbatim? t) else none

/-- The end of a string of lines: three marks, and up to two before them that belong to it. -/
def linesEnd? (mark : Char) (t : Text) : Option (Text × Text) :=
  if t.take 5 = List.replicate 5 mark then some ([mark, mark], t.drop 5)
  else if t.take 4 = List.replicate 4 mark then some ([mark], t.drop 4)
  else if t.take 3 = List.replicate 3 mark then some ([], t.drop 3)
  else none

theorem length_dropSpace_le (t : Text) : (dropSpace t).length ≤ t.length := by
  fun_induction dropSpace t <;> simp_all <;> omega

def quotedLines? (t : Text) : Option (Text × Text) :=
  match linesEnd? '"' t with
  | some read => some read
  | none =>
    match t with
    | [] => none
    | '\r' :: '\n' :: t => consRead '\n' (quotedLines? t)
    | '\n' :: t => consRead '\n' (quotedLines? t)
    | '\\' :: t =>
      match afterBreak? (dropBlanks t) with
      | some _ =>
        have : (dropSpace t).length ≤ t.length := length_dropSpace_le t
        quotedLines? (dropSpace t)
      | none =>
        match h : escaped? t with
        | some (c, rest) =>
          have := length_of_escaped? h
          consRead c (quotedLines? rest)
        | none => none
    | c :: t => if isLineChar c then consRead c (quotedLines? t) else none
termination_by t.length

def verbatimLines? (t : Text) : Option (Text × Text) :=
  match linesEnd? '\'' t with
  | some read => some read
  | none =>
    match t with
    | [] => none
    | '\r' :: '\n' :: t => consRead '\n' (verbatimLines? t)
    | '\n' :: t => consRead '\n' (verbatimLines? t)
    | c :: t => if isLineChar c then consRead c (verbatimLines? t) else none

/-- A line break right after the opening marks does not count. -/
def dropBreak (t : Text) : Text := (afterBreak? t).getD t

def lineString? : Text → Option (Text × Text)
  | '"' :: t => quoted? t
  | '\'' :: t => verbatim? t
  | _ => none

def string? : Text → Option (Text × Text)
  | '"' :: '"' :: '"' :: t => quotedLines? (dropBreak t)
  | '\'' :: '\'' :: '\'' :: t => verbatimLines? (dropBreak t)
  | t => lineString? t

/-! ## Numbers -/

def moreDigits? (isDigit : Char → Bool) : Text → Option (Text × Text)
  | [] => some ([], [])
  | '_' :: c :: t => if isDigit c then consRead c (moreDigits? isDigit t) else none
  | c :: t =>
    if isDigit c then consRead c (moreDigits? isDigit t)
    else if c = '_' then none
    else some ([], c :: t)

def digits? (isDigit : Char → Bool) : Text → Option (Text × Text)
  | [] => none
  | c :: t => if isDigit c then consRead c (moreDigits? isDigit t) else none

def sign : Text → Text × Text
  | '+' :: t => ([], t)
  | '-' :: t => (['-'], t)
  | t => ([], t)

/-- A decimal numeral without its sign; only zero starts with a zero. -/
def whole? : Text → Option (Text × Text)
  | '0' :: t => some (['0'], t)
  | t => digits? Char.isDigit t

def integerOf (n : Int) : Option Toml :=
  if -0x8000000000000000 ≤ n ∧ n < 0x8000000000000000 then some (.integer n) else none

def decimal? (t : Text) : Option (Toml × Text) := do
  let (minus, t) := sign t
  let (digits, rest) ← whole? t
  let n : Int := Text.natOfDigits digits
  let value ← integerOf (if minus = [] then n else -n)
  return (value, rest)

def based? (base : Nat) (t : Text) : Option (Toml × Text) := do
  let (digits, rest) ← digits? (fun c => (Hex.value? c).any (· < base)) t
  let n := digits.foldl (fun n c => n * base + (Hex.value? c).getD 0) 0
  let value ← integerOf n
  return (value, rest)

def integer? : Text → Option (Toml × Text)
  | '0' :: 'x' :: t => based? 16 t
  | '0' :: 'o' :: t => based? 8 t
  | '0' :: 'b' :: t => based? 2 t
  | t => decimal? t

def fraction? : Text → Option (Text × Text)
  | '.' :: t => consRead '.' (digits? Char.isDigit t)
  | _ => none

def power? : Text → Option (Text × Text)
  | c :: t =>
    if c = 'e' ∨ c = 'E' then do
      let (minus, t) := sign t
      let (digits, rest) ← digits? Char.isDigit t
      return ('e' :: minus ++ digits, rest)
    else none
  | [] => none

def floatEnd? (t : Text) : Option (Text × Text) :=
  match fraction? t with
  | some (fraction, rest) =>
    match power? rest with
    | some (power, rest) => some (fraction ++ power, rest)
    | none => some (fraction, rest)
  | none => power? t

/-- Numerals beyond the greatest float are refused, but not those below the least. -/
def finite? (t : Text) : Option (Toml × Text) := do
  let (minus, t) := sign t
  let (digits, rest) ← whole? t
  let (after, rest) ← floatEnd? rest
  let x ← Binary64.read? (minus ++ digits ++ after)
  if x == Binary64.infinity then none else some (.float x, rest)

def special? (t : Text) : Option (Toml × Text) :=
  let (minus, t) := sign t
  match Text.after? ['i', 'n', 'f'] t with
  | some rest =>
    some (.float (if minus = [] then Binary64.infinity else -Binary64.infinity), rest)
  | none => (Text.after? ['n', 'a', 'n'] t).map fun rest => (.float (0.0 / 0.0), rest)

/-! ## Moments -/

def ranged? (digits least greatest : Nat) (t : Text) : Option (Nat × Text) :=
  let written := t.take digits
  let n := Text.natOfDigits written
  if written.length = digits ∧ written.all Char.isDigit ∧ least ≤ n ∧ n ≤ greatest then
    some (n, t.drop digits)
  else none

def mark? (mark : Char) : Text → Option Text
  | c :: t => if c = mark then some t else none
  | [] => none

def daysIn (year month : Nat) : Nat :=
  if month = 2 then if year % 4 = 0 ∧ (year % 100 ≠ 0 ∨ year % 400 = 0) then 29 else 28
  else if month = 4 ∨ month = 6 ∨ month = 9 ∨ month = 11 then 30
  else 31

def afterDate? (t : Text) : Option Text := do
  let (year, t) ← ranged? 4 0 9999 t
  let t ← mark? '-' t
  let (month, t) ← ranged? 2 1 12 t
  let t ← mark? '-' t
  let (_, t) ← ranged? 2 1 (daysIn year month) t
  return t

def afterTime? (t : Text) : Option Text := do
  let (_, t) ← ranged? 2 0 23 t
  let t ← mark? ':' t
  let (_, t) ← ranged? 2 0 59 t
  let t ← mark? ':' t
  let (_, t) ← ranged? 2 0 60 t
  match t with
  | '.' :: c :: rest => return if c.isDigit then rest.dropWhile Char.isDigit else t
  | _ => return t

def afterZone? : Text → Option Text
  | 'Z' :: t => some t
  | 'z' :: t => some t
  | c :: t =>
    if c = '+' ∨ c = '-' then do
      let (_, t) ← ranged? 2 0 23 t
      let t ← mark? ':' t
      let (_, t) ← ranged? 2 0 59 t
      return t
    else none
  | [] => none

def afterDateTime? : Text → Option Text
  | c :: t =>
    if c = 'T' ∨ c = 't' ∨ c = ' ' then
      (afterTime? t).map fun rest => (afterZone? rest).getD rest
    else none
  | [] => none

def moment? (t : Text) : Option (Toml × Text) :=
  let rest? :=
    match afterDate? t with
    | some rest => some ((afterDateTime? rest).getD rest)
    | none => afterTime? t
  rest?.map fun rest => (.moment (t.take (t.length - rest.length)), rest)

def number? (t : Text) : Option (Toml × Text) :=
  match moment? t with
  | some read => some read
  | none =>
    match finite? t with
    | some read => some read
    | none =>
      match special? t with
      | some read => some read
      | none => integer? t

def boolean? (t : Text) : Option (Toml × Text) :=
  match Text.after? ['t', 'r', 'u', 'e'] t with
  | some rest => some (.boolean true, rest)
  | none =>
    (Text.after? ['f', 'a', 'l', 's', 'e'] t).map fun rest => (.boolean false, rest)

end Stencil.Toml
