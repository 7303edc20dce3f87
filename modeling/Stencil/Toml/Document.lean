import Stencil.Toml.Scalar

/-!
# TOML documents

The statements of a document, and the table that they make up.
-/

namespace Stencil.Toml

/-- Keys have fewer parts, and values are nested less deep. -/
def limit : Nat := 80

/-! ## Lists -/

def separated {α : Type} (mark : Char) (item : Text → Option (α × Text)) :
    (bound : Nat) → Text → List α × Text
  | 0, t => ([], t)
  | bound + 1, t =>
    match item t with
    | none => ([], t)
    | some (a, rest) =>
      match mark? mark rest with
      | none => ([a], rest)
      | some after =>
        match separated mark item bound after with
        | ([], _) => ([a], rest)
        | (items, rest) => (a :: items, rest)

/-! ## Keys -/

def isKeyChar (c : Char) : Bool := c.isAlphanum || c == '_' || c == '-'

def keyPart? (t : Text) : Option (Text × Text) :=
  let t := dropBlanks t
  let part? :=
    match lineString? t with
    | some read => some read
    | none =>
      match t.takeWhile isKeyChar with
      | [] => none
      | bare => some (bare, t.dropWhile isKeyChar)
  part?.map fun (part, rest) => (part, dropBlanks rest)

def key? (t : Text) : Option ((List Text × Text) × Text) :=
  let (parts, rest) := separated '.' keyPart? limit t
  match parts.getLast? with
  | some last => if parts.length < limit then some ((parts.dropLast, last), rest) else none
  | none => none

/-! ## Values -/

/-- Drops blanks, line breaks and comments; `inComment` until the end of the line. -/
def dropLayout (inComment : Bool) : Text → Text
  | '\r' :: '\n' :: t => dropLayout false t
  | c :: t =>
    if c = '\n' then dropLayout false t
    else if inComment then if isLineChar c then dropLayout true t else c :: t
    else if isBlank c then dropLayout false t
    else if c = '#' then dropLayout true t
    else c :: t
  | [] => []

def pair? (value : Text → Option (Toml × Text)) (t : Text) :
    Option ((List Text × Text × Toml) × Text) := do
  let ((outer, key), rest) ← key? t
  let rest ← mark? '=' rest
  let (v, rest) ← value (dropBlanks rest)
  return ((outer, key, v), dropBlanks rest)

def array? (value : Text → Option (Toml × Text)) (t : Text) : Option (Toml × Text) :=
  let item (t : Text) : Option (Toml × Text) :=
    (value (dropLayout false t)).map fun (v, rest) => (v, dropLayout false rest)
  let (items, rest) := separated ',' item t.length t
  let rest := if items.isEmpty then rest else (mark? ',' rest).getD rest
  (mark? ']' (dropLayout false rest)).map fun rest => (.array items, rest)

def inline? (value : Text → Option (Toml × Text)) (t : Text) : Option (Toml × Text) := do
  let (pairs, rest) := separated ',' (pair? value) t.length t
  let fields ← ofPairs pairs []
  let rest ← mark? '\x7d' (dropBlanks rest)
  return (.inline fields, rest)

def value? : (depth : Nat) → Text → Option (Toml × Text)
  | _, [] => none
  | depth, c :: t =>
    if c = '"' ∨ c = '\'' then (string? (c :: t)).map fun (s, rest) => (.string s, rest)
    else if c = '[' then
      match depth with
      | 0 => none
      | depth + 1 => array? (value? depth) t
    else if c = '\x7b' then
      match depth with
      | 0 => none
      | depth + 1 => inline? (value? depth) t
    else if c = 't' ∨ c = 'f' then boolean? (c :: t)
    else number? (c :: t)

/-! ## Statements -/

def afterLine? (t : Text) : Option Text :=
  let rest :=
    match dropBlanks t with
    | '#' :: t => t.dropWhile isLineChar
    | t => t
  if rest = [] then some [] else afterBreak? rest

def statement? : Text → Option (Statement × Text)
  | '[' :: '[' :: t => do
    let ((outer, key), rest) ← key? t
    let rest ← Text.after? [']', ']'] rest
    return (.element outer key, rest)
  | '[' :: t => do
    let ((outer, key), rest) ← key? t
    let rest ← mark? ']' rest
    return (.header outer key, rest)
  | t => do
    let ((outer, key, value), rest) ← pair? (value? (limit - 1)) t
    return (.field outer key value, rest)

def statements? : (lines : Nat) → Text → Option (List Statement)
  | 0, _ => none
  | lines + 1, t =>
    let t := dropBlanks t
    if t = [] then some []
    else
      match afterLine? t with
      | some rest => statements? lines rest
      | none => do
        let (statement, rest) ← statement? t
        let rest ← afterLine? rest
        let statements ← statements? lines rest
        return statement :: statements

/-- A mark of the encoding at the start of a text does not count. -/
def dropMark : Text → Text
  | c :: t => if c = Char.ofNat 0xFEFF then t else c :: t
  | [] => []

def read? (document : Text) : Option Fields := do
  let statements ← statements? (document.length + 1) (dropMark document)
  build [] statements []

end Stencil.Toml
