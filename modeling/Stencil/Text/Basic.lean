/-!
# Text

Templates, artifacts, names and data strings are lists of characters.  Scanners
read a prefix and hand back what is left, so that every position in a text is a
remainder.  Only reported offsets and lengths count bytes of the UTF-8 form.
-/

namespace Stencil

abbrev Text := List Char

-- one name for it, wherever membership among texts is decided
instance : LawfulBEq Text := inferInstance

namespace Text

/-! ## Byte lengths -/

def utf8Length : Text → Nat
  | [] => 0
  | c :: t => c.utf8Size + utf8Length t

@[simp] theorem utf8Length_nil : utf8Length [] = 0 := rfl

@[simp] theorem utf8Length_cons (c : Char) (t : Text) :
    utf8Length (c :: t) = c.utf8Size + utf8Length t := rfl

@[simp] theorem utf8Length_append (s t : Text) :
    utf8Length (s ++ t) = utf8Length s + utf8Length t := by
  induction s with
  | nil => simp
  | cons c s ih => simp [ih, Nat.add_assoc]

def bytes (t : Text) : List UInt8 := t.flatMap String.utf8EncodeChar

def ofBytes? (content : ByteArray) : Option Text := content.utf8Decode?.map Array.toList

theorem ofBytes?_bytes (t : Text) : ofBytes? (bytes t).toByteArray = some t := by
  have encoded : (bytes t).toByteArray = t.utf8Encode := by simp [bytes, List.utf8Encode]
  rw [ofBytes?, encoded, List.utf8Decode?_utf8Encode]
  simp

/-- The longest prefix of whole characters that fits in `limit` bytes. -/
def takeBytes : Nat → Text → Text
  | _, [] => []
  | limit, c :: t =>
    if c.utf8Size ≤ limit then c :: takeBytes (limit - c.utf8Size) t else []

/-! ## White space -/

/-- The Unicode property `White_Space`. -/
def isWhite (c : Char) : Bool :=
  (9 ≤ c.toNat && c.toNat ≤ 13) || c.toNat == 0x20 || c.toNat == 0x85 || c.toNat == 0xA0 ||
  c.toNat == 0x1680 || (0x2000 ≤ c.toNat && c.toNat ≤ 0x200A) || c.toNat == 0x2028 ||
  c.toNat == 0x2029 || c.toNat == 0x202F || c.toNat == 0x205F || c.toNat == 0x3000

def trimStart (t : Text) : Text := t.dropWhile isWhite

def trimEnd (t : Text) : Text := (t.reverse.dropWhile isWhite).reverse

def trim (t : Text) : Text := trimEnd (trimStart t)

theorem length_dropWhile_le (p : Char → Bool) (t : Text) :
    (t.dropWhile p).length ≤ t.length :=
  (List.dropWhile_sublist p).length_le

theorem length_trimStart_le (t : Text) : (trimStart t).length ≤ t.length :=
  length_dropWhile_le _ t

/-! ## Literal prefixes -/

def after? : Text → Text → Option Text
  | [], t => some t
  | _ :: _, [] => none
  | p :: lead, c :: t => if p = c then after? lead t else none

theorem after?_eq_some_iff {lead t rest : Text} :
    after? lead t = some rest ↔ t = lead ++ rest := by
  induction lead generalizing t with
  | nil => simp [after?]
  | cons p lead ih =>
    cases t with
    | nil => simp [after?]
    | cons c t =>
      by_cases h : p = c
      · simp [after?, h, ih]
      · simp [after?, h, Ne.symm h]

@[simp] theorem after?_append (lead rest : Text) : after? lead (lead ++ rest) = some rest :=
  after?_eq_some_iff.2 rfl

def splitAt? (mark : Text) : Text → Option (Text × Text)
  | [] => (after? mark []).map fun rest => ([], rest)
  | c :: t =>
    match after? mark (c :: t) with
    | some rest => some ([], rest)
    | none => (splitAt? mark t).map fun (before, rest) => (c :: before, rest)

theorem eq_of_splitAt? {mark t before rest : Text} (h : splitAt? mark t = some (before, rest)) :
    t = before ++ mark ++ rest := by
  induction t generalizing before with
  | nil =>
    simp only [splitAt?, Option.map_eq_some_iff, Prod.mk.injEq] at h
    obtain ⟨_, h, rfl, rfl⟩ := h
    simpa using after?_eq_some_iff.1 h
  | cons c t ih =>
    unfold splitAt? at h
    split at h
    · next r hr =>
      simp only [Option.some.injEq, Prod.mk.injEq] at h
      obtain ⟨rfl, rfl⟩ := h
      simpa using after?_eq_some_iff.1 hr
    · simp only [Option.map_eq_some_iff, Prod.mk.injEq, Prod.exists] at h
      obtain ⟨b, r, hb, rfl, rfl⟩ := h
      simp [ih hb]

/-! ## Lists of texts -/

def join (separator : Text) : List Text → Text
  | [] => []
  | [t] => t
  | t :: rest => t ++ separator ++ join separator rest

/-- The parts between occurrences of `mark`: one more than there are marks. -/
def splitOn (mark : Char) : Text → List Text
  | [] => [[]]
  | c :: t =>
    if c = mark then [] :: splitOn mark t
    else
      match splitOn mark t with
      | [] => [[c]]
      | part :: parts => (c :: part) :: parts

theorem splitOn_ne_nil (mark : Char) (t : Text) : splitOn mark t ≠ [] := by
  cases t with
  | nil => simp [splitOn]
  | cons c t =>
    unfold splitOn
    split
    · simp
    · split <;> simp

def ticked (t : Text) : Text := "`".toList ++ t ++ "`".toList

/-! ## Decimal numerals -/

def ofNat (n : Nat) : Text := Nat.toDigits 10 n

def ofInt : Int → Text
  | .ofNat n => ofNat n
  | .negSucc n => '-' :: ofNat (n + 1)

def natOfDigits (digits : Text) : Nat :=
  digits.foldl (fun n c => n * 10 + (c.toNat - '0'.toNat)) 0

/-- A signed decimal numeral: an optional sign and at least one digit. -/
def int? : Text → Option Int
  | '+' :: t => nat? t |>.map Int.ofNat
  | '-' :: t => nat? t |>.map fun n => -(n : Int)
  | t => nat? t |>.map Int.ofNat
where
  nat? (t : Text) : Option Nat :=
    if t ≠ [] ∧ t.all Char.isDigit then some (natOfDigits t) else none

end Text

end Stencil
