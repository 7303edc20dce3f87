import Stencil.Text.Quoted
import Stencil.Value.Basic

/-!
# Variables

A variable is a name after a dollar sign, followed by accessors: `.name`,
`.digits`, `['key']` or `[digits]`.  Scanning takes as many accessors as it can.
-/

namespace Stencil

/-! ## Identifiers and positions -/

def isIdentStart (c : Char) : Bool := c.isAlpha || c == '_'

def isIdentPart (c : Char) : Bool := c.isAlphanum || c == '_'

def identifier? : Text → Option (Text × Text)
  | [] => none
  | c :: t =>
    if isIdentStart c then some (c :: t.takeWhile isIdentPart, t.dropWhile isIdentPart)
    else none

theorem eq_of_identifier? {t name rest : Text} (h : identifier? t = some (name, rest)) :
    t = name ++ rest := by
  cases t with
  | nil => simp [identifier?] at h
  | cons c t =>
    simp only [identifier?] at h
    split at h
    · simp only [Option.some.injEq, Prod.mk.injEq] at h
      obtain ⟨rfl, rfl⟩ := h
      simp
    · simp at h

/-- Positions are numbers of 64 bits. -/
def position? (digits : Text) : Option Nat :=
  let n := Text.natOfDigits digits
  if digits ≠ [] ∧ n < 0x10000000000000000 then some n else none

/-- The position that a key names: digits, with or without a plus sign. -/
def keyPosition? (key : Text) : Option Nat :=
  let digits := match key with
    | '+' :: rest => rest
    | rest => rest
  if digits.all Char.isDigit then position? digits else none

/-! ## Accessors -/

inductive Accessor where
  | key (name : Text)
  | index (position : Nat)
deriving DecidableEq, Repr

namespace Accessor

def dotted? (t : Text) : Option (Accessor × Text) :=
  match identifier? t with
  | some (name, rest) => some (.key name, rest)
  | none =>
    (position? (t.takeWhile Char.isDigit)).map fun n =>
      (.index n, t.dropWhile Char.isDigit)

def bracketed? (t : Text) : Option (Accessor × Text) :=
  match inner? (Text.trimStart t) with
  | some (accessor, rest) =>
    (Text.after? [']'] (Text.trimStart rest)).map fun rest => (accessor, rest)
  | none => none
where
  inner? (t : Text) : Option (Accessor × Text) :=
    match Quoted.read? t with
    | some (name, rest) => some (.key name, rest)
    | none =>
      (position? (t.takeWhile Char.isDigit)).map fun n =>
        (.index n, t.dropWhile Char.isDigit)

def scan? : Text → Option (Accessor × Text)
  | '.' :: t => dotted? t
  | '[' :: t => bracketed? t
  | _ => none

theorem length_of_dotted? {t rest : Text} {a : Accessor} (h : dotted? t = some (a, rest)) :
    rest.length ≤ t.length := by
  unfold dotted? at h
  split at h
  · next name r hi =>
    simp only [Option.some.injEq, Prod.mk.injEq] at h
    obtain ⟨-, rfl⟩ := h
    simp [eq_of_identifier? hi]
  · obtain ⟨n, -, h⟩ := Option.map_eq_some_iff.1 h
    simp only [Prod.mk.injEq] at h
    obtain ⟨-, rfl⟩ := h
    exact Text.length_dropWhile_le _ _

theorem length_of_inner? {t rest : Text} {a : Accessor}
    (h : bracketed?.inner? t = some (a, rest)) : rest.length ≤ t.length := by
  unfold bracketed?.inner? at h
  split at h
  · next name r hq =>
    simp only [Option.some.injEq, Prod.mk.injEq] at h
    obtain ⟨-, rfl⟩ := h
    exact Nat.le_of_lt (Quoted.length_of_read? hq)
  · obtain ⟨n, -, h⟩ := Option.map_eq_some_iff.1 h
    simp only [Prod.mk.injEq] at h
    obtain ⟨-, rfl⟩ := h
    exact Text.length_dropWhile_le _ _

theorem length_of_bracketed? {t rest : Text} {a : Accessor}
    (h : bracketed? t = some (a, rest)) : rest.length ≤ t.length := by
  unfold bracketed? at h
  split at h
  · next b r hi =>
    obtain ⟨r', hr, h⟩ := Option.map_eq_some_iff.1 h
    simp only [Prod.mk.injEq] at h
    obtain ⟨-, rfl⟩ := h
    have h₁ := length_of_inner? hi
    have h₂ := Text.length_trimStart_le t
    have h₃ := Text.length_trimStart_le r
    have h₄ := congrArg List.length (Text.after?_eq_some_iff.1 hr)
    simp at h₄
    omega
  · simp at h

theorem length_of_scan? {t rest : Text} {a : Accessor} (h : scan? t = some (a, rest)) :
    rest.length < t.length := by
  unfold scan? at h
  split at h
  · exact Nat.lt_succ_of_le (length_of_dotted? h)
  · exact Nat.lt_succ_of_le (length_of_bracketed? h)
  · simp at h

def scanAll (t : Text) : List Accessor × Text :=
  match h : scan? t with
  | none => ([], t)
  | some (accessor, rest) =>
    have : rest.length < t.length := length_of_scan? h
    let (more, rest) := scanAll rest
    (accessor :: more, rest)
termination_by t.length

/--
Keys select the fields of objects and, when they name a position, the items of
arrays; indices select items and the fields of that name.
-/
def select? : Accessor → Value → Option Value
  | .key name, .object fields => List.lookup name fields
  | .key name, .array items => (keyPosition? name).bind (items[·]?)
  | .index n, .array items => items[n]?
  | .index n, .object fields => List.lookup (Text.ofNat n) fields
  | _, _ => none

end Accessor

/-! ## Variables -/

structure Variable where
  root : Text
  accessors : List Accessor
deriving DecidableEq, Repr

abbrev Lookup := Text → Option Value

namespace Variable

def scan? : Text → Option (Variable × Text)
  | '$' :: t =>
    (identifier? t).map fun (root, rest) =>
      let (accessors, rest) := Accessor.scanAll rest
      (⟨root, accessors⟩, rest)
  | _ => none

def resolve? (v : Variable) (lookup : Lookup) : Option Value :=
  (lookup v.root).bind fun value => v.accessors.foldlM (fun value a => a.select? value) value

def isPlain (v : Variable) : Bool := v.accessors.isEmpty

/-! ## Written form -/

def writeAccessor : Accessor → Text
  | .key name => '[' :: Quoted.quote name ++ [']']
  | .index n => '[' :: Text.ofNat n ++ [']']

def write (v : Variable) : Text := '$' :: v.root ++ v.accessors.flatMap writeAccessor

end Variable

end Stencil
