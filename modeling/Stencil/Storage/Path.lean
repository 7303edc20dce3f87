import Stencil.Text.Basic

/-!
# Paths

A path is kept as it was written, since that is how it is reported.  It is read
as parts between slashes.  Two paths are the same if their parts are: repeated
and trailing slashes do not count, and neither does a `.` after the first part.
-/

namespace Stencil

structure Path where
  text : Text
deriving DecidableEq, Repr

namespace Path

def slash : Char := '/'

def here : Text := ['.']

def up : Text := ['.', '.']

def isAbsolute (p : Path) : Bool := p.text.head? == some slash

def endsInSlash (p : Path) : Bool := p.text.getLast? == some slash

/-- The second path as seen from the first; an absolute one is seen from nowhere. -/
def join (p q : Path) : Path :=
  if q.isAbsolute || p.text.isEmpty then q
  else if p.endsInSlash then ⟨p.text ++ q.text⟩
  else ⟨p.text ++ slash :: q.text⟩

def along (p : Path) (way : List Text) : Path := way.foldl (fun p name => p.join ⟨name⟩) p

def pieces (p : Path) : List Text := (Text.splitOn slash p.text).filter (· ≠ [])

/-- The parts that count: a `.` does only at the start of a relative path. -/
def parts (p : Path) : List Text :=
  match p.pieces with
  | [] => []
  | first :: rest =>
    if first = here ∧ p.isAbsolute then rest.filter (· ≠ here)
    else first :: rest.filter (· ≠ here)

def same (p q : Path) : Bool := p.isAbsolute == q.isAbsolute && p.parts == q.parts

/-- The steps of a walk along the path; after a slash at its end one stays where one is. -/
def steps (p : Path) : List Text := if p.endsInSlash then p.pieces ++ [here] else p.pieces

end Path

/-! ## File names -/

namespace FileName

/-- The longest file name, in bytes. -/
def limit : Nat := 255

/-- A file name split at its last dot, unless nothing stands before that. -/
def split? (name : Text) : Option (Text × Text) :=
  match name.reverse.dropWhile (· ≠ '.') with
  | '.' :: c :: stem => some ((c :: stem).reverse, (name.reverse.takeWhile (· ≠ '.')).reverse)
  | _ => none

theorem eq_of_split? {name stem extension : Text} (h : split? name = some (stem, extension)) :
    name = stem ++ '.' :: extension := by
  unfold split? at h
  split at h
  · next c rest hd =>
    simp only [Option.some.injEq, Prod.mk.injEq] at h
    obtain ⟨rfl, rfl⟩ := h
    have joined :=
      List.takeWhile_append_dropWhile (p := fun c => decide (c ≠ '.')) (l := name.reverse)
    rw [hd] at joined
    have := congrArg List.reverse joined
    simpa using this.symm
  · simp at h

end FileName

end Stencil
