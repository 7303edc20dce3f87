import Stencil.Storage.FileSystem

/-!
# Edits

Changes to files by their paths, as the people who write templates make them.
-/

namespace Stencil

/-- The path of the directory around what a path leads to.  A `.` at the end of either does
not count. -/
def Path.outer (p : Path) : Path :=
  let around := (p.pieces.reverse.dropWhile (· = here)).tail.dropWhile (· = here)
  ⟨(if p.isAbsolute then [slash] else []) ++ Text.join [slash] around.reverse⟩

namespace FileSystem

def tick (fs : FileSystem) : FileSystem := { fs with now := fs.now + 1 }

def save (fs : FileSystem) (p : Path) (bytes : ByteArray) (modified : Option Int) : FileSystem :=
  let made := fs.makeDirectories p.outer
  (made.write? p bytes (modified.getD fs.now)).getD made

def touch (fs : FileSystem) (p : Path) (modified : Int) : FileSystem :=
  match (fs.find? p).bind Entry.bytes? with
  | some bytes => (fs.write? p bytes modified).getD fs
  | none => fs

def removeIf? (fs : FileSystem) (p : Path) (expected : Entry → Bool) : Option FileSystem :=
  match fs.walk p with
  | .error _ => none
  | .ok place => if (fs.at? place).any expected then some (fs.remove place) else none

def removeFile? (fs : FileSystem) (p : Path) : Option FileSystem := fs.removeIf? p Entry.isFile

def removeTree? (fs : FileSystem) (p : Path) : Option FileSystem :=
  fs.removeIf? p Entry.isDirectory

def names (fs : FileSystem) (p : Path) : List Text :=
  match fs.walk p with
  | .error _ => []
  | .ok place => ((fs.children place).map Prod.fst).mergeSort fun a b => (compare a b).isLE

end FileSystem

end Stencil
