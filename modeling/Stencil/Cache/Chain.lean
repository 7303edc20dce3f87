import Stencil.Artifact.Uses
import Stencil.Cache.Location
import Stencil.Template.Layout

/-!
# Chains

A document may name a layout, which may name a layout of its own.  A chain is a
page and the layouts that follow from it, up to the first that names none.

Reading takes time, and files may change meanwhile.  So a chain is read from a
disk that is given for each look: look `2 * i` finds the time of change of
document `i`, and look `2 * i + 1` its content.
-/

namespace Stencil

open Stencil.Template

/-- What each look at the disk finds. -/
abbrev Looks := Nat → FileSystem

structure Reading where
  name : Text
  document : Document
  modified : Option Int

namespace Reading

def take (c : Config) (disk : Looks) (i : Nat) (name : Text) (missing : Failure) :
    Except Failure Reading :=
  let path := c.sourceFile name
  match (disk (2 * i + 1)).readText path with
  | .ok source => .ok ⟨name, .ofSource source, (disk (2 * i)).modified? path⟩
  | .error .absent => .error missing
  | .error .unreadable => .error (.unreadable path)

/-- Reads on from the last document read, after those with the names `earlier`. -/
def follow (c : Config) (disk : Looks) :
    (fuel : Nat) → (earlier : List Text) → Reading → Except Failure (List Reading)
  | fuel, earlier, last =>
    match last.document.layout with
    | none => .ok [last]
    | some layout =>
      let names := earlier ++ [last.name]
      let missing : Failure := .layoutNotFound last.name layout (c.sourceFile layout)
      if layout ∈ names then .error (.cycle (names ++ [layout]))
      else if !isTemplateName layout then .error missing
      else
        match fuel with
        | 0 => .error (.unfinished layout)
        | fuel + 1 =>
          match take c disk names.length layout missing with
          | .error e => .error e
          | .ok next =>
            match follow c disk fuel names next with
            | .error e => .error e
            | .ok readings => .ok (last :: readings)

def chain (c : Config) (disk : Looks) (fuel : Nat) (name : Text) :
    Except Failure (List Reading) :=
  match take c disk 0 name (.templateNotFound name (c.sourceFile name)) with
  | .error e => .error e
  | .ok page => follow c disk fuel [] page

end Reading

/-! ## Building -/

structure Build where
  text : Text
  stamp : Option Int
deriving DecidableEq, Repr

namespace Build

def later : Option Int → Option Int → Option Int
  | some a, some b => some (max a b)
  | some a, none => some a
  | none, b => b

def latest (readings : List Reading) : Option Int :=
  readings.foldl (fun time reading => later time reading.modified) none

def ofChain (readings : List Reading) : Build where
  text := Artifact.header (readings.tail.map Reading.name) ++
    composeAll (readings.map Reading.document)
  stamp := latest readings

def onDisk (c : Config) (disk : Looks) (fuel : Nat) (name : Text) : Except Failure Build :=
  match Reading.chain c disk fuel name with
  | .ok readings => .ok (ofChain readings)
  | .error e => .error e

/-- Builds the artifact of a template from files that do not change.  The documents of a
chain are different files, so there are no more of them than there are entries. -/
def ofFiles (c : Config) (files : FileSystem) (name : Text) : Except Failure Build :=
  onDisk c (fun _ => files) files.entries.length name

end Build

end Stencil
