import Stencil.Digest.Blake3
import Stencil.Text.Hex
import Stencil.Failure

/-!
# Locations

Where the source and the artifact of a template lie.  A template name is a
relative path of names with slashes between them, so no name leads out of the
directory of the templates.
-/

namespace Stencil

/-- Names of templates: parts with slashes between them, none of which is empty or leads
elsewhere, and no backslash. -/
def isTemplateName (name : Text) : Bool :=
  !name.contains '\\' &&
    (Text.splitOn Path.slash name).all fun part =>
      part != [] && part != Path.here && part != Path.up

namespace Config

/-- The source file of a name, whether or not it may be one of a template. -/
def sourceFile (c : Config) (name : Text) : Path :=
  c.viewRoot.join ⟨name ++ '.' :: c.templateExtension⟩

def sourcePath (c : Config) (name : Text) : Except Failure Path :=
  if isTemplateName name then .ok (c.sourceFile name)
  else .error (.templateNotFound name (c.sourceFile name))

def artifactKey (name : Text) : Text := Hex.encode (Blake3.hash (Text.bytes name))

def artifactPath (c : Config) (name : Text) : Path :=
  c.cacheRoot.join ⟨artifactKey name ++ '.' :: c.artifactExtension⟩

/-- The template whose source has the given names on the way to it from the view root. -/
def templateOf? (c : Config) (way : List Text) : Option Text :=
  match way.reverse with
  | [] => none
  | file :: outer =>
    match FileName.split? file with
    | none => none
    | some (stem, extension) =>
      let name := Text.join [Path.slash] (stem :: outer).reverse
      if extension = c.templateExtension ∧ isTemplateName name then some name else none

/-- A directory below the view root is looked into by its path, which has to be short enough. -/
def isListed (c : Config) (way : List Text) : Bool :=
  Text.utf8Length (c.viewRoot.along way.dropLast).text ≤ FileSystem.pathLimit

def templates (c : Config) (files : FileSystem) : List Text :=
  match files.walk c.viewRoot with
  | .ok place => ((files.filesBelow place).filter c.isListed).filterMap c.templateOf?
  | .error _ => []

end Config

theorem length_artifactKey (name : Text) : (Config.artifactKey name).length = 64 := by
  simp [Config.artifactKey, Hex.length_encode, Blake3.length_hash]

end Stencil
