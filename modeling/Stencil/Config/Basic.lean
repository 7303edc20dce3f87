import Stencil.Storage.FileSystem

/-!
# Configuration

Where templates and artifacts lie and how their files are named, what makes a
configuration valid, and what can be wrong with one.
-/

namespace Stencil

structure Config where
  viewRoot : Path
  cacheRoot : Path
  /-- What follows the dot of a template file. -/
  templateExtension : Text
  artifactExtension : Text
  verbose : Bool
deriving DecidableEq, Repr

namespace Config

def standard : Config where
  viewRoot := ⟨"resources/views".toList⟩
  cacheRoot := ⟨"storage/cache/views".toList⟩
  templateExtension := "tmpl".toList
  artifactExtension := "tmplc".toList
  verbose := false

/-! ## Fields -/

inductive Field where
  | viewRoot
  | cacheRoot
  | templateExtension
  | artifactExtension
  | verbose
deriving DecidableEq, Repr

namespace Field

def all : List Field := [.viewRoot, .cacheRoot, .templateExtension, .artifactExtension, .verbose]

def key : Field → Text
  | .viewRoot => "view_root".toList
  | .cacheRoot => "cache_root".toList
  | .templateExtension => "template_ext".toList
  | .artifactExtension => "artifact_ext".toList
  | .verbose => "verbose".toList

end Field

/-! ## Errors -/

inductive Objection where
  | empty
  | notBare (extension : Text)
  /-- Artifacts would be named as templates in the directory of the templates. -/
  | namedAsTemplates
  | noDirectory (path : Path)
deriving DecidableEq, Repr

def Objection.message : Objection → Text
  | .empty => "must not be empty".toList
  | .notBare extension => Text.ticked extension ++ " must be a bare extension like `tmpl`".toList
  | .namedAsTemplates =>
    "must differ from template_ext when both roots are the same directory".toList
  | .noDirectory path => Text.ticked path.text ++ " is not a directory".toList

end Config

inductive ConfigError where
  | unreadable (path : Path)
  | malformed
  | invalid (field : Config.Field) (objection : Config.Objection)
deriving DecidableEq, Repr

def ConfigError.message : ConfigError → Text
  | .unreadable path => "IO error when reading ".toList ++ Text.ticked path.text
  | .malformed => "Config file parsing error".toList
  | .invalid field objection =>
    "[view.".toList ++ field.key ++ "] ".toList ++ objection.message

namespace Config

/-! ## Validity -/

def isBare (extension : Text) : Bool :=
  extension.head? != some '.' && !extension.contains '/' && !extension.contains '\\'

def checkExtension (field : Field) (extension : Text) : Except ConfigError Unit :=
  if extension = [] then .error (.invalid field .empty)
  else if isBare extension then .ok ()
  else .error (.invalid field (.notBare extension))

def validate (c : Config) (files : FileSystem) : Except ConfigError Unit := do
  checkExtension .templateExtension c.templateExtension
  checkExtension .artifactExtension c.artifactExtension
  if c.viewRoot.same c.cacheRoot ∧ c.templateExtension = c.artifactExtension then
    throw (.invalid .artifactExtension .namedAsTemplates)
  if !files.isDirectory c.viewRoot then
    throw (.invalid .viewRoot (.noDirectory c.viewRoot))

/-! ## Absolute roots -/

/-- What is there is named without detours; any other path is only made absolute. -/
def settle (files : FileSystem) (p : Path) : Path :=
  match files.canonical? p with
  | some q => q
  | none => files.absolute p

def withRoot (c : Config) (files : FileSystem) (root : Path) : Config :=
  { c with
    viewRoot := settle files (root.join c.viewRoot)
    cacheRoot := settle files (root.join c.cacheRoot) }

end Config

end Stencil
