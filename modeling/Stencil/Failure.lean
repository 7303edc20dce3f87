import Stencil.Artifact.Item
import Stencil.Config.Basic
import Stencil.Value.Json

/-!
# Failures

Why a template cannot be compiled, kept or rendered.
-/

namespace Stencil

inductive Failure where
  | templateNotFound (name : Text) (path : Path)
  /-- `name` extends the layout. -/
  | layoutNotFound (name layout : Text) (path : Path)
  | writeFailed (path : Path)
  /-- Templates each of which refers to the next; the last one is an earlier one. -/
  | cycle (chain : List Text)
  | unreadable (path : Path)
  | malformed (name : Text) (fault : Artifact.Fault)
  | invalidData (value : Value)
  | badConfig (cause : ConfigError)
  | notInstalled
  | alreadyInstalled
  /-- The bound on a search was too low for it to end. -/
  | unfinished (name : Text)

namespace Failure

def message : Failure → Text
  | .templateNotFound name path =>
    "template ".toList ++ Text.ticked name ++ " not found at ".toList ++ Text.ticked path.text
  | .layoutNotFound name layout path =>
    "layout ".toList ++ Text.ticked layout ++ " extended by ".toList ++ Text.ticked name ++
      " not found at ".toList ++ Text.ticked path.text
  | .writeFailed path =>
    "failed to write compiled template to ".toList ++ Text.ticked path.text
  | .cycle chain => "include cycle: ".toList ++ Text.join " -> ".toList chain
  | .unreadable path => "IO error when reading ".toList ++ Text.ticked path.text
  | .malformed name fault =>
    "invalid compiled template ".toList ++ Text.ticked name ++ ": ".toList ++ fault.message
  | .invalidData value =>
    "render data must serialize to a map: got ".toList ++ Text.ticked value.json
  | .badConfig _ => "invalid view configuration".toList
  | .notInstalled => "view engine is not initialized, call `elle::init` first".toList
  | .alreadyInstalled => "view engine is already initialized".toList
  | .unfinished name => "template ".toList ++ Text.ticked name ++ " leads on without end".toList

end Failure

def Value.context : Value → Except Failure Context
  | .object fields => .ok fields
  | .null => .ok []
  | value => .error (.invalidData value)

end Stencil
