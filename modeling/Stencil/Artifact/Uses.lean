import Stencil.Artifact.Item

/-!
# Recorded layouts

An artifact starts with one `uses` instruction for each layout that it was made
from.  The record ends at the first fragment that is none.
-/

namespace Stencil.Artifact

open Stencil.Template

def usedLayout? (f : Fragment) : Option Text :=
  match f.kind with
  | .instruction body =>
    match Text.after? (usesWord ++ [' ']) (Text.trim body) with
    | some argument => quotedName? (Text.trim argument)
    | none => none
  | _ => none

def leadingLayouts : List Fragment → List Text
  | [] => []
  | f :: fragments =>
    match usedLayout? f with
    | some name => name :: leadingLayouts fragments
    | none => []

def dependencies (artifact : Text) : List Text := leadingLayouts (Fragment.ofText artifact)

def header (layouts : List Text) : Text :=
  layouts.flatMap fun name => instructionText (withArgument usesWord (Quoted.quote name))

end Stencil.Artifact
