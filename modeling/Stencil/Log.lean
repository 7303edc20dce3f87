import Stencil.Storage.Path

/-!
# Log

What a verbose view reports, and the line that a report is written as: the kind
of the report in colour, and a message that is cut to fit the terminal.
-/

namespace Stencil

inductive Event where
  | compiled (name : Text) (artifact : Path)
  | warmed (templates : Nat)
  | cleared (artifacts : Nat)
  | rendered (name : Text) (bytes : Nat)
deriving DecidableEq, Repr

namespace Event

def kind : Event → Text
  | .compiled _ _ => "compile".toList
  | .warmed _ => "cache".toList
  | .cleared _ => "cache".toList
  | .rendered _ _ => "render".toList

def color : Event → Text
  | .compiled _ _ => "94".toList
  | .warmed _ => "92".toList
  | .cleared _ => "92".toList
  | .rendered _ _ => "96".toList

def message : Event → Text
  | .compiled name artifact => name ++ " -> ".toList ++ artifact.text
  | .warmed templates => "warmed ".toList ++ Text.ofNat templates ++ " templates".toList
  | .cleared artifacts => "cleared ".toList ++ Text.ofNat artifacts ++ " artifacts".toList
  | .rendered name bytes => name ++ " (".toList ++ Text.ofNat bytes ++ " bytes)".toList

def width : Nat := 120

/-- Brackets around the kind and a space after it. -/
def frame : Nat := 3

def escape : Char := Char.ofNat 27

/-- The message, cut to the room beside the kind; one with a line break is left whole. -/
def shown (e : Event) : Text :=
  if e.message.contains '\n' then e.message
  else Text.takeBytes (width - (Text.utf8Length e.kind + frame)) e.message

/-- The line of a report, with the code that clears the line before it. -/
def line (e : Event) : Text :=
  escape :: "[K".toList ++ escape :: "[1;".toList ++ e.color ++ "m[".toList ++
    e.kind ++ "]".toList ++ escape :: "[0m ".toList ++ e.shown ++ ['\n']

end Event

end Stencil
