import Stencil.Expr.Interpolation

/-!
# Directives

The directives of a template.  A directive is built from its arguments only if
they are well formed; all else stays text.
-/

namespace Stencil.Template

inductive Directive where
  /-- Prints a variable; holds the trimmed argument. -/
  | echo (argument : Text)
  | ifStart (condition : Text)
  | elseIf (condition : Text)
  | otherwise
  | ifEnd
  | loopStart (head : Text)
  | loopEnd
  | embed (name : Text)
  | inherit (layout : Text)
  /-- Starts a section; one with a value in place ends by itself. -/
  | sectionStart (name : Text) (inline : Option Text)
  | sectionEnd
  | slot (name : Text) (fallback : Option Text)
deriving DecidableEq, Repr

namespace Directive

/-- Directives that join templates; they are left in place by compilation. -/
def isInheritance : Directive → Bool
  | .inherit _ | .sectionStart _ _ | .sectionEnd | .slot _ _ => true
  | _ => false

def echo? (argument : Text) : Option Directive :=
  match Interpolation.parse argument with
  | .ok _ => some (.echo (Text.trim argument))
  | .error _ => none

end Directive

/-! ## Keywords -/

inductive Keyword where
  | ifStart
  | elseIf
  | otherwise
  | ifEnd
  | loopStart
  | loopEnd
  | embed
  | inherit
  | sectionStart
  | sectionEnd
  | slot
deriving DecidableEq, Repr

namespace Keyword

def all : List Keyword :=
  [.ifStart, .elseIf, .otherwise, .ifEnd, .loopStart, .loopEnd, .embed, .inherit,
    .sectionStart, .sectionEnd, .slot]

def spelling : Keyword → Text
  | .ifStart => ['i', 'f']
  | .elseIf => ['e', 'l', 's', 'e', 'i', 'f']
  | .otherwise => ['e', 'l', 's', 'e']
  | .ifEnd => ['e', 'n', 'd', 'i', 'f']
  | .loopStart => ['f', 'o', 'r', 'e', 'a', 'c', 'h']
  | .loopEnd => ['e', 'n', 'd', 'f', 'o', 'r', 'e', 'a', 'c', 'h']
  | .embed => ['i', 'n', 'c', 'l', 'u', 'd', 'e']
  | .inherit => ['e', 'x', 't', 'e', 'n', 'd', 's']
  | .sectionStart => ['s', 'e', 'c', 't', 'i', 'o', 'n']
  | .sectionEnd => ['e', 'n', 'd', 's', 'e', 'c', 't', 'i', 'o', 'n']
  | .slot => ['y', 'i', 'e', 'l', 'd']

def ofWord? (word : Text) : Option Keyword := all.find? fun k => k.spelling == word

@[simp] theorem ofWord?_spelling (k : Keyword) : ofWord? k.spelling = some k := by
  cases k <;> decide

theorem spelling_of_ofWord? {word : Text} {k : Keyword} (h : ofWord? word = some k) :
    k.spelling = word := by
  simpa using List.find?_some h

def takesArguments : Keyword → Bool
  | .otherwise | .ifEnd | .loopEnd | .sectionEnd => false
  | _ => true

def name? (arguments : Text) : Option Text :=
  match Quoted.list? arguments with
  | some [name] => if name = [] then none else some name
  | _ => none

def nameAndValue? (arguments : Text) : Option (Text × Option Text) :=
  match Quoted.list? arguments with
  | some [name] => if name = [] then none else some (name, none)
  | some [name, value] => if name = [] then none else some (name, some value)
  | _ => none

def directive? (k : Keyword) (arguments : Text) : Option Directive :=
  let trimmed := Text.trim arguments
  match k with
  | .ifStart =>
    match Expr.parse trimmed with
    | .ok _ => some (.ifStart trimmed)
    | .error _ => none
  | .elseIf =>
    match Expr.parse trimmed with
    | .ok _ => some (.elseIf trimmed)
    | .error _ => none
  | .loopStart =>
    match LoopHead.parse trimmed with
    | .ok _ => some (.loopStart trimmed)
    | .error _ => none
  | .embed => (name? arguments).map .embed
  | .inherit => (name? arguments).map .inherit
  | .sectionStart => (nameAndValue? arguments).map fun (name, value) => .sectionStart name value
  | .slot => (nameAndValue? arguments).map fun (name, value) => .slot name value
  | .otherwise => some .otherwise
  | .ifEnd => some .ifEnd
  | .loopEnd => some .loopEnd
  | .sectionEnd => some .sectionEnd

end Keyword

end Stencil.Template
