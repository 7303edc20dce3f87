import Stencil.Template.Fragment

/-!
# Compilation

Compilation writes instructions for directives and drops comments.  Text and
instructions are copied, and the directives that join templates stay as they
are, to be resolved when the templates are joined.
-/

namespace Stencil.Template

def instructionText (content : Text) : Text :=
  instructionOpen ++ ' ' :: content ++ ' ' :: instructionClose

def withArgument (word argument : Text) : Text := word ++ ' ' :: argument

namespace Directive

/-- What an instruction for the directive contains; `none` for one that joins templates. -/
def content? : Directive → Option Text
  | .echo argument => some (withArgument ['e', 'c', 'h', 'o'] argument)
  | .ifStart condition => some (withArgument Keyword.ifStart.spelling condition)
  | .elseIf condition => some (withArgument Keyword.elseIf.spelling condition)
  | .otherwise => some Keyword.otherwise.spelling
  | .ifEnd => some Keyword.ifEnd.spelling
  | .loopStart head => some (withArgument Keyword.loopStart.spelling head)
  | .loopEnd => some Keyword.loopEnd.spelling
  | .embed name => some (withArgument Keyword.embed.spelling (Quoted.quote name))
  | .inherit _ | .sectionStart _ _ | .sectionEnd | .slot _ _ => none

theorem content?_isNone (d : Directive) : d.content?.isNone = d.isInheritance := by
  cases d <;> rfl

end Directive

def Fragment.compiled (f : Fragment) : Text :=
  match f.kind with
  | .text => f.raw
  | .instruction _ => f.raw
  | .comment => []
  | .directive d =>
    match d.content? with
    | some content => instructionText content
    | none => f.raw

/-- The artifact text of a template source.  Every source has one. -/
def compile (source : Text) : Text := (Fragment.ofText source).flatMap Fragment.compiled

end Stencil.Template
