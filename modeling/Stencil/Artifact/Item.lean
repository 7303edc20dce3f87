import Stencil.Template.Compile

/-!
# Items of an artifact

An artifact is literal text with instructions in it.  An instruction is a word
and an argument, and becomes an item once its argument is read.
-/

namespace Stencil.Artifact

open Stencil.Template

inductive Piece where
  | text (t : Text)
  | instruction (word argument : Text)
deriving DecidableEq, Repr

inductive Item where
  | text (t : Text)
  | echo (interpolation : Interpolation)
  | ifStart (condition : Expr)
  | elseIf (condition : Expr)
  | otherwise
  | ifEnd
  | loopStart (head : LoopHead)
  | loopEnd
  | embed (name : Text)
  | uses (name : Text)

inductive Fault where
  | badArgument (word argument : Text) (cause : ExprError)
  | badName (word argument : Text)
  | unknownWord (word : Text)
  | strayWord (word : Text)
  | inLoop (word : Text)
  | afterElse (word : Text)
  | loopEndInIf
  | openIf
  | openLoop

def Fault.message : Fault → Text
  | .badArgument word argument cause =>
    Text.ticked (word ++ ' ' :: argument) ++ ": ".toList ++ cause.message
  | .badName word argument =>
    Text.ticked word ++ " expects a quoted template name, got ".toList ++ Text.ticked argument
  | .unknownWord word => "unknown instruction ".toList ++ Text.ticked word
  | .strayWord word => "unexpected ".toList ++ Text.ticked word
  | .inLoop word => "unexpected ".toList ++ Text.ticked word ++ " in foreach".toList
  | .afterElse word => "unexpected ".toList ++ Text.ticked word ++ " after else".toList
  | .loopEndInIf => "unexpected `endforeach` in if".toList
  | .openIf => "unterminated `if`".toList
  | .openLoop => "unterminated `foreach`".toList

/-! ## Pieces -/

namespace Piece

/-- The word of an instruction ends at the first white space. -/
def ofBody (body : Text) : Piece :=
  let body := Text.trim body
  .instruction (body.takeWhile fun c => !Text.isWhite c)
    (Text.trim (body.dropWhile fun c => !Text.isWhite c))

def ofFragment (f : Fragment) : Piece :=
  match f.kind with
  | .instruction body => ofBody body
  | _ => .text f.raw

def ofText (artifact : Text) : List Piece := (Fragment.ofText artifact).map ofFragment

end Piece

/-! ## Items -/

def echoWord : Text := ['e', 'c', 'h', 'o']

def usesWord : Text := ['u', 's', 'e', 's']

/-- An argument that is one literal, which is not empty. -/
def quotedName? (argument : Text) : Option Text :=
  match Quoted.read? argument with
  | some (name, []) => if name = [] then none else some name
  | _ => none

def quotedName (word argument : Text) : Except Fault Text :=
  match quotedName? argument with
  | some name => .ok name
  | none => .error (.badName word argument)

def argumentOf {α : Type} (parse : Text → Except ExprError α) (word argument : Text) :
    Except Fault α :=
  match parse argument with
  | .ok a => .ok a
  | .error cause => .error (.badArgument word argument cause)

/-- Reads a piece; the arguments of words that take none are not looked at. -/
def Piece.item : Piece → Except Fault Item
  | .text t => .ok (.text t)
  | .instruction word argument =>
    if word = echoWord then (argumentOf Interpolation.parse word argument).map .echo
    else if word = usesWord then (quotedName word argument).map .uses
    else
      match Keyword.ofWord? word with
      | some .ifStart => (argumentOf Expr.parse word argument).map .ifStart
      | some .elseIf => (argumentOf Expr.parse word argument).map .elseIf
      | some .otherwise => .ok .otherwise
      | some .ifEnd => .ok .ifEnd
      | some .loopStart => (argumentOf LoopHead.parse word argument).map .loopStart
      | some .loopEnd => .ok .loopEnd
      | some .embed => (quotedName word argument).map .embed
      | _ => .error (.unknownWord word)

end Stencil.Artifact
