import Stencil.Artifact.Item

/-!
# Programs

The nodes of an artifact nest as its instructions do.  A program is built item
by item: the builder holds the nodes of the block that is open and, for every
construct around it, what is known of the construct so far.
-/

namespace Stencil.Artifact

open Stencil.Template

mutual

inductive Node where
  | text (t : Text)
  | echo (interpolation : Interpolation)
  | choice (condition : Expr) (body : List Node) (rest : Branches)
  | loop (head : LoopHead) (body : List Node)
  | embed (name : Text)

inductive Branches where
  | done
  | otherwise (body : List Node)
  | elseIf (condition : Expr) (body : List Node) (rest : Branches)

end

structure Program where
  nodes : List Node

/-! ## Written form -/

mutual

def Node.items : Node → List Item
  | .text t => [.text t]
  | .echo interpolation => [.echo interpolation]
  | .choice condition body rest => .ifStart condition :: itemsOf body ++ rest.items
  | .loop head body => .loopStart head :: itemsOf body ++ [.loopEnd]
  | .embed name => [.embed name]

def Branches.items : Branches → List Item
  | .done => [.ifEnd]
  | .otherwise body => .otherwise :: itemsOf body ++ [.ifEnd]
  | .elseIf condition body rest => .elseIf condition :: itemsOf body ++ rest.items

def itemsOf : List Node → List Item
  | [] => []
  | node :: nodes => node.items ++ itemsOf nodes

end

def Program.items (p : Program) : List Item := itemsOf p.nodes

/-! ## Building -/

/-- A construct that is not closed yet.  Finished branches are kept newest first. -/
inductive Frame where
  | branch (condition : Expr) (finished : List (Expr × List Node))
  | lastBranch (condition : Expr) (body : List Node) (finished : List (Expr × List Node))
  | loop (head : LoopHead)

/-- Nodes are kept newest first, open constructs innermost first. -/
structure Builder where
  nodes : List Node
  open_ : List (Frame × List Node)

def choiceOf (condition : Expr) (body : List Node) (rest : Branches) :
    (finished : List (Expr × List Node)) → Node
  | [] => .choice condition body rest
  | (earlier, before) :: finished =>
    choiceOf earlier before (.elseIf condition body rest) finished

def pushText (t : Text) : List Node → List Node
  | .text last :: nodes => .text (last ++ t) :: nodes
  | nodes => .text t :: nodes

namespace Builder

def empty : Builder := ⟨[], []⟩

def push (b : Builder) (node : Node) : Builder := { b with nodes := node :: b.nodes }

def enter (b : Builder) (frame : Frame) : Builder := ⟨[], (frame, b.nodes) :: b.open_⟩

def elseIf (b : Builder) (condition : Expr) : Except Fault Builder :=
  match b.open_ with
  | [] => .error (.strayWord Keyword.elseIf.spelling)
  | (.branch current finished, before) :: rest =>
    .ok ⟨[], (.branch condition ((current, b.nodes.reverse) :: finished), before) :: rest⟩
  | (.lastBranch _ _ _, _) :: _ => .error (.afterElse Keyword.elseIf.spelling)
  | (.loop _, _) :: _ => .error (.inLoop Keyword.elseIf.spelling)

def otherwise (b : Builder) : Except Fault Builder :=
  match b.open_ with
  | [] => .error (.strayWord Keyword.otherwise.spelling)
  | (.branch current finished, before) :: rest =>
    .ok ⟨[], (.lastBranch current b.nodes.reverse finished, before) :: rest⟩
  | (.lastBranch _ _ _, _) :: _ => .error (.afterElse Keyword.otherwise.spelling)
  | (.loop _, _) :: _ => .error (.inLoop Keyword.otherwise.spelling)

def ifEnd (b : Builder) : Except Fault Builder :=
  match b.open_ with
  | [] => .error (.strayWord Keyword.ifEnd.spelling)
  | (.branch current finished, before) :: rest =>
    .ok ⟨choiceOf current b.nodes.reverse .done finished :: before, rest⟩
  | (.lastBranch current body finished, before) :: rest =>
    .ok ⟨choiceOf current body (.otherwise b.nodes.reverse) finished :: before, rest⟩
  | (.loop _, _) :: _ => .error (.inLoop Keyword.ifEnd.spelling)

def loopEnd (b : Builder) : Except Fault Builder :=
  match b.open_ with
  | [] => .error (.strayWord Keyword.loopEnd.spelling)
  | (.loop head, before) :: rest => .ok ⟨.loop head b.nodes.reverse :: before, rest⟩
  | (.branch _ _, _) :: _ => .error .loopEndInIf
  | (.lastBranch _ _ _, _) :: _ => .error (.afterElse Keyword.loopEnd.spelling)

/-- The record of a layout leaves no trace in a program. -/
def add (b : Builder) : Item → Except Fault Builder
  | .text t => .ok { b with nodes := pushText t b.nodes }
  | .echo interpolation => .ok (b.push (.echo interpolation))
  | .embed name => .ok (b.push (.embed name))
  | .uses _ => .ok b
  | .ifStart condition => .ok (b.enter (.branch condition []))
  | .elseIf condition => b.elseIf condition
  | .otherwise => b.otherwise
  | .ifEnd => b.ifEnd
  | .loopStart head => .ok (b.enter (.loop head))
  | .loopEnd => b.loopEnd

def addAll (b : Builder) : List Piece → Except Fault Builder
  | [] => .ok b
  | piece :: pieces =>
    match piece.item with
    | .error fault => .error fault
    | .ok item =>
      match b.add item with
      | .error fault => .error fault
      | .ok b => b.addAll pieces

def finish (b : Builder) : Except Fault Program :=
  match b.open_ with
  | [] => .ok ⟨b.nodes.reverse⟩
  | (.loop _, _) :: _ => .error .openLoop
  | _ => .error .openIf

end Builder

namespace Program

def ofPieces (pieces : List Piece) : Except Fault Program :=
  match Builder.empty.addAll pieces with
  | .error fault => .error fault
  | .ok b => b.finish

def parse (artifact : Text) : Except Fault Program := ofPieces (Piece.ofText artifact)

end Program

end Stencil.Artifact
