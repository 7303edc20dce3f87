import Stencil.Artifact.Program

/-!
# Nesting

Which lists of items are the text of a program, said by the ways in which blocks
are put together, and the plain form of such a list, which is all that a program
keeps of it.
-/

namespace Stencil.Artifact

def Item.isSimple : Item → Bool
  | .text _ | .echo _ | .embed _ | .uses _ => true
  | _ => false

mutual

inductive IsBlock : List Item → Prop
  | nil : IsBlock []
  | simple {item : Item} {items : List Item} (h : item.isSimple = true) (hs : IsBlock items) :
      IsBlock (item :: items)
  | choice {condition : Expr} {body rest items : List Item} (hb : IsBlock body)
      (hr : IsChoiceEnd rest) (hs : IsBlock items) :
      IsBlock (.ifStart condition :: body ++ rest ++ items)
  | loop {head : LoopHead} {body items : List Item} (hb : IsBlock body) (hs : IsBlock items) :
      IsBlock (.loopStart head :: body ++ .loopEnd :: items)

/-- Items that end a conditional after one of its branches. -/
inductive IsChoiceEnd : List Item → Prop
  | done : IsChoiceEnd [.ifEnd]
  | otherwise {body : List Item} (hb : IsBlock body) :
      IsChoiceEnd (.otherwise :: body ++ [.ifEnd])
  | elseIf {condition : Expr} {body rest : List Item} (hb : IsBlock body)
      (hr : IsChoiceEnd rest) : IsChoiceEnd (.elseIf condition :: body ++ rest)

end

theorem IsBlock.append {items more : List Item} (h : IsBlock items) (hm : IsBlock more) :
    IsBlock (items ++ more) := by
  match h with
  | .nil => exact hm
  | .simple h hs => exact .simple h (hs.append hm)
  | .choice hb hr hs =>
    simpa using IsBlock.choice hb hr (hs.append hm)
  | .loop hb hs =>
    simpa using IsBlock.loop hb (hs.append hm)

mutual

theorem Node.isBlock_items (node : Node) : IsBlock node.items := by
  cases node with
  | text t => exact .simple rfl .nil
  | echo i => exact .simple rfl .nil
  | embed name => exact .simple rfl .nil
  | choice condition body rest =>
    simpa [Node.items] using
      IsBlock.choice (isBlock_itemsOf body) (Branches.isChoiceEnd_items rest) .nil
  | loop head body =>
    simpa [Node.items] using IsBlock.loop (isBlock_itemsOf body) .nil

theorem Branches.isChoiceEnd_items (branches : Branches) : IsChoiceEnd branches.items := by
  cases branches with
  | done => exact .done
  | otherwise body =>
    simpa [Branches.items] using IsChoiceEnd.otherwise (isBlock_itemsOf body)
  | elseIf condition body rest =>
    simpa [Branches.items] using
      IsChoiceEnd.elseIf (isBlock_itemsOf body) (Branches.isChoiceEnd_items rest)

theorem isBlock_itemsOf (nodes : List Node) : IsBlock (itemsOf nodes) := by
  cases nodes with
  | nil => exact .nil
  | cons node nodes => exact (Node.isBlock_items node).append (isBlock_itemsOf nodes)

end

/-! ## Plain form -/

def consItem : Item → List Item → List Item
  | .text t, .text next :: items => .text (t ++ next) :: items
  | item, items => item :: items

/-- The items without records of layouts, and with neighbouring texts joined. -/
def plainForm : List Item → List Item
  | [] => []
  | .uses _ :: items => plainForm items
  | item :: items => consItem item (plainForm items)

end Stencil.Artifact
