import Stencil.Proofs.Artifact.Reading

/-!
# The written form of a program

The items of the nodes of a program, in order, can only have been written for
that program.  While a program is built, the items of what is there so far are
the plain form of the items that were read.
-/

namespace Stencil.Artifact

/-! ## The written form determines the program -/

def Item.isStart : Item → Bool
  | .text _ | .echo _ | .embed _ | .ifStart _ | .loopStart _ => true
  | _ => false

def Ended (items : List Item) : Prop := ∀ item ∈ items.head?, item.isStart = false

theorem Node.exists_items_eq_cons (node : Node) :
    ∃ item rest, node.items = item :: rest ∧ item.isStart = true := by
  cases node with
  | text t => exact ⟨_, _, rfl, rfl⟩
  | echo i => exact ⟨_, _, rfl, rfl⟩
  | choice condition body rest => exact ⟨_, _, rfl, rfl⟩
  | loop head body => exact ⟨_, _, rfl, rfl⟩
  | embed name => exact ⟨_, _, rfl, rfl⟩

theorem Branches.ended_items_append (branches : Branches) (rest : List Item) :
    Ended (branches.items ++ rest) := by
  cases branches with
  | done => simp [Ended, Branches.items, Item.isStart]
  | otherwise body => simp [Ended, Branches.items, Item.isStart]
  | elseIf condition body more => simp [Ended, Branches.items, Item.isStart]

theorem not_ended_items_append (node : Node) (rest : List Item) :
    ¬ Ended (node.items ++ rest) := by
  obtain ⟨item, more, hitems, hstart⟩ := node.exists_items_eq_cons
  intro h
  have hend := h item (by simp [hitems])
  rw [hstart] at hend
  cases hend

mutual

theorem Node.eq_of_items_append (node other : Node) {rest more : List Item}
    (h : node.items ++ rest = other.items ++ more) : node = other ∧ rest = more := by
  cases node with
  | text t =>
      cases other <;> simp [Node.items] at h
      exact ⟨by rw [h.1], h.2⟩
  | echo i =>
      cases other <;> simp [Node.items] at h
      exact ⟨by rw [h.1], h.2⟩
  | embed name =>
      cases other <;> simp [Node.items] at h
      exact ⟨by rw [h.1], h.2⟩
  | choice condition body branches =>
      cases other with
      | choice condition' body' branches' =>
          simp only [Node.items, List.cons_append, List.append_assoc, List.cons.injEq,
            Item.ifStart.injEq] at h
          obtain ⟨rfl, h⟩ := h
          obtain ⟨rfl, hbranches⟩ := eq_of_itemsOf_append body body'
            (branches.ended_items_append rest) (branches'.ended_items_append more) h
          obtain ⟨rfl, hrest⟩ := Branches.eq_of_items_append branches branches' hbranches
          exact ⟨rfl, hrest⟩
      | _ => simp [Node.items] at h
  | loop head body =>
      cases other with
      | loop head' body' =>
          simp only [Node.items, List.cons_append, List.append_assoc, List.cons.injEq,
            Item.loopStart.injEq] at h
          obtain ⟨rfl, h⟩ := h
          obtain ⟨rfl, hrest⟩ := eq_of_itemsOf_append body body'
            (by simp [Ended, Item.isStart]) (by simp [Ended, Item.isStart]) h
          exact ⟨rfl, (List.cons.inj hrest).2⟩
      | _ => simp [Node.items] at h

theorem Branches.eq_of_items_append (branches others : Branches) {rest more : List Item}
    (h : branches.items ++ rest = others.items ++ more) : branches = others ∧ rest = more := by
  cases branches with
  | done =>
      cases others <;> simp [Branches.items] at h
      exact ⟨rfl, h⟩
  | otherwise body =>
      cases others with
      | otherwise body' =>
          simp only [Branches.items, List.cons_append, List.append_assoc, List.cons.injEq,
            true_and] at h
          obtain ⟨rfl, hrest⟩ := eq_of_itemsOf_append body body'
            (by simp [Ended, Item.isStart]) (by simp [Ended, Item.isStart]) h
          exact ⟨rfl, (List.cons.inj hrest).2⟩
      | _ => simp [Branches.items] at h
  | elseIf condition body branches =>
      cases others with
      | elseIf condition' body' branches' =>
          simp only [Branches.items, List.cons_append, List.append_assoc, List.cons.injEq,
            Item.elseIf.injEq] at h
          obtain ⟨rfl, h⟩ := h
          obtain ⟨rfl, hbranches⟩ := eq_of_itemsOf_append body body'
            (branches.ended_items_append rest) (branches'.ended_items_append more) h
          obtain ⟨rfl, hrest⟩ := Branches.eq_of_items_append branches branches' hbranches
          exact ⟨rfl, hrest⟩
      | _ => simp [Branches.items] at h

theorem eq_of_itemsOf_append (nodes others : List Node) {rest more : List Item}
    (hrest : Ended rest) (hmore : Ended more) (h : itemsOf nodes ++ rest = itemsOf others ++ more) :
    nodes = others ∧ rest = more := by
  cases nodes with
  | nil =>
      cases others with
      | nil => exact ⟨rfl, h⟩
      | cons other others =>
          simp only [itemsOf, List.nil_append, List.append_assoc] at h
          exact absurd (h ▸ hrest) (not_ended_items_append other _)
  | cons node nodes =>
      cases others with
      | nil =>
          simp only [itemsOf, List.nil_append, List.append_assoc] at h
          exact absurd (h ▸ hmore) (not_ended_items_append node _)
      | cons other others =>
          simp only [itemsOf, List.append_assoc] at h
          obtain ⟨rfl, htail⟩ := Node.eq_of_items_append node other h
          obtain ⟨rfl, heq⟩ := eq_of_itemsOf_append nodes others hrest hmore htail
          exact ⟨rfl, heq⟩

end

theorem Program.items_injective : Function.Injective Program.items := by
  rintro ⟨nodes⟩ ⟨others⟩ h
  have hitems : itemsOf nodes ++ [] = itemsOf others ++ [] := by
    simpa [Program.items] using h
  obtain ⟨rfl, -⟩ := eq_of_itemsOf_append nodes others (by simp [Ended]) (by simp [Ended]) hitems
  rfl

/-! ## The written form of a builder -/

theorem itemsOf_append (nodes more : List Node) :
    itemsOf (nodes ++ more) = itemsOf nodes ++ itemsOf more := by
  induction nodes with
  | nil => rfl
  | cons node nodes ih => simp [itemsOf, ih]

theorem itemsOf_reverse_cons (node : Node) (nodes : List Node) :
    itemsOf (node :: nodes).reverse = itemsOf nodes.reverse ++ node.items := by
  simp [itemsOf_append, itemsOf]

def branchItems (condition : Expr) : (finished : List (Expr × List Node)) → List Item
  | [] => [.ifStart condition]
  | (earlier, body) :: finished =>
    branchItems earlier finished ++ itemsOf body ++ [.elseIf condition]

def Frame.items : Frame → List Item
  | .branch condition finished => branchItems condition finished
  | .lastBranch condition body finished =>
    branchItems condition finished ++ itemsOf body ++ [.otherwise]
  | .loop head => [.loopStart head]

def openItems : List (Frame × List Node) → List Item
  | [] => []
  | (frame, before) :: outer => openItems outer ++ itemsOf before.reverse ++ frame.items

def Builder.items (b : Builder) : List Item := openItems b.open_ ++ itemsOf b.nodes.reverse

theorem items_choiceOf (condition : Expr) (body : List Node) (rest : Branches)
    (finished : List (Expr × List Node)) :
    (choiceOf condition body rest finished).items =
      branchItems condition finished ++ itemsOf body ++ rest.items := by
  induction finished generalizing condition body rest with
  | nil => simp [choiceOf, Node.items, branchItems]
  | cons branch finished ih =>
      obtain ⟨earlier, before⟩ := branch
      simp [choiceOf, ih, Branches.items, branchItems]

/-- No text stands at the end, so that a text put there stays apart. -/
def TextLess (items : List Item) : Prop := ∀ t, items.getLast? ≠ some (.text t)

theorem textLess_append_singleton {item : Item} (h : ∀ t, item ≠ .text t) (items : List Item) :
    TextLess (items ++ [item]) := by
  intro t
  simpa using h t

def snocText (items : List Item) (t : Text) : List Item :=
  match items.getLast? with
  | some (.text last) => items.dropLast ++ [.text (last ++ t)]
  | _ => items ++ [.text t]

def snocItem (items : List Item) : Item → List Item
  | .uses _ => items
  | .text t => snocText items t
  | item => items ++ [item]

theorem snocText_append_text (items : List Item) (last t : Text) :
    snocText (items ++ [.text last]) t = items ++ [.text (last ++ t)] := by
  simp [snocText]

theorem snocText_of_textLess {items : List Item} (h : TextLess items) (t : Text) :
    snocText items t = items ++ [.text t] := by
  unfold snocText
  split
  · next last hlast => exact absurd hlast (h last)
  · rfl

theorem snocText_cons_cons (item first : Item) (rest : List Item) (t : Text) :
    snocText (item :: first :: rest) t = item :: snocText (first :: rest) t := by
  unfold snocText
  rw [List.getLast?_cons_cons]
  split <;> simp

theorem snocItem_cons_cons (item first : Item) (rest : List Item) (last : Item) :
    snocItem (item :: first :: rest) last = item :: snocItem (first :: rest) last := by
  cases last with
  | text t => exact snocText_cons_cons item first rest t
  | _ => rfl

theorem consItem_of_ne_text {item : Item} (h : ∀ t, item ≠ .text t) (items : List Item) :
    consItem item items = item :: items := by
  cases item with
  | text t => exact absurd rfl (h t)
  | _ => rfl

theorem consItem_text_cons {first : Item} (h : ∀ t, first ≠ .text t) (t : Text)
    (rest : List Item) : consItem (.text t) (first :: rest) = .text t :: first :: rest := by
  cases first with
  | text next => exact absurd rfl (h next)
  | _ => rfl

theorem exists_snocItem_cons {first : Item} (h : ∀ t, first ≠ .text t) (rest : List Item)
    (last : Item) : ∃ more, snocItem (first :: rest) last = first :: more := by
  cases rest with
  | nil =>
      cases last with
      | text t => exact ⟨[.text t], snocText_of_textLess (textLess_append_singleton h []) t⟩
      | uses name => exact ⟨[], rfl⟩
      | _ => exact ⟨_, rfl⟩
  | cons next rest => exact ⟨_, snocItem_cons_cons first next rest last⟩

theorem consItem_text_snocItem_text (t next : Text) (rest : List Item) (last : Item) :
    consItem (.text t) (snocItem (.text next :: rest) last) =
      snocItem (.text (t ++ next) :: rest) last := by
  cases rest with
  | nil =>
      cases last with
      | text u =>
          have hnext := snocText_append_text [] next u
          have hjoined := snocText_append_text [] (t ++ next) u
          rw [List.nil_append] at hnext hjoined
          simp only [snocItem, hnext, hjoined, List.nil_append, consItem, List.append_assoc]
      | _ => rfl
  | cons second rest =>
      rw [snocItem_cons_cons, snocItem_cons_cons]
      rfl

theorem consItem_snocItem (item : Item) (items : List Item) (last : Item) :
    consItem item (snocItem items last) = snocItem (consItem item items) last := by
  cases items with
  | nil => cases item <;> cases last <;> rfl
  | cons first rest =>
      by_cases hitem : ∃ t, item = .text t
      · obtain ⟨t, rfl⟩ := hitem
        by_cases hfirst : ∃ next, first = .text next
        · obtain ⟨next, rfl⟩ := hfirst
          exact consItem_text_snocItem_text t next rest last
        · rw [not_exists] at hfirst
          obtain ⟨more, hmore⟩ := exists_snocItem_cons hfirst rest last
          rw [consItem_text_cons hfirst, snocItem_cons_cons, hmore, consItem_text_cons hfirst]
      · rw [not_exists] at hitem
        rw [consItem_of_ne_text hitem, consItem_of_ne_text hitem, snocItem_cons_cons]

theorem plainForm_concat (items : List Item) (last : Item) :
    plainForm (items ++ [last]) = snocItem (plainForm items) last := by
  induction items with
  | nil => cases last <;> rfl
  | cons item items ih =>
      cases item with
      | uses name => exact ih
      | _ => exact (congrArg (consItem _) ih).trans (consItem_snocItem _ _ _)

/-! ### What one item adds -/

theorem Branches.exists_items_eq_concat (branches : Branches) :
    ∃ before, branches.items = before ++ [.ifEnd] := by
  match branches with
  | .done => exact ⟨[], rfl⟩
  | .otherwise body => exact ⟨.otherwise :: itemsOf body, rfl⟩
  | .elseIf condition body rest =>
      obtain ⟨before, hrest⟩ := rest.exists_items_eq_concat
      exact ⟨.elseIf condition :: itemsOf body ++ before, by simp [Branches.items, hrest]⟩

theorem textLess_items {node : Node} (h : ∀ t, node ≠ .text t) (before : List Item) :
    TextLess (before ++ node.items) := by
  cases node with
  | text t => exact absurd rfl (h t)
  | echo i => exact textLess_append_singleton (by simp) before
  | embed name => exact textLess_append_singleton (by simp) before
  | loop head body =>
      rw [Node.items, ← List.append_assoc]
      exact textLess_append_singleton (by simp) _
  | choice condition body rest =>
      obtain ⟨ending, hrest⟩ := rest.exists_items_eq_concat
      rw [Node.items, hrest, ← List.append_assoc, ← List.append_assoc]
      exact textLess_append_singleton (by simp) _

theorem textLess_frame (frame : Frame) (before : List Item) : TextLess (before ++ frame.items) := by
  cases frame with
  | branch condition finished =>
      cases finished with
      | nil => exact textLess_append_singleton (by simp) before
      | cons branch finished =>
          rw [Frame.items, branchItems, ← List.append_assoc]
          exact textLess_append_singleton (by simp) _
  | lastBranch condition body finished =>
      rw [Frame.items, ← List.append_assoc]
      exact textLess_append_singleton (by simp) _
  | loop head => exact textLess_append_singleton (by simp) before

theorem textLess_openItems (open_ : List (Frame × List Node)) : TextLess (openItems open_) := by
  cases open_ with
  | nil => simp [TextLess, openItems]
  | cons construct outer => exact textLess_frame construct.1 _

theorem items_pushText (open_ : List (Frame × List Node)) (t : Text) (nodes : List Node) :
    openItems open_ ++ itemsOf (pushText t nodes).reverse =
      snocText (openItems open_ ++ itemsOf nodes.reverse) t := by
  cases nodes with
  | nil =>
      have htext := snocText_of_textLess (textLess_openItems open_) t
      simp [pushText, itemsOf, Node.items, htext]
  | cons node nodes =>
      by_cases hnode : ∃ last, node = .text last
      · obtain ⟨last, rfl⟩ := hnode
        simp only [pushText, itemsOf_reverse_cons, Node.items, ← List.append_assoc,
          snocText_append_text]
      · rw [not_exists] at hnode
        have hpush : pushText t (node :: nodes) = .text t :: node :: nodes := by
          cases node with
          | text last => exact absurd rfl (hnode last)
          | _ => rfl
        rw [hpush, itemsOf_reverse_cons, itemsOf_reverse_cons, ← List.append_assoc,
          ← List.append_assoc, snocText_of_textLess (textLess_items hnode _)]
        rfl

namespace Builder

theorem items_of_add {b b' : Builder} {item : Item} (h : b.add item = .ok b') :
    b'.items = snocItem b.items item := by
  obtain ⟨nodes, open_⟩ := b
  cases item with
  | text t =>
      cases h
      exact items_pushText open_ t nodes
  | uses name =>
      cases h
      rfl
  | echo i | embed name =>
      cases h
      simp [items, push, itemsOf_append, itemsOf, Node.items, snocItem]
  | ifStart condition =>
      cases h
      simp [items, enter, openItems, Frame.items, branchItems, itemsOf, snocItem]
  | loopStart head =>
      cases h
      simp [items, enter, openItems, Frame.items, itemsOf, snocItem]
  | elseIf condition =>
      match open_, h with
      | (.branch current finished, before) :: outer, h =>
          cases h
          simp [items, openItems, Frame.items, branchItems, itemsOf, snocItem]
  | otherwise =>
      match open_, h with
      | (.branch current finished, before) :: outer, h =>
          cases h
          simp [items, openItems, Frame.items, itemsOf, snocItem]
  | ifEnd =>
      match open_, h with
      | (.branch current finished, before) :: outer, h =>
          cases h
          simp [items, openItems, Frame.items, itemsOf_append, itemsOf, items_choiceOf,
            Branches.items, snocItem]
      | (.lastBranch current body finished, before) :: outer, h =>
          cases h
          simp [items, openItems, Frame.items, itemsOf_append, itemsOf, items_choiceOf,
            Branches.items, snocItem]
  | loopEnd =>
      match open_, h with
      | (.loop head, before) :: outer, h =>
          cases h
          simp [items, openItems, Frame.items, itemsOf_append, itemsOf, Node.items, snocItem]

theorem items_of_addItems {b b' : Builder} {read items : List Item}
    (h : b.addItems items = .ok b') (hread : b.items = plainForm read) :
    b'.items = plainForm (read ++ items) := by
  induction items generalizing b read with
  | nil =>
      cases h
      rw [hread, List.append_nil]
  | cons item items ih =>
      obtain ⟨next, hadd, hrest⟩ := addItems_cons_eq_ok_iff.1 h
      have hnext : next.items = plainForm (read ++ [item]) := by
        rw [items_of_add hadd, hread, plainForm_concat]
      rw [ih hrest hnext, List.append_assoc, List.singleton_append]

end Builder

end Stencil.Artifact
