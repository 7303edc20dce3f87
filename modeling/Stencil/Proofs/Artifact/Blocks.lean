import Stencil.Proofs.Artifact.Nesting

/-!
# Nesting by keywords

Whether items are well nested shows in the keywords of blocks among them, and
the keyword of an item shows in the word of its instruction.  So an artifact is
a program just if each instruction can be read by itself and the keywords of
blocks, in their order, are properly nested.
-/

namespace Stencil

def Template.Keyword.isBlock : Keyword → Bool
  | .ifStart | .elseIf | .otherwise | .ifEnd | .loopStart | .loopEnd => true
  | _ => false

namespace Artifact

open Stencil.Template

mutual

/-- Keywords of blocks in proper order: each conditional and each loop is closed by its own word,
and branches stand in conditionals only, the last of them behind all others. -/
inductive IsNested : List Keyword → Prop
  | nil : IsNested []
  | choice {body rest more : List Keyword} (hb : IsNested body) (hr : IsNestedEnd rest)
      (hm : IsNested more) : IsNested (.ifStart :: (body ++ (rest ++ more)))
  | loop {body more : List Keyword} (hb : IsNested body) (hm : IsNested more) :
      IsNested (.loopStart :: (body ++ .loopEnd :: more))

inductive IsNestedEnd : List Keyword → Prop
  | done : IsNestedEnd [.ifEnd]
  | otherwise {body : List Keyword} (hb : IsNested body) :
      IsNestedEnd (.otherwise :: (body ++ [.ifEnd]))
  | elseIf {body rest : List Keyword} (hb : IsNested body) (hr : IsNestedEnd rest) :
      IsNestedEnd (.elseIf :: (body ++ rest))

end

/-! ## Items -/

namespace Item

def block? : Item → Option Keyword
  | .ifStart _ => some .ifStart
  | .elseIf _ => some .elseIf
  | .otherwise => some .otherwise
  | .ifEnd => some .ifEnd
  | .loopStart _ => some .loopStart
  | .loopEnd => some .loopEnd
  | .text _ | .echo _ | .embed _ | .uses _ => none

theorem block?_eq_none_iff {item : Item} : item.block? = none ↔ item.isSimple = true := by
  cases item <;> simp [block?, isSimple]

inductive IsKey : Item → Keyword → Prop
  | ifStart (condition : Expr) : IsKey (.ifStart condition) .ifStart
  | elseIf (condition : Expr) : IsKey (.elseIf condition) .elseIf
  | otherwise : IsKey .otherwise .otherwise
  | ifEnd : IsKey .ifEnd .ifEnd
  | loopStart (head : LoopHead) : IsKey (.loopStart head) .loopStart
  | loopEnd : IsKey .loopEnd .loopEnd

theorem isKey_of_block? {item : Item} {k : Keyword} (h : item.block? = some k) : item.IsKey k := by
  cases item <;> cases h <;> constructor

end Item

def blocksOf (items : List Item) : List Keyword := items.filterMap Item.block?

theorem isBlock_of_blocksOf_eq_nil {items : List Item} (h : blocksOf items = []) :
    IsBlock items := by
  induction items with
  | nil => exact .nil
  | cons item items ih =>
      have hnone := List.filterMap_eq_nil_iff.1 h
      refine .simple (Item.block?_eq_none_iff.1 (hnone item List.mem_cons_self)) (ih ?_)
      exact List.filterMap_eq_nil_iff.2 fun other hother =>
        hnone other (List.mem_cons_of_mem _ hother)

theorem exists_of_blocksOf_eq_cons {items : List Item} {k : Keyword} {more : List Keyword}
    (h : blocksOf items = k :: more) : ∃ before item after, items = before ++ item :: after ∧
      IsBlock before ∧ item.IsKey k ∧ blocksOf after = more := by
  obtain ⟨before, item, after, rfl, hbefore, hitem, hafter⟩ := List.filterMap_eq_cons_iff.1 h
  have hblock := isBlock_of_blocksOf_eq_nil (List.filterMap_eq_nil_iff.2 hbefore)
  exact ⟨before, item, after, rfl, hblock, Item.isKey_of_block? hitem, hafter⟩

mutual

theorem IsBlock.isNested {items : List Item} : IsBlock items → IsNested (blocksOf items)
  | .nil => .nil
  | .simple h hs => by
      have hrest := hs.isNested
      rwa [blocksOf, List.filterMap_cons, Item.block?_eq_none_iff.2 h]
  | .choice hb hr hs => by
      simpa [blocksOf, Item.block?] using IsNested.choice hb.isNested hr.isNestedEnd hs.isNested
  | .loop hb hs => by
      simpa [blocksOf, Item.block?] using IsNested.loop hb.isNested hs.isNested

theorem IsChoiceEnd.isNestedEnd {items : List Item} :
    IsChoiceEnd items → IsNestedEnd (blocksOf items)
  | .done => .done
  | .otherwise hb => by
      simpa [blocksOf, Item.block?] using IsNestedEnd.otherwise hb.isNested
  | .elseIf hb hr => by
      simpa [blocksOf, Item.block?] using IsNestedEnd.elseIf hb.isNested hr.isNestedEnd

end

mutual

theorem IsNested.isBlock {ks : List Keyword} : IsNested ks → ∀ {items : List Item},
    blocksOf items = ks → IsBlock items
  | .nil, items, h => isBlock_of_blocksOf_eq_nil h
  | .choice hb hr hm, items, h => by
      -- items without a keyword stand between the parts; a block beside them takes them in
      obtain ⟨before, _, after, rfl, hbefore, hkey, hafter⟩ := exists_of_blocksOf_eq_cons h
      obtain ⟨body, others, rfl, hbody, hothers⟩ := List.filterMap_eq_append_iff.1 hafter
      obtain ⟨rest, more, rfl, hrest, hmore⟩ := List.filterMap_eq_append_iff.1 hothers
      obtain ⟨lead, end_, tail, rfl, hlead, hend, htail⟩ := hr.exists_isChoiceEnd hrest
      cases hkey with
      | ifStart condition =>
          have hchoice := @IsBlock.choice condition _ _ _ ((hb.isBlock hbody).append hlead) hend
            (htail.append (hm.isBlock hmore))
          simpa using hbefore.append hchoice
  | .loop hb hm, items, h => by
      obtain ⟨before, _, after, rfl, hbefore, hkey, hafter⟩ := exists_of_blocksOf_eq_cons h
      obtain ⟨body, others, rfl, hbody, hothers⟩ := List.filterMap_eq_append_iff.1 hafter
      obtain ⟨lead, _, more, rfl, hlead, hlast, hmore⟩ := exists_of_blocksOf_eq_cons hothers
      cases hlast
      cases hkey with
      | loopStart head =>
          have hloop := @IsBlock.loop head _ _ ((hb.isBlock hbody).append hlead) (hm.isBlock hmore)
          simpa using hbefore.append hloop

theorem IsNestedEnd.exists_isChoiceEnd {ks : List Keyword} : IsNestedEnd ks →
    ∀ {items : List Item}, blocksOf items = ks →
      ∃ lead end_ tail, items = lead ++ (end_ ++ tail) ∧ IsBlock lead ∧ IsChoiceEnd end_ ∧
        IsBlock tail
  | .done, items, h => by
      obtain ⟨lead, _, tail, rfl, hlead, hlast, htail⟩ := exists_of_blocksOf_eq_cons h
      cases hlast
      exact ⟨lead, [.ifEnd], tail, rfl, hlead, .done, isBlock_of_blocksOf_eq_nil htail⟩
  | .otherwise hb, items, h => by
      obtain ⟨lead, _, after, rfl, hlead, hkey, hafter⟩ := exists_of_blocksOf_eq_cons h
      obtain ⟨body, others, rfl, hbody, hothers⟩ := List.filterMap_eq_append_iff.1 hafter
      obtain ⟨inner, _, tail, rfl, hinner, hlast, htail⟩ := exists_of_blocksOf_eq_cons hothers
      cases hkey
      cases hlast
      have hend := IsChoiceEnd.otherwise ((hb.isBlock hbody).append hinner)
      exact ⟨lead, _, tail, by simp, hlead, hend, isBlock_of_blocksOf_eq_nil htail⟩
  | .elseIf hb hr, items, h => by
      obtain ⟨lead, _, after, rfl, hlead, hkey, hafter⟩ := exists_of_blocksOf_eq_cons h
      obtain ⟨body, others, rfl, hbody, hothers⟩ := List.filterMap_eq_append_iff.1 hafter
      obtain ⟨inner, end_, tail, rfl, hinner, hend, htail⟩ := hr.exists_isChoiceEnd hothers
      cases hkey with
      | elseIf condition =>
          have hnext := @IsChoiceEnd.elseIf condition _ _ ((hb.isBlock hbody).append hinner) hend
          exact ⟨lead, _, tail, by simp, hlead, hnext, htail⟩

end

theorem isBlock_iff_isNested {items : List Item} : IsBlock items ↔ IsNested (blocksOf items) :=
  ⟨IsBlock.isNested, fun h => h.isBlock rfl⟩

/-! ## Pieces -/

def Piece.block? : Piece → Option Keyword
  | .text _ => none
  | .instruction word _ => (Keyword.ofWord? word).filter Keyword.isBlock

theorem Piece.Says.block?_eq {piece : Piece} {item : Item} (h : piece.Says item) :
    item.block? = piece.block? := by
  cases h <;> rfl

theorem blocksOf_of_forall₂ {pieces : List Piece} {items : List Item}
    (h : List.Forall₂ Piece.Says pieces items) :
    blocksOf items = pieces.filterMap Piece.block? := by
  induction h with
  | nil => rfl
  | cons hsays _ ih =>
      rw [blocksOf, List.filterMap_cons, List.filterMap_cons, hsays.block?_eq, ← ih, blocksOf]

theorem exists_says_iff {pieces : List Piece} :
    (∃ items, List.Forall₂ Piece.Says pieces items) ↔
      ∀ piece ∈ pieces, ∃ item, piece.Says item := by
  induction pieces with
  | nil => simp
  | cons piece pieces ih =>
      rw [List.forall_mem_cons, ← ih]
      constructor
      · rintro ⟨_, hsays⟩
        cases hsays with
        | cons hfirst hrest => exact ⟨⟨_, hfirst⟩, _, hrest⟩
      · rintro ⟨⟨item, hfirst⟩, items, hrest⟩
        exact ⟨item :: items, .cons hfirst hrest⟩

theorem Program.exists_parse_iff {artifact : Text} : (∃ p, parse artifact = .ok p) ↔
    (∀ piece ∈ Piece.ofText artifact, ∃ item, piece.Says item) ∧
      IsNested ((Piece.ofText artifact).filterMap Piece.block?) := by
  rw [← exists_says_iff]
  constructor
  · rintro ⟨p, hp⟩
    obtain ⟨items, b, hsays, hitems, hopen, -⟩ := parse_eq_ok_iff_addItems.1 hp
    refine ⟨⟨items, hsays⟩, ?_⟩
    cases Builder.closes_of_addItems hitems hopen with
    | outermost hblock =>
        rw [← blocksOf_of_forall₂ hsays]
        exact isBlock_iff_isNested.1 hblock
  · rintro ⟨⟨items, hsays⟩, hnested⟩
    rw [← blocksOf_of_forall₂ hsays] at hnested
    obtain ⟨b, hitems, hopen⟩ := (isBlock_iff_isNested.2 hnested).exists_addItems Builder.empty
    exact ⟨_, parse_eq_ok_iff_addItems.2 ⟨items, b, hsays, hitems, hopen, rfl⟩⟩

end Artifact

end Stencil
