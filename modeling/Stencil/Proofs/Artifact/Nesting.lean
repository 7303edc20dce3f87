import Stencil.Proofs.Artifact.Written

/-!
# Programs are the well nested artifacts

An artifact is a program just if its pieces can be read and nest as blocks do.
Nothing is lost: the written form of the program is the plain form of what was
read.

That items nest is seen from behind: what a builder reads up to its end closes
all that was open before.  That nested items are read follows their derivation,
since a block leaves open what was.
-/

namespace Stencil.Artifact

/-! ## What closes the open constructs -/

/-- Items that end all open constructs, innermost first, and the block around them. -/
inductive Closes : List (Frame × List Node) → List Item → Prop
  | outermost {items : List Item} (h : IsBlock items) : Closes [] items
  | branch {condition : Expr} {finished : List (Expr × List Node)} {before : List Node}
      {outer : List (Frame × List Node)} {body rest after : List Item} (hb : IsBlock body)
      (hr : IsChoiceEnd rest) (ho : Closes outer after) :
      Closes ((.branch condition finished, before) :: outer) (body ++ rest ++ after)
  | lastBranch {condition : Expr} {earlier : List Node} {finished : List (Expr × List Node)}
      {before : List Node} {outer : List (Frame × List Node)} {body after : List Item}
      (hb : IsBlock body) (ho : Closes outer after) :
      Closes ((.lastBranch condition earlier finished, before) :: outer) (body ++ .ifEnd :: after)
  | loop {head : LoopHead} {before : List Node} {outer : List (Frame × List Node)}
      {body after : List Item} (hb : IsBlock body) (ho : Closes outer after) :
      Closes ((.loop head, before) :: outer) (body ++ .loopEnd :: after)

theorem Closes.prepend {open_ : List (Frame × List Node)} {block items : List Item}
    (hblock : IsBlock block) (h : Closes open_ items) : Closes open_ (block ++ items) := by
  cases h with
  | outermost h => exact .outermost (hblock.append h)
  | branch hb hr ho => simpa using Closes.branch (hblock.append hb) hr ho
  | lastBranch hb ho => simpa using Closes.lastBranch (hblock.append hb) ho
  | loop hb ho => simpa using Closes.loop (hblock.append hb) ho

theorem Closes.simple {open_ : List (Frame × List Node)} {item : Item} {items : List Item}
    (hitem : item.isSimple = true) (h : Closes open_ items) : Closes open_ (item :: items) :=
  Closes.prepend (.simple hitem .nil) h

namespace Builder

theorem closes_of_add {b b' : Builder} {item : Item} {items : List Item}
    (h : b.add item = .ok b') (hb : Closes b'.open_ items) : Closes b.open_ (item :: items) := by
  obtain ⟨nodes, open_⟩ := b
  cases item with
  | text t | uses name | echo i | embed name =>
      cases h
      exact hb.simple rfl
  | ifStart condition =>
      cases h
      cases hb with
      | branch hbody hrest hafter =>
          have hchoice := @IsBlock.choice condition _ _ _ hbody hrest .nil
          simpa using hafter.prepend hchoice
  | loopStart head =>
      cases h
      cases hb with
      | loop hbody hafter =>
          have hloop := @IsBlock.loop head _ _ hbody .nil
          simpa using hafter.prepend hloop
  | elseIf condition =>
      match open_, h with
      | (.branch current finished, before) :: outer, h =>
          cases h
          cases hb with
          | branch hbody hrest hafter => exact .branch .nil (.elseIf hbody hrest) hafter
  | otherwise =>
      match open_, h with
      | (.branch current finished, before) :: outer, h =>
          cases h
          cases hb with
          | lastBranch hbody hafter =>
              simpa using Closes.branch .nil (.otherwise hbody) hafter
  | ifEnd =>
      match open_, h with
      | (.branch current finished, before) :: outer, h =>
          cases h
          exact .branch .nil .done hb
      | (.lastBranch current body finished, before) :: outer, h =>
          cases h
          exact .lastBranch .nil hb
  | loopEnd =>
      match open_, h with
      | (.loop head, before) :: outer, h =>
          cases h
          exact .loop .nil hb

theorem closes_of_addItems {b b' : Builder} {items : List Item} (h : b.addItems items = .ok b')
    (hend : b'.open_ = []) : Closes b.open_ items := by
  induction items generalizing b with
  | nil =>
      cases h
      rw [hend]
      exact .outermost .nil
  | cons item items ih =>
      obtain ⟨next, hadd, hrest⟩ := addItems_cons_eq_ok_iff.1 h
      exact closes_of_add hadd (ih hrest)

theorem exists_add_of_isSimple {item : Item} (h : item.isSimple = true) (b : Builder) :
    ∃ next, b.add item = .ok next ∧ next.open_ = b.open_ := by
  cases item with
  | text t | echo i | embed name | uses name => exact ⟨_, rfl, rfl⟩
  | _ => cases h

end Builder

mutual

theorem IsBlock.exists_addItems {items : List Item} : IsBlock items → ∀ b : Builder,
    ∃ b', b.addItems items = .ok b' ∧ b'.open_ = b.open_
  | .nil, b => ⟨b, rfl, rfl⟩
  | .simple h hs, b => by
      obtain ⟨next, hadd, hopen⟩ := Builder.exists_add_of_isSimple h b
      obtain ⟨b', hrest, hopen'⟩ := hs.exists_addItems next
      exact ⟨b', Builder.addItems_cons_eq_ok_iff.2 ⟨next, hadd, hrest⟩, hopen'.trans hopen⟩
  | @IsBlock.choice condition _ _ _ hb hr hs, b => by
      obtain ⟨inner, hbody, hopen⟩ := hb.exists_addItems (b.enter (.branch condition []))
      obtain ⟨closed, hclose, hopen'⟩ := hr.exists_addItems hopen
      obtain ⟨b', hrest, hopen''⟩ := hs.exists_addItems closed
      refine ⟨b', ?_, hopen''.trans hopen'⟩
      rw [List.append_assoc, List.cons_append]
      exact Builder.addItems_cons_eq_ok_iff.2 ⟨_, rfl, Builder.addItems_append_eq_ok_iff.2
        ⟨inner, hbody, Builder.addItems_append_eq_ok_iff.2 ⟨closed, hclose, hrest⟩⟩⟩
  | @IsBlock.loop head _ _ hb hs, b => by
      obtain ⟨inner, hbody, hopen⟩ := hb.exists_addItems (b.enter (.loop head))
      have hclose : inner.loopEnd = .ok ⟨.loop head inner.nodes.reverse :: b.nodes, b.open_⟩ := by
        rw [Builder.loopEnd, hopen]
        rfl
      obtain ⟨b', hrest, hopen'⟩ :=
        hs.exists_addItems ⟨.loop head inner.nodes.reverse :: b.nodes, b.open_⟩
      refine ⟨b', ?_, hopen'⟩
      exact Builder.addItems_cons_eq_ok_iff.2 ⟨_, rfl, Builder.addItems_append_eq_ok_iff.2
        ⟨inner, hbody, Builder.addItems_cons_eq_ok_iff.2 ⟨_, hclose, hrest⟩⟩⟩

theorem IsChoiceEnd.exists_addItems {items : List Item} : IsChoiceEnd items →
    ∀ {b : Builder} {condition : Expr} {finished : List (Expr × List Node)} {before : List Node}
      {outer : List (Frame × List Node)},
      b.open_ = (.branch condition finished, before) :: outer →
      ∃ b', b.addItems items = .ok b' ∧ b'.open_ = outer
  | .done, b, condition, finished, before, outer, hopen => by
      have hclose : b.ifEnd =
          .ok ⟨choiceOf condition b.nodes.reverse .done finished :: before, outer⟩ := by
        rw [Builder.ifEnd, hopen]
      exact ⟨_, Builder.addItems_cons_eq_ok_iff.2 ⟨_, hclose, rfl⟩, rfl⟩
  | .otherwise hb, b, condition, finished, before, outer, hopen => by
      have hnext : b.otherwise =
          .ok ⟨[], (.lastBranch condition b.nodes.reverse finished, before) :: outer⟩ := by
        rw [Builder.otherwise, hopen]
      obtain ⟨inner, hbody, hinner⟩ := hb.exists_addItems
        ⟨[], (.lastBranch condition b.nodes.reverse finished, before) :: outer⟩
      have hclose : inner.ifEnd = .ok ⟨choiceOf condition b.nodes.reverse
          (.otherwise inner.nodes.reverse) finished :: before, outer⟩ := by
        rw [Builder.ifEnd, hinner]
      exact ⟨_, Builder.addItems_cons_eq_ok_iff.2 ⟨_, hnext, Builder.addItems_append_eq_ok_iff.2
        ⟨inner, hbody, Builder.addItems_cons_eq_ok_iff.2 ⟨_, hclose, rfl⟩⟩⟩, rfl⟩
  | @IsChoiceEnd.elseIf next _ _ hb hr, b, condition, finished, before, outer, hopen => by
      have hnext : b.elseIf next = .ok ⟨[],
          (.branch next ((condition, b.nodes.reverse) :: finished), before) :: outer⟩ := by
        rw [Builder.elseIf, hopen]
      obtain ⟨inner, hbody, hinner⟩ := hb.exists_addItems
        ⟨[], (.branch next ((condition, b.nodes.reverse) :: finished), before) :: outer⟩
      obtain ⟨b', hrest, houter⟩ := hr.exists_addItems hinner
      exact ⟨b', Builder.addItems_cons_eq_ok_iff.2 ⟨_, hnext, Builder.addItems_append_eq_ok_iff.2
        ⟨inner, hbody, hrest⟩⟩, houter⟩

end

/-! ## Programs -/

namespace Program

theorem parse_eq_ok_iff_addItems {artifact : Text} {p : Program} :
    parse artifact = .ok p ↔ ∃ items b, List.Forall₂ Piece.Says (Piece.ofText artifact) items ∧
      Builder.empty.addItems items = .ok b ∧ b.open_ = [] ∧ p = ⟨b.nodes.reverse⟩ := by
  unfold parse ofPieces
  constructor
  · intro h
    split at h
    · cases h
    · next b hb =>
      obtain ⟨items, hsays, hitems⟩ := Builder.addAll_eq_ok_iff.1 hb
      obtain ⟨hopen, hp⟩ := Builder.finish_eq_ok_iff.1 h
      exact ⟨items, b, hsays, hitems, hopen, hp⟩
  · rintro ⟨items, b, hsays, hitems, hopen, hp⟩
    rw [Builder.addAll_eq_ok_iff.2 ⟨items, hsays, hitems⟩]
    exact Builder.finish_eq_ok_iff.2 ⟨hopen, hp⟩

theorem items_of_addItems {items : List Item} {b : Builder}
    (h : Builder.empty.addItems items = .ok b) (hopen : b.open_ = []) :
    (⟨b.nodes.reverse⟩ : Program).items = plainForm items := by
  have hempty : Builder.empty.items = plainForm [] := rfl
  have hitems := Builder.items_of_addItems h hempty
  simpa [Builder.items, Program.items, hopen, openItems] using hitems

/-- An artifact is a program just if its pieces can be read and are well nested, and the program
is the only one whose written form is the plain form of what was read. -/
theorem parse_nested_iff (artifact : Text) :
    ((∃ p, parse artifact = .ok p) ↔
      ∃ items, List.Forall₂ Piece.Says (Piece.ofText artifact) items ∧ IsBlock items) ∧
    ∀ p, parse artifact = .ok p ↔
      ∃ items, List.Forall₂ Piece.Says (Piece.ofText artifact) items ∧ IsBlock items ∧
        p.items = plainForm items := by
  have hbuild : ∀ {items}, IsBlock items →
      ∃ b, Builder.empty.addItems items = .ok b ∧ b.open_ = [] := fun h =>
    h.exists_addItems Builder.empty
  have hnested : ∀ {items b}, Builder.empty.addItems items = .ok b → b.open_ = [] →
      IsBlock items := by
    intro items b hitems hopen
    cases Builder.closes_of_addItems hitems hopen with
    | outermost h => exact h
  refine ⟨⟨?_, ?_⟩, fun p => ⟨?_, ?_⟩⟩
  · rintro ⟨p, h⟩
    obtain ⟨items, b, hsays, hitems, hopen, -⟩ := parse_eq_ok_iff_addItems.1 h
    exact ⟨items, hsays, hnested hitems hopen⟩
  · rintro ⟨items, hsays, hblock⟩
    obtain ⟨b, hitems, hopen⟩ := hbuild hblock
    exact ⟨_, parse_eq_ok_iff_addItems.2 ⟨items, b, hsays, hitems, hopen, rfl⟩⟩
  · intro h
    obtain ⟨items, b, hsays, hitems, hopen, rfl⟩ := parse_eq_ok_iff_addItems.1 h
    exact ⟨items, hsays, hnested hitems hopen, items_of_addItems hitems hopen⟩
  · rintro ⟨items, hsays, hblock, hp⟩
    obtain ⟨b, hitems, hopen⟩ := hbuild hblock
    have hwritten := items_of_addItems hitems hopen
    obtain rfl := items_injective (hp.trans hwritten.symm)
    exact parse_eq_ok_iff_addItems.2 ⟨items, b, hsays, hitems, hopen, rfl⟩

end Program

end Stencil.Artifact
