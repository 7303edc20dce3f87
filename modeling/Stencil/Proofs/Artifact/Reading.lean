import Mathlib.Data.List.Forall2
import Stencil.Artifact.Nesting

/-!
# Reading an artifact

What the pieces of an artifact say is a relation to items.  A builder that takes
pieces reads them and adds the items, one after the other.
-/

namespace Stencil.Artifact

open Stencil.Template

/-! ## What pieces say -/

inductive Piece.Says : Piece → Item → Prop
  | text (t : Text) : Says (.text t) (.text t)
  | echo {argument : Text} {i : Interpolation} (h : Interpolation.parse argument = .ok i) :
      Says (.instruction echoWord argument) (.echo i)
  | ifStart {argument : Text} {e : Expr} (h : Expr.parse argument = .ok e) :
      Says (.instruction Keyword.ifStart.spelling argument) (.ifStart e)
  | elseIf {argument : Text} {e : Expr} (h : Expr.parse argument = .ok e) :
      Says (.instruction Keyword.elseIf.spelling argument) (.elseIf e)
  | otherwise (argument : Text) :
      Says (.instruction Keyword.otherwise.spelling argument) .otherwise
  | ifEnd (argument : Text) : Says (.instruction Keyword.ifEnd.spelling argument) .ifEnd
  | loopStart {argument : Text} {head : LoopHead} (h : LoopHead.parse argument = .ok head) :
      Says (.instruction Keyword.loopStart.spelling argument) (.loopStart head)
  | loopEnd (argument : Text) : Says (.instruction Keyword.loopEnd.spelling argument) .loopEnd
  | embed {argument name : Text} (h : Quoted.read? argument = some (name, [])) (hne : name ≠ []) :
      Says (.instruction Keyword.embed.spelling argument) (.embed name)
  | uses {argument name : Text} (h : Quoted.read? argument = some (name, [])) (hne : name ≠ []) :
      Says (.instruction usesWord argument) (.uses name)

theorem quotedName?_eq_some_iff {argument name : Text} :
    quotedName? argument = some name ↔ Quoted.read? argument = some (name, []) ∧ name ≠ [] := by
  unfold quotedName?
  split
  · next other h =>
    by_cases hne : other = []
    · simp [h, hne]
    · simp only [h, if_neg hne, Option.some.injEq, Prod.mk.injEq, and_true]
      constructor
      · rintro rfl
        exact ⟨rfl, hne⟩
      · exact And.left
  · next hother =>
    constructor
    · intro h
      cases h
    · rintro ⟨h, -⟩
      exact absurd h (hother name)

theorem map_quotedName_eq_ok_iff {f : Text → Item} {word argument : Text} {item : Item} :
    (quotedName word argument).map f = .ok item ↔
      ∃ name, Quoted.read? argument = some (name, []) ∧ name ≠ [] ∧ f name = item := by
  unfold quotedName
  cases h : quotedName? argument with
  | none =>
      have hnone : ∀ name, ¬ (Quoted.read? argument = some (name, []) ∧ name ≠ []) := by
        intro name hname
        rw [quotedName?_eq_some_iff.2 hname] at h
        cases h
      constructor
      · intro hmap
        cases hmap
      · rintro ⟨name, hread, hne, -⟩
        exact absurd ⟨hread, hne⟩ (hnone name)
  | some name =>
      obtain ⟨hread, hne⟩ := quotedName?_eq_some_iff.1 h
      simp [Except.map, hread, hne]

theorem map_argumentOf_eq_ok_iff {α : Type} {parse : Text → Except ExprError α} {f : α → Item}
    {word argument : Text} {item : Item} :
    (argumentOf parse word argument).map f = .ok item ↔
      ∃ a, parse argument = .ok a ∧ f a = item := by
  unfold argumentOf
  cases parse argument <;> simp [Except.map]

theorem Piece.item_eq_ok_iff {piece : Piece} {item : Item} :
    piece.item = .ok item ↔ piece.Says item := by
  constructor
  · intro h
    cases piece with
    | text t =>
        cases h
        exact .text t
    | instruction word argument =>
        unfold Piece.item at h
        dsimp only at h
        split at h
        · next hword =>
          obtain ⟨i, hi, rfl⟩ := map_argumentOf_eq_ok_iff.1 h
          exact hword ▸ .echo hi
        · split at h
          · next hword =>
            obtain ⟨name, hread, hne, rfl⟩ := map_quotedName_eq_ok_iff.1 h
            exact hword ▸ .uses hread hne
          · split at h
            · next hk =>
              obtain ⟨e, he, rfl⟩ := map_argumentOf_eq_ok_iff.1 h
              exact Keyword.spelling_of_ofWord? hk ▸ .ifStart he
            · next hk =>
              obtain ⟨e, he, rfl⟩ := map_argumentOf_eq_ok_iff.1 h
              exact Keyword.spelling_of_ofWord? hk ▸ .elseIf he
            · next hk =>
              cases h
              exact Keyword.spelling_of_ofWord? hk ▸ .otherwise argument
            · next hk =>
              cases h
              exact Keyword.spelling_of_ofWord? hk ▸ .ifEnd argument
            · next hk =>
              obtain ⟨head, hhead, rfl⟩ := map_argumentOf_eq_ok_iff.1 h
              exact Keyword.spelling_of_ofWord? hk ▸ .loopStart hhead
            · next hk =>
              cases h
              exact Keyword.spelling_of_ofWord? hk ▸ .loopEnd argument
            · next hk =>
              obtain ⟨name, hread, hne, rfl⟩ := map_quotedName_eq_ok_iff.1 h
              exact Keyword.spelling_of_ofWord? hk ▸ .embed hread hne
            · cases h
  · intro h
    cases h with
    | text t => rfl
    | echo h => exact map_argumentOf_eq_ok_iff.2 ⟨_, h, rfl⟩
    | uses h hne => exact map_quotedName_eq_ok_iff.2 ⟨_, h, hne, rfl⟩
    | ifStart h | elseIf h | loopStart h => exact map_argumentOf_eq_ok_iff.2 ⟨_, h, rfl⟩
    | embed h hne => exact map_quotedName_eq_ok_iff.2 ⟨_, h, hne, rfl⟩
    | otherwise argument | ifEnd argument | loopEnd argument => rfl

/-! ## Builders item by item -/

namespace Builder

def addItems (b : Builder) : List Item → Except Fault Builder
  | [] => .ok b
  | item :: items =>
    match b.add item with
    | .error fault => .error fault
    | .ok b => b.addItems items

theorem addItems_cons_eq_ok_iff {b b' : Builder} {item : Item} {items : List Item} :
    b.addItems (item :: items) = .ok b' ↔
      ∃ next, b.add item = .ok next ∧ next.addItems items = .ok b' := by
  rw [addItems]
  cases b.add item <;> simp

theorem addItems_append_eq_ok_iff {b b' : Builder} {items more : List Item} :
    b.addItems (items ++ more) = .ok b' ↔
      ∃ mid, b.addItems items = .ok mid ∧ mid.addItems more = .ok b' := by
  induction items generalizing b with
  | nil => simp [addItems]
  | cons item items ih =>
      rw [List.cons_append, addItems_cons_eq_ok_iff]
      simp only [ih, addItems_cons_eq_ok_iff]
      constructor
      · rintro ⟨next, hadd, mid, hmid, hrest⟩
        exact ⟨mid, ⟨next, hadd, hmid⟩, hrest⟩
      · rintro ⟨mid, ⟨next, hadd, hmid⟩, hrest⟩
        exact ⟨next, hadd, mid, hmid, hrest⟩

theorem addAll_eq_ok_iff {b b' : Builder} {pieces : List Piece} :
    b.addAll pieces = .ok b' ↔
      ∃ items, List.Forall₂ Piece.Says pieces items ∧ b.addItems items = .ok b' := by
  induction pieces generalizing b with
  | nil => simp [addAll, addItems]
  | cons piece pieces ih =>
      rw [addAll]
      constructor
      · intro h
        split at h
        · cases h
        · next item hitem =>
          split at h
          · cases h
          · next next hadd =>
            obtain ⟨items, hsays, hitems⟩ := ih.1 h
            exact ⟨item :: items, .cons (Piece.item_eq_ok_iff.1 hitem) hsays,
              addItems_cons_eq_ok_iff.2 ⟨next, hadd, hitems⟩⟩
      · rintro ⟨items, hsays, hitems⟩
        cases hsays with
        | cons hsay hsays =>
            obtain ⟨next, hadd, hrest⟩ := addItems_cons_eq_ok_iff.1 hitems
            rw [Piece.item_eq_ok_iff.2 hsay]
            dsimp only
            rw [hadd]
            exact ih.2 ⟨_, hsays, hrest⟩

theorem finish_eq_ok_iff {b : Builder} {p : Program} :
    b.finish = .ok p ↔ b.open_ = [] ∧ p = ⟨b.nodes.reverse⟩ := by
  unfold finish
  split
  · next h => simp [h, eq_comm]
  · next h => simp [h]
  · next hnil hloop =>
    constructor
    · intro h
      cases h
    · rintro ⟨h, -⟩
      exact absurd h hnil

end Builder

end Stencil.Artifact
