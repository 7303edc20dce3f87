import Stencil.Proofs.Template.Instruction
import Stencil.Template.Layout

/-!
# Documents that only inherit

A template that does nothing but name its layout has no sections, so the text
of its chain is that of the layout with the layout's own sections filled from
none.  That is the text of the layout itself unless its sections hold slots
for one another.
-/

namespace Stencil

namespace Quoted

theorem items?_quote (name : Text) : items? (quote name) = some [name] := by
  have hread := Template.Quoting.read?_quote name
  rw [items?]
  split
  · next h =>
    rw [hread] at h
    cases h
  · next item rest h =>
    rw [hread] at h
    cases h
    rfl

theorem list?_quote (name : Text) : list? (quote name) = some [name] := by
  have htrim : Text.trimStart (quote name) = quote name :=
    Text.dropWhile_eq_self (Template.isTrimmed_quote name).1
  rw [list?, htrim, if_neg (by simp [quote]), items?_quote]

end Quoted

namespace Template

open Quoting

def inheriting (layout : Text) : Text :=
  '@' :: Keyword.inherit.spelling ++ '(' :: Quoted.quote layout ++ [')']

theorem splitParen?_quote (name rest : Text) :
    splitParen? 0 none (Quoted.quote name ++ ')' :: rest) = some (Quoted.quote name, rest) := by
  rw [Closer.splitParen?_eq_split? 0 none (by simp)]
  refine Closer.split?_of_outline (k := .paren) (by simp [Closer.paren]) (run_quote name) ?_ rest
  obtain ⟨quote, hq, hout⟩ := outline_of_read? (read?_quote name)
  rw [hout]
  intro c hc
  have hcases : c = quote ∨ c = filler := by
    simp only [outline_nil, List.cons_append, List.mem_cons, List.mem_append, List.not_mem_nil,
      or_false] at hc
    rcases hc with rfl | hc | rfl
    · exact Or.inl rfl
    · split at hc
      · cases hc
      · exact Or.inr (List.mem_singleton.1 hc)
    · exact Or.inl rfl
  rcases hcases with rfl | rfl
  · simp only [Closer.paren, List.head?_cons, Option.mem_some_iff]
    refine ⟨?_, ?_, ?_⟩ <;> rintro rfl <;> cases hq
  · decide

namespace Fragment

theorem keyword?_inherit {layout : Text} (h : layout ≠ []) (rest : Text) :
    keyword? (Keyword.inherit.spelling ++ '(' :: (Quoted.quote layout ++ ')' :: rest)) =
      some (⟨.directive (.inherit layout), inheriting layout⟩, rest) := by
  have hword : word? (Keyword.inherit.spelling ++ '(' :: (Quoted.quote layout ++ ')' :: rest)) =
      some (Keyword.inherit.spelling, '(' :: (Quoted.quote layout ++ ')' :: rest)) := by
    simp [word?, Keyword.spelling, isIdentPart]
  have hdirective : Keyword.inherit.directive? (Quoted.quote layout) = some (.inherit layout) := by
    simp [Keyword.directive?, Keyword.name?, Quoted.list?_quote, h]
  have hgap : isGap '(' = false := rfl
  simp only [keyword?, hword, Keyword.ofWord?_spelling, Keyword.takesArguments, if_true,
    List.dropWhile_cons_of_neg, hgap, Bool.false_eq_true, not_false_eq_true, splitParen?_quote,
    hdirective, Option.map_some, List.takeWhile_cons_of_neg]
  simp [inheriting]

theorem ofText_inheriting {layout : Text} (h : layout ≠ []) :
    ofText (inheriting layout) = [⟨.directive (.inherit layout), inheriting layout⟩] := by
  have hrecognise : recognise? (inheriting layout) =
      some (⟨.directive (.inherit layout), inheriting layout⟩, []) := by
    simpa [inheriting, recognise?] using keyword?_inherit h []
  rw [ofText_of_recognise? hrecognise, ofText]

end Fragment

theorem compile_inheriting {layout : Text} (h : layout ≠ []) :
    compile (inheriting layout) = inheriting layout := by
  simp [compile, Fragment.ofText_inheriting h, Fragment.compiled, Directive.content?]

namespace Document

theorem ofSource_inheriting {layout : Text} (h : layout ≠ []) :
    ofSource (inheriting layout) = ⟨some layout, [], []⟩ := by
  rw [ofSource, compile_inheriting h, ofCompiled, Fragment.ofText_inheriting h,
    Fragment.document]
  simp only [Fragment.directive?]
  rw [Fragment.document]
  rfl

end Document

/-! ## The text of a chain below a child without sections -/

def composeBelow : List Document → Text
  | [] => []
  | layout :: layouts =>
    fillSlots (layouts.foldl Document.inheritedSections (layout.sections.mapValues (fillSlots [])))
      ((layouts.getLast?.getD layout).body)

theorem orElse_nil_left {α : Type} (b : Bindings α) : Bindings.orElse [] b = b := by
  simp [Bindings.orElse]

theorem composeAll_cons_of_sections_eq_nil {page : Document} (h : page.sections = [])
    (layout : Document) (layouts : List Document) :
    composeAll (page :: layout :: layouts) = composeBelow (layout :: layouts) := by
  have hown : page.ownSections = [] := by simp [Document.ownSections, h, Bindings.mapValues]
  have hfirst : Document.inheritedSections [] layout =
      layout.sections.mapValues (fillSlots []) := orElse_nil_left _
  have hlast : (layout :: layouts).getLast?.getD page = layouts.getLast?.getD layout := by
    cases layouts with
    | nil => rfl
    | cons next layouts => simp [List.getLast?_cons]
  rw [composeAll, composeBelow, Document.allSections, hown, List.foldl_cons, hfirst, hlast]

def Document.IsFlat (d : Document) : Prop :=
  ∀ pair ∈ d.sections, ∀ f ∈ Fragment.ofText pair.2, ∀ name fallback,
    f.directive? = some (.slot name fallback) → d.sections.get? name = none

theorem fillSlots_congr {sections others : Bindings Text} {compiled : Text}
    (h : ∀ f ∈ Fragment.ofText compiled, ∀ name fallback,
      f.directive? = some (.slot name fallback) → sections.get? name = others.get? name) :
    fillSlots sections compiled = fillSlots others compiled := by
  unfold fillSlots
  rw [List.flatMap_def, List.flatMap_def]
  refine congrArg List.flatten (List.map_congr_left fun f hf => ?_)
  unfold Fragment.filled
  split
  · next name fallback hslot => rw [h f hf name fallback hslot]
  · rfl

theorem composeBelow_eq_composeAll {layout : Document} (h : layout.IsFlat)
    (layouts : List Document) :
    composeBelow (layout :: layouts) = composeAll (layout :: layouts) := by
  have hsections : layout.sections.mapValues (fillSlots []) = layout.ownSections := by
    refine List.map_congr_left fun pair hpair => ?_
    obtain ⟨name, content⟩ := pair
    have hfill : fillSlots [] content = fillSlots layout.sections content :=
      fillSlots_congr fun f hf slot fallback hslot => (h _ hpair f hf slot fallback hslot).symm
    exact congrArg (Prod.mk name) hfill
  rw [composeBelow, composeAll, Document.allSections, hsections]

end Template

end Stencil
