import Stencil.Proofs.Template.Closer
import Stencil.Proofs.Text.Trim
import Stencil.Template.Compile

/-!
# Instructions read back

Content is sealed if its literals are closed and no closing mark stands outside
of them.  An instruction that is written with sealed content is read back with
just that content, whatever follows it.
-/

namespace Stencil.Template

open Quoting

structure IsSealed (content : Text) : Prop where
  closed : outside.run content = .outside
  silent : ¬ instructionClose <:+: outside.outline content

theorem IsSealed.append {t u : Text} (ht : outside.run t = .outside) (hu : IsSealed u)
    (h : ¬ instructionClose <:+: outside.outline t ++ outside.outline u) : IsSealed (t ++ u) where
  closed := by rw [run_append, ht, hu.closed]
  silent := by rwa [outline_append, ht]

theorem sharp_instructionClose : Closer.Sharp instructionClose := ⟨'?', ['>'], rfl, rfl⟩

theorem sharp_echoClose : Closer.Sharp echoClose := ⟨'}', ['}'], rfl, rfl⟩

theorem hit?_instructionClose_eq_none {c : Char} {t rest : Text}
    (h : ¬ instructionClose <:+: outside.outline (c :: t)) :
    (Closer.ofMark instructionClose).hit? 0 .outside
      (c :: (t ++ ' ' :: instructionClose ++ rest)) = none := by
  rw [Option.eq_none_iff_forall_not_mem]
  intro after hafter
  have hmark : c :: (t ++ ' ' :: instructionClose ++ rest) = instructionClose ++ after := by
    simpa [Closer.hit?, Closer.ofMark, Text.after?_eq_some_iff] using hafter
  simp only [instructionClose, List.cons_append, List.nil_append, List.cons.injEq] at hmark
  obtain ⟨rfl, hmark⟩ := hmark
  cases t with
  | nil => simp at hmark
  | cons d t =>
      simp only [List.cons_append, List.cons.injEq] at hmark
      obtain ⟨rfl, -⟩ := hmark
      refine h (List.IsPrefix.isInfix ⟨outside.outline t, ?_⟩)
      simp [outline_cons, shown, next, Quoted.isQuote, instructionClose]

theorem split?_instructionClose (s : Quoting) (t rest : Text) (hrun : s.run t = .outside)
    (hsilent : ¬ instructionClose <:+: s.outline t) :
    (Closer.ofMark instructionClose).split? 0 s (t ++ ' ' :: instructionClose ++ rest) =
      some (t ++ [' '], rest) := by
  induction t generalizing s with
  | nil =>
      simp only [run_nil] at hrun
      subst hrun
      simp [Closer.split?_cons, Closer.hit?, Closer.ofMark, instructionClose, Text.after?,
        Closer.depthAfter, next, Quoted.isQuote, prepend]
  | cons c t ih =>
      have hhit : (Closer.ofMark instructionClose).hit? 0 s
          (c :: (t ++ ' ' :: instructionClose ++ rest)) = none := by
        by_cases hs : s = .outside
        · subst hs
          exact hit?_instructionClose_eq_none hsilent
        · exact Closer.hit?_of_ne_outside _ _ hs _
      have hdepth : (Closer.ofMark instructionClose).depthAfter 0 s c = 0 := by
        simp [Closer.depthAfter, Closer.ofMark]
      have htail : ¬ instructionClose <:+: (s.next c).outline t := by
        intro h
        rw [outline_cons] at hsilent
        exact hsilent (h.trans (List.suffix_append _ _).isInfix)
      rw [List.cons_append, List.cons_append, Closer.split?_cons, hhit, hdepth,
        ih (s.next c) hrun htail]
      rfl

theorem isTrimmed_quote (name : Text) : Text.IsTrimmed (Quoted.quote name) := by
  have hq : Text.isWhite '\'' = false := by decide
  constructor
  · intro c hc
    simp only [Quoted.quote, List.cons_append, List.head?_cons, Option.mem_some_iff] at hc
    exact hc ▸ hq
  · intro c hc
    rw [Quoted.quote, List.getLast?_append] at hc
    simp only [List.getLast?_singleton, Option.some_or, Option.mem_some_iff] at hc
    exact hc ▸ hq

theorem isSealed_quote {word : Text} (hword : ∀ c ∈ word, Quoted.isQuote c = false ∧ c ≠ '?')
    (name : Text) : IsSealed (withArgument word (Quoted.quote name)) where
  closed := by
    have hw := run_outside_of_isPlain fun c hc => (hword c hc).1
    rw [withArgument, run_append, hw, run_cons]
    exact run_quote name
  silent := by
    obtain ⟨quote, hq, hout⟩ := outline_of_read? (read?_quote name)
    have hw := run_outside_of_isPlain fun c hc => (hword c hc).1
    have hmark : '?' ∉ outside.outline (withArgument word (Quoted.quote name)) := by
      rw [withArgument, outline_append, outline_outside_of_isPlain fun c hc => (hword c hc).1, hw,
        outline_cons, show outside.next ' ' = outside from rfl, hout]
      have hne : quote ≠ '?' := by
        rintro rfl
        cases hq
      have hmem : '?' ∉ word := fun h => (hword '?' h).2 rfl
      simp only [outline_nil, List.mem_append, hmem, false_or]
      split <;> simp [shown, filler, hne.symm]
    intro h
    exact hmark (h.subset (by simp [instructionClose]))

namespace Fragment

def ofContent (content : Text) : Fragment :=
  ⟨.instruction (' ' :: content ++ [' ']), instructionText content⟩

theorem recognise?_instructionText {content : Text} (h : IsSealed content) (rest : Text) :
    recognise? (instructionText content ++ rest) = some (ofContent content, rest) := by
  have hsplit : splitUnquoted? instructionClose none
      (' ' :: (content ++ ' ' :: (instructionClose ++ rest))) =
        some (' ' :: (content ++ [' ']), rest) := by
    rw [Closer.splitUnquoted?_eq_split? sharp_instructionClose none (by simp)]
    have hsilent : ¬ instructionClose <:+: outside.outline (' ' :: content) := by
      rw [show outside.outline (' ' :: content) = ' ' :: outside.outline content from rfl,
        List.infix_cons_iff]
      rintro (hstart | hmark)
      · simp [instructionClose] at hstart
      · exact h.silent hmark
    simpa using split?_instructionClose .outside (' ' :: content) rest h.closed hsilent
  have hafter : Text.after? instructionOpen (instructionText content ++ rest) =
      some (' ' :: (content ++ ' ' :: (instructionClose ++ rest))) := by
    rw [Text.after?_eq_some_iff]
    simp [instructionText]
  have hfirst : recognise? (instructionText content ++ rest) =
      instruction? (instructionText content ++ rest) := rfl
  rw [hfirst, instruction?, hafter]
  simp [hsplit, ofContent, instructionText, Text.isWhite]

theorem ofText_of_recognise? {t rest : Text} {f : Fragment}
    (h : recognise? t = some (f, rest)) : ofText t = f :: ofText rest := by
  cases t with
  | nil => cases h
  | cons c t =>
      rw [ofText]
      split
      · next g r hg =>
        rw [h] at hg
        simp only [Option.some.injEq, Prod.mk.injEq] at hg
        rw [hg.1, hg.2]
      · next hg =>
        rw [h] at hg
        cases hg

theorem ofText_of_recognise?_eq_none {c : Char} {t : Text}
    (h : recognise? (c :: t) = none) : ofText (c :: t) = consChar c (ofText t) := by
  rw [ofText]
  split
  · next g r hg =>
    rw [h] at hg
    cases hg
  · rfl

end Fragment

end Stencil.Template
