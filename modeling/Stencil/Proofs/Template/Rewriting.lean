import Stencil.Proofs.Template.Splice

/-!
# Sources and their compiled texts

A compiled text is its source with directives spliced.  What either of them
starts with shows what the other one starts with, as long as no directive and
no instruction is in the way.
-/

namespace Stencil.Template

open Quoting Fragment

/-- Neither comments nor names that compilation writes in another way. -/
def IsCanonical (source : Text) : Prop := ∀ f ∈ ofText source, f.isCanonical = true

/-! ## Compiling a text fragment by fragment -/

theorem compile_of_recognise? {t rest : Text} {f : Fragment}
    (h : recognise? t = some (f, rest)) : compile t = f.compiled ++ compile rest := by
  rw [compile, ofText_of_recognise? h, List.flatMap_cons]
  rfl

theorem flatMap_compiled_consChar (c : Char) (fragments : List Fragment) :
    (consChar c fragments).flatMap compiled = c :: fragments.flatMap compiled := by
  unfold consChar
  split <;> rfl

theorem compile_of_recognise?_eq_none {c : Char} {t : Text} (h : recognise? (c :: t) = none) :
    compile (c :: t) = c :: compile t := by
  rw [compile, ofText_of_recognise?_eq_none h, flatMap_compiled_consChar]
  rfl

theorem compile_nil : compile [] = [] := by
  rw [compile, ofText]
  rfl

theorem IsCanonical.of_recognise? {t rest : Text} {f : Fragment} (ht : IsCanonical t)
    (h : recognise? t = some (f, rest)) : f.isCanonical = true ∧ IsCanonical rest := by
  rw [IsCanonical, ofText_of_recognise? h] at ht
  exact ⟨ht f List.mem_cons_self, fun g hg => ht g (List.mem_cons_of_mem _ hg)⟩

theorem mem_consChar {c : Char} {fragments : List Fragment} {f : Fragment} (hf : f ∈ fragments) :
    f ∈ consChar c fragments ∨ f.kind = .text ∧ ⟨.text, c :: f.raw⟩ ∈ consChar c fragments := by
  unfold consChar
  split
  · next raw more =>
    rcases List.mem_cons.1 hf with rfl | hf
    · exact Or.inr ⟨rfl, List.mem_cons_self⟩
    · exact Or.inl (List.mem_cons_of_mem _ hf)
  · exact Or.inl (List.mem_cons_of_mem _ hf)

theorem isCanonical_of_text {f : Fragment} (h : f.kind = .text) : f.isCanonical = true := by
  rw [isCanonical, h]

theorem IsCanonical.of_cons {c : Char} {t : Text} (ht : IsCanonical (c :: t))
    (h : recognise? (c :: t) = none) : IsCanonical t := by
  rw [IsCanonical, ofText_of_recognise?_eq_none h] at ht
  intro f hf
  rcases mem_consChar (c := c) hf with hmem | ⟨htext, -⟩
  · exact ht f hmem
  · exact isCanonical_of_text htext

/-! ## Spliced texts -/

/-- A text and the same text with directives spliced, each of them in front of a source and
what that is compiled to. -/
inductive Rewritten : Text → Text → Prop
  | nil : Rewritten [] []
  | copy (c : Char) {t t' : Text} (h : Rewritten t t') : Rewritten (c :: t) (c :: t')
  | splice {raw content rest : Text} (hs : IsSpliced raw content) (hrest : IsCanonical rest)
      (h : Rewritten rest (compile rest)) :
      Rewritten (raw ++ rest) (instructionText content ++ compile rest)

theorem Rewritten.append (lead : Text) {t t' : Text} (h : Rewritten t t') :
    Rewritten (lead ++ t) (lead ++ t') := by
  induction lead with
  | nil => exact h
  | cons c lead ih => exact .copy c ih

theorem rewritten_compile {s : Text} (hs : IsCanonical s) : Rewritten s (compile s) := by
  fun_induction ofText s with
  | case1 =>
      rw [compile_nil]
      exact .nil
  | case2 c t f rest h _ ih =>
      obtain ⟨hf, hrest⟩ := hs.of_recognise? h
      rw [compile_of_recognise? h, eq_of_recognise? h]
      cases hk : f.isKept with
      | true =>
          rw [compiled_of_isKept hk]
          exact (ih hrest).append f.raw
      | false =>
          obtain ⟨content, hsplice, hcontent⟩ :=
            isSpliced_of_isFound (isFound_of_recognise? h) hk hf
          rw [compiled_of_content? hcontent]
          exact .splice hsplice hrest (ih hrest)
  | case3 c t h ih =>
      rw [compile_of_recognise?_eq_none h]
      exact .copy c (ih (hs.of_cons h))

/-! ## First characters -/

namespace Rewritten

variable {t t' : Text}

theorem cases_head (h : Rewritten t t') :
    (t = [] ∧ t' = []) ∨ (∃ c u u', t = c :: u ∧ t' = c :: u' ∧ Rewritten u u') ∨
      ∃ c u u', t = c :: u ∧ (c = '{' ∨ c = '@') ∧ t' = '<' :: u' := by
  cases h with
  | nil => exact Or.inl ⟨rfl, rfl⟩
  | copy c h => exact Or.inr (Or.inl ⟨c, _, _, rfl, rfl, h⟩)
  | splice hs _ _ =>
      obtain ⟨_, ⟨c, more, rfl, hc⟩, _, _, _, _⟩ := hs
      exact Or.inr (Or.inr ⟨c, _, _, rfl, hc, rfl⟩)

theorem of_cons {c : Char} {u' : Text} (h : Rewritten t (c :: u')) (hc : c ≠ '<') :
    ∃ u, t = c :: u ∧ Rewritten u u' := by
  rcases h.cases_head with ⟨-, hnil⟩ | ⟨d, u, v, rfl, hv, hu⟩ | ⟨d, u, v, -, -, hv⟩
  · cases hnil
  · cases hv
    exact ⟨u, rfl, hu⟩
  · exact absurd (List.cons.inj hv).1 hc

theorem of_cons_left {c : Char} {u : Text} (h : Rewritten (c :: u) t')
    (hc : c ≠ '{' ∧ c ≠ '@') : ∃ u', t' = c :: u' ∧ Rewritten u u' := by
  rcases h.cases_head with ⟨hnil, -⟩ | ⟨d, v, u', hv, rfl, hu⟩ | ⟨d, v, u', hv, hd, -⟩
  · cases hnil
  · cases hv
    exact ⟨u', rfl, hu⟩
  · cases hv
    rcases hd with rfl | rfl
    · exact absurd rfl hc.1
    · exact absurd rfl hc.2

theorem of_append {lead u' : Text} (h : Rewritten t (lead ++ u')) (hlead : '<' ∉ lead) :
    ∃ u, t = lead ++ u ∧ Rewritten u u' := by
  induction lead generalizing t with
  | nil => exact ⟨t, rfl, h⟩
  | cons c lead ih =>
      rw [List.mem_cons, not_or] at hlead
      obtain ⟨v, rfl, hv⟩ := h.of_cons (Ne.symm hlead.1)
      obtain ⟨u, rfl, hu⟩ := ih hv hlead.2
      exact ⟨u, rfl, hu⟩

theorem of_append_left {lead u : Text} (h : Rewritten (lead ++ u) t')
    (hlead : ∀ c ∈ lead, c ≠ '{' ∧ c ≠ '@') : ∃ u', t' = lead ++ u' ∧ Rewritten u u' := by
  induction lead generalizing t' with
  | nil => exact ⟨t', rfl, h⟩
  | cons c lead ih =>
      obtain ⟨v, rfl, hv⟩ := h.of_cons_left (hlead c List.mem_cons_self)
      obtain ⟨u', rfl, hu⟩ := ih hv fun d hd => hlead d (List.mem_cons_of_mem _ hd)
      exact ⟨u', rfl, hu⟩

theorem isIdentPart_head? (h : Rewritten t t') :
    t'.head?.any isIdentPart = t.head?.any isIdentPart := by
  rcases h.cases_head with
    ⟨rfl, rfl⟩ | ⟨c, u, u', rfl, rfl, -⟩ | ⟨c, u, u', rfl, rfl | rfl, rfl⟩ <;> rfl

/-! ## Closing marks of comments -/

theorem infix_of_infix_append_cons {mark t u : Text} {c : Char} (hc : c ∉ mark)
    (h : mark <:+: t ++ c :: u) : mark <:+: t ∨ mark <:+: u := by
  rcases List.infix_append_iff.1 h with h | h | ⟨front, back, rfl, hfront, hback⟩
  · exact Or.inl h
  · rcases List.infix_cons_iff.1 h with h | h
    · rcases List.prefix_cons_iff.1 h with rfl | ⟨more, rfl, -⟩
      · exact Or.inl List.nil_infix
      · exact absurd List.mem_cons_self hc
    · exact Or.inr h
  · rcases List.prefix_cons_iff.1 hback with rfl | ⟨more, rfl, -⟩
    · rw [List.append_nil]
      exact Or.inl hfront.isInfix
    · exact absurd (List.mem_append_right front List.mem_cons_self) hc

theorem infix_of_infix_append {c : Char} {mark t u : Text} (hc : c ∉ t)
    (h : c :: mark <:+: t ++ u) : c :: mark <:+: u := by
  rcases List.infix_append_iff.1 h with h | h | ⟨front, back, hmark, hfront, hback⟩
  · exact absurd (h.subset List.mem_cons_self) hc
  · exact h
  · cases front with
    | nil =>
        rw [hmark]
        exact hback.isInfix
    | cons d front =>
        obtain rfl : c = d := (List.cons.inj hmark).1
        exact absurd (hfront.subset List.mem_cons_self) hc

theorem commentClose_of_infix_instructionText {front body more : Text} (hfront : IsFront front)
    (h : commentClose <:+: instructionText (front ++ body) ++ more) :
    commentClose <:+: body ∨ commentClose <:+: more := by
  have htext : instructionText (front ++ body) ++ more =
      (instructionOpen ++ ' ' :: front ++ body) ++ ' ' :: '?' :: '>' :: more := by
    simp [instructionText, instructionClose]
  rw [htext] at h
  rcases infix_of_infix_append_cons (by decide) h with h | h
  · refine Or.inl (infix_of_infix_append ?_ h)
    have hmem : '-' ∉ front := fun hc => (hfront.ne hc).2.2.2 rfl
    simp [instructionOpen, hmem]
  · have hmore : commentClose <:+: [] ∨ commentClose <:+: '>' :: more :=
      infix_of_infix_append_cons (by decide) h
    rcases hmore with hnil | hmore
    · cases List.infix_nil.1 hnil
    · have hrest : commentClose <:+: [] ∨ commentClose <:+: more :=
        infix_of_infix_append_cons (by decide) hmore
      rcases hrest with hnil | hrest
      · cases List.infix_nil.1 hnil
      · exact Or.inr hrest

theorem commentClose_left (h : Rewritten t t') (hclose : commentClose <:+: t') :
    commentClose <:+: t := by
  induction h with
  | nil => exact hclose
  | @copy c t t' h ih =>
      rcases List.infix_cons_iff.1 hclose with ⟨rest, hrest⟩ | hinner
      · have hcopy : Rewritten (c :: t) (commentClose ++ rest) := by
          rw [hrest]
          exact .copy c h
        obtain ⟨u, hu, -⟩ := hcopy.of_append (by decide)
        exact List.IsPrefix.isInfix ⟨u, hu.symm⟩
      · exact (ih hinner).trans (List.suffix_cons c t).isInfix
  | @splice raw content rest hs _ _ ih =>
      cases hs with
      | @mk lead body tail front _ _ _ _ hfront _ =>
          rcases commentClose_of_infix_instructionText hfront hclose with hbody | hmore
          · exact hbody.trans ⟨lead, tail ++ rest, by simp⟩
          · exact (ih hmore).trans (List.suffix_append _ rest).isInfix

end Rewritten

end Stencil.Template
