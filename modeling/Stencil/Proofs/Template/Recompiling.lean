import Stencil.Proofs.Template.Openers

/-!
# Compiled texts cut into fragments

A compiled text is cut where its source is cut: each directive is found as the
one instruction that was written for it, and all else is found again.
-/

namespace Stencil.Template

open Quoting

namespace Fragment

def carried (f : Fragment) : Fragment :=
  match f.content? with
  | some content => ofContent content
  | none => f

theorem carried_of_isKept {f : Fragment} (h : f.isKept = true) : f.carried = f := by
  obtain ⟨kind, raw⟩ := f
  cases kind with
  | text => rfl
  | instruction body => rfl
  | comment => cases h
  | directive d =>
      have hnone : d.content? = none := by
        rw [← Option.isNone_iff_eq_none, Directive.content?_isNone]
        exact h
      simp only [carried, content?, directive?, Option.bind_some, hnone]

theorem recognise?_compile {t rest : Text} {f : Fragment} (h : recognise? t = some (f, rest))
    (ht : IsCanonical t) : recognise? (compile t) = some (f.carried, compile rest) := by
  obtain ⟨hf, hrest⟩ := ht.of_recognise? h
  have hfound := isFound_of_recognise? h
  rw [compile_of_recognise? h]
  cases hk : f.isKept with
  | true =>
      rw [eq_of_recognise? h] at h
      rw [compiled_of_isKept hk, carried_of_isKept hk]
      apply recognise?_of_isKept h hk
      rw [(rewritten_compile hrest).isIdentPart_head?]
      exact id
  | false =>
      obtain ⟨content, hsplice, hcontent⟩ := isSpliced_of_isFound hfound hk hf
      rw [compiled_of_content? hcontent, carried, hcontent]
      exact recognise?_instructionText hsplice.isSealed (compile rest)

/-! ## No opener is lost and none is won -/

theorem recognise?_compile_eq_none {c : Char} {t : Text} (hc : c ≠ '<') (ht : IsCanonical (c :: t))
    (h : recognise? (c :: t) = none) : recognise? (c :: compile t) = none :=
  recognise?_of_rewritten hc (rewritten_compile (ht.of_cons h)) h

/-- An instruction that the source does not have swallows the compiled text up to the end of
one that was written. -/
theorem instruction?_compile {t after : Text} {f : Fragment} (ht : IsCanonical t)
    (h : recognise? ('<' :: t) = none) (hf : recognise? ('<' :: compile t) = some (f, after)) :
    ∃ rest, after = compile rest ∧ IsCanonical rest ∧ rest.length < t.length := by
  rcases instruction?_of_rewritten (rewritten_compile ht) hf with hsome | hrest
  · rw [show instruction? ('<' :: t) = none from h] at hsome
    cases hsome
  · exact hrest

theorem compiled_carried (f : Fragment) : f.carried.compiled = f.compiled := by
  unfold carried
  split
  · next content hcontent =>
    rw [compiled_of_content? hcontent]
    rfl
  · rfl

end Fragment

/-! ## Cutting compiled texts -/

open Fragment

def Fragment.Opens (f : Fragment) : Prop :=
  f.kind = .text ∧ ∃ c, Text.isWhite c = true ∧ instructionOpen ++ [c] <:+: f.raw

theorem exists_consChar (c : Char) (fragments : List Fragment) :
    ∃ raw more, consChar c fragments = ⟨.text, c :: raw⟩ :: more := by
  unfold consChar
  split
  · exact ⟨_, _, rfl⟩
  · exact ⟨[], _, rfl⟩

theorem exists_text_of_compile {t lead u : Text} (ht : IsCanonical t) (hne : lead ≠ [])
    (hlead : ∀ c ∈ lead, c ≠ '<' ∧ c ≠ '{' ∧ c ≠ '@') (h : compile t = lead ++ u) :
    ∃ raw more, ofText t = ⟨.text, lead ++ raw⟩ :: more := by
  induction lead generalizing t with
  | nil => exact absurd rfl hne
  | cons c lead ih =>
      cases t with
      | nil =>
          rw [compile_nil] at h
          cases h
      | cons d t =>
          have hmarks := hlead c List.mem_cons_self
          cases hr : recognise? (d :: t) with
          | some pair =>
              have hagain := recognise?_compile hr ht
              rw [h, List.cons_append, recognise?_of_ne hmarks.1 hmarks.2.1 hmarks.2.2] at hagain
              cases hagain
          | none =>
              rw [compile_of_recognise?_eq_none hr] at h
              obtain ⟨rfl, hrest⟩ := List.cons.inj h
              rw [ofText_of_recognise?_eq_none hr]
              by_cases hnil : lead = []
              · subst hnil
                exact exists_consChar d (ofText t)
              · obtain ⟨raw, more, htext⟩ := ih (ht.of_cons hr) hnil
                  (fun e he => hlead e (List.mem_cons_of_mem _ he)) hrest
                rw [htext]
                exact ⟨raw, more, rfl⟩

theorem recognise?_compile_of_not_opens {c : Char} {t : Text} (ht : IsCanonical (c :: t))
    (hopen : ∀ f ∈ ofText (c :: t), ¬ f.Opens) (h : recognise? (c :: t) = none) :
    recognise? (c :: compile t) = none := by
  by_cases hc : c = '<'
  · subst hc
    by_contra hsome
    obtain ⟨⟨f, after⟩, hf⟩ := Option.ne_none_iff_exists'.1 hsome
    obtain ⟨d, body, hd, -, rfl, htext⟩ := instruction?_eq_some_iff.1 hf
    have hcompile :
        compile t = ['?', 'e', 'l', 'l', 'e', d] ++ (body ++ instructionClose ++ after) := by
      simpa [instructionOpen] using htext
    have hmarks : ∀ e ∈ ['?', 'e', 'l', 'l', 'e', d], e ≠ '<' ∧ e ≠ '{' ∧ e ≠ '@' := by
      have hd' : d ≠ '<' ∧ d ≠ '{' ∧ d ≠ '@' := by
        refine ⟨?_, ?_, ?_⟩ <;> (rintro rfl; cases hd)
      simp [hd']
    obtain ⟨raw, more, hmore⟩ := exists_text_of_compile (ht.of_cons h) (by simp) hmarks hcompile
    -- its opener was literal text in the source already, which `hopen` rules out
    have hmem : ⟨.text, '<' :: (['?', 'e', 'l', 'l', 'e', d] ++ raw)⟩ ∈ ofText ('<' :: t) := by
      rw [ofText_of_recognise?_eq_none h, hmore]
      exact List.mem_cons_self
    exact hopen _ hmem ⟨rfl, d, hd, List.IsPrefix.isInfix ⟨raw, by simp [instructionOpen]⟩⟩
  · exact recognise?_compile_eq_none hc ht h

theorem not_opens_of_cons {c : Char} {t : Text} (h : recognise? (c :: t) = none)
    (hopen : ∀ f ∈ ofText (c :: t), ¬ f.Opens) : ∀ f ∈ ofText t, ¬ f.Opens := by
  rw [ofText_of_recognise?_eq_none h] at hopen
  rintro f hf ⟨htext, d, hd, hmark⟩
  rcases mem_consChar (c := c) hf with hmem | ⟨-, hmem⟩
  · exact hopen f hmem ⟨htext, d, hd, hmark⟩
  · exact hopen _ hmem ⟨rfl, d, hd, hmark.trans (List.suffix_cons c f.raw).isInfix⟩

theorem map_carried_consChar (c : Char) (fragments : List Fragment) :
    (consChar c fragments).map carried = consChar c (fragments.map carried) := by
  cases fragments with
  | nil => rfl
  | cons f more =>
      obtain ⟨kind, raw⟩ := f
      cases kind with
      | text | comment | instruction _ => rfl
      | directive d => cases d <;> rfl

theorem ofText_compile {s : Text} (hs : IsCanonical s) (hopen : ∀ f ∈ ofText s, ¬ f.Opens) :
    ofText (compile s) = (ofText s).map carried := by
  fun_induction ofText s with
  | case1 =>
      rw [compile_nil, ofText]
      rfl
  | case2 c t f rest h _ ih =>
      have hrest := ih (hs.of_recognise? h).2 fun g hg => hopen g (List.mem_cons_of_mem _ hg)
      rw [ofText_of_recognise? (recognise?_compile h hs), hrest]
      rfl
  | case3 c t h ih =>
      rw [← ofText_of_recognise?_eq_none h] at hopen
      have hrest := ih (hs.of_cons h) (not_opens_of_cons h hopen)
      rw [compile_of_recognise?_eq_none h,
        ofText_of_recognise?_eq_none (recognise?_compile_of_not_opens hs hopen h), hrest,
        map_carried_consChar]

/-! ## Compiling twice -/

theorem compile_compile_of_isCanonical {s : Text} (hs : IsCanonical s) :
    compile (compile s) = compile s := by
  -- by length: an instruction that only the compiled text has takes up several fragments
  induction hlength : s.length using Nat.strong_induction_on generalizing s with
  | _ n ih =>
      subst hlength
      cases s with
      | nil => rw [compile_nil, compile_nil]
      | cons c t =>
          cases h : recognise? (c :: t) with
          | some pair =>
              obtain ⟨f, rest⟩ := pair
              have hrest := ih rest.length (length_of_recognise? h) (hs.of_recognise? h).2 rfl
              rw [compile_of_recognise? (recognise?_compile h hs), hrest,
                compile_of_recognise? h, compiled_carried]
          | none =>
              have ht := hs.of_cons h
              have htail := ih t.length (Nat.lt_succ_self _) ht rfl
              rw [compile_of_recognise?_eq_none h]
              cases h' : recognise? (c :: compile t) with
              | none => rw [compile_of_recognise?_eq_none h', htail]
              | some pair =>
                  obtain ⟨f, after⟩ := pair
                  obtain rfl : c = '<' := by
                    by_contra hc
                    rw [recognise?_compile_eq_none hc hs h] at h'
                    cases h'
                  obtain ⟨rest, rfl, hcanonical, hlt⟩ := instruction?_compile ht h h'
                  have hrest := ih rest.length (Nat.lt_succ_of_lt hlt) hcanonical rfl
                  obtain ⟨_, _, _, _, hf, _⟩ := instruction?_eq_some_iff.1 h'
                  have hkept : f.isKept = true := by rw [hf]; rfl
                  rw [compile_of_recognise? h', hrest, compiled_of_isKept hkept,
                    ← eq_of_recognise? h']

end Stencil.Template
