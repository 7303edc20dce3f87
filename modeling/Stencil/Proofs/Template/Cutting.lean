import Stencil.Proofs.Template.Recognition

/-!
# How a text is cut

The fragments of a text are the only ones that make up the text, are recognised
where they stand, and leave no place inside of literal text at which anything is
recognised.
-/

namespace Stencil.Template.Fragment

/-! ## Where nothing is recognised -/

structure IsSilent (t : Text) : Prop where
  instruction : instruction? t = none
  comment : comment? t = none
  echo : echo? t = none
  keyword : ∀ u, t = '@' :: u → keyword? u = none

theorem recognise?_eq_none_of_isSilent {t : Text} (h : IsSilent t) : recognise? t = none := by
  unfold recognise?
  split
  · exact h.instruction
  · rw [h.comment]
    exact h.echo
  · exact h.keyword _ rfl
  · rfl

theorem isSilent_of_recognise?_eq_none {t : Text} (h : recognise? t = none) : IsSilent t := by
  constructor
  · rw [Option.eq_none_iff_forall_ne_some]
    rintro ⟨f, rest⟩ hfound
    obtain ⟨c, body, -, -, rfl, ht⟩ := instruction?_eq_some_iff.1 hfound
    obtain ⟨u, rfl⟩ : ∃ u, t = '<' :: u := ⟨_, ht⟩
    rw [show recognise? ('<' :: u) = instruction? ('<' :: u) from rfl, hfound] at h
    cases h
  · rw [Option.eq_none_iff_forall_ne_some]
    rintro ⟨f, rest⟩ hfound
    obtain ⟨body, -, rfl, ht⟩ := comment?_eq_some_iff.1 hfound
    obtain ⟨u, rfl⟩ : ∃ u, t = '{' :: u := ⟨_, ht⟩
    rw [recognise?_brace, hfound] at h
    cases h
  · rw [Option.eq_none_iff_forall_ne_some]
    rintro ⟨f, rest⟩ hfound
    obtain ⟨argument, d, -, -, rfl, ht⟩ := echo?_eq_some_iff.1 hfound
    obtain ⟨u, rfl⟩ : ∃ u, t = '{' :: u := ⟨_, ht⟩
    rw [recognise?_brace, hfound] at h
    split at h <;> cases h
  · rintro u rfl
    exact h

/-! ## Fragments in their places -/

/-- What is recognised is found again in front of the text after it, and nothing is found inside
of literal text. -/
structure IsPlaced (f : Fragment) (after : Text) : Prop where
  filled : f.raw ≠ []
  found : f.kind ≠ .text → recognise? (f.raw ++ after) = some (f, after)
  silent : f.kind = .text → ∀ lead rest, f.raw = lead ++ rest → rest ≠ [] →
    IsSilent (rest ++ after)

structure IsCut (fragments : List Fragment) : Prop where
  placed : ∀ before f after, fragments = before ++ f :: after → f.IsPlaced (toText after)
  apart : ∀ before f g after, fragments = before ++ f :: g :: after →
    f.kind = .text → g.kind ≠ .text

theorem isCut_nil : IsCut [] := by
  constructor
  · intro before f after h
    simp at h
  · intro before f g after h
    simp at h

theorem isCut_cons_iff {f : Fragment} {rest : List Fragment} :
    IsCut (f :: rest) ↔ f.IsPlaced (toText rest) ∧
      (f.kind = .text → ∀ g ∈ rest.head?, g.kind ≠ .text) ∧ IsCut rest := by
  constructor
  · intro h
    refine ⟨h.placed [] f rest rfl, ?_, ?_⟩
    · intro htext g hg
      obtain ⟨after, rfl⟩ := List.head?_eq_some_iff.1 hg
      exact h.apart [] f g after rfl htext
    · constructor
      · rintro before g after rfl
        exact h.placed (f :: before) g after rfl
      · rintro before g g' after rfl
        exact h.apart (f :: before) g g' after rfl
  · rintro ⟨hplaced, hapart, hrest⟩
    constructor
    · intro before g after h
      cases before with
      | nil =>
          obtain ⟨rfl, rfl⟩ := List.cons.inj h
          exact hplaced
      | cons first before => exact hrest.placed before g after (List.cons.inj h).2
    · intro before g g' after h htext
      cases before with
      | nil =>
          obtain ⟨rfl, rfl⟩ := List.cons.inj h
          exact hapart htext g' rfl
      | cons first before => exact hrest.apart before g g' after (List.cons.inj h).2 htext

/-! ## What a text is cut into -/

theorem kind_ne_text_of_recognise? {t rest : Text} {f : Fragment}
    (h : recognise? t = some (f, rest)) : f.kind ≠ .text := by
  cases isFound_of_recognise? h with
  | instruction hc hends => simp
  | comment body => simp
  | echo hd hends => simp
  | call hcall => cases hcall <;> simp

theorem isPlaced_of_recognise? {t rest : Text} {f : Fragment}
    (h : recognise? t = some (f, rest)) : f.IsPlaced rest := by
  have hkind := kind_ne_text_of_recognise? h
  constructor
  · exact raw_ne_nil_of_recognise? h
  · rw [← eq_of_recognise? h]
    exact fun _ => h
  · exact fun htext => absurd htext hkind

theorem isPlaced_cons_iff {c : Char} {raw after : Text} :
    IsPlaced ⟨.text, c :: raw⟩ after ↔
      IsSilent (c :: (raw ++ after)) ∧ (raw ≠ [] → IsPlaced ⟨.text, raw⟩ after) := by
  constructor
  · intro h
    refine ⟨h.silent rfl [] (c :: raw) rfl (List.cons_ne_nil _ _), fun hne => ?_⟩
    constructor
    · exact hne
    · exact fun hkind => absurd rfl hkind
    · exact fun _ lead rest hsplit => h.silent rfl (c :: lead) rest (congrArg (c :: ·) hsplit)
  · rintro ⟨hsilent, hraw⟩
    constructor
    · exact List.cons_ne_nil _ _
    · exact fun hkind => absurd rfl hkind
    · intro _ lead rest hsplit hne
      cases lead with
      | nil =>
          obtain rfl : c :: raw = rest := hsplit
          exact hsilent
      | cons d lead =>
          obtain rfl : raw = lead ++ rest := (List.cons.inj hsplit).2
          exact (hraw (List.append_ne_nil_of_right_ne_nil lead hne)).silent rfl lead rest rfl hne

theorem IsCut.consChar {c : Char} {fragments : List Fragment} (h : IsCut fragments)
    (hsilent : IsSilent (c :: toText fragments)) : IsCut (consChar c fragments) := by
  unfold Fragment.consChar
  split
  · next raw rest =>
    obtain ⟨hplaced, hapart, hrest⟩ := isCut_cons_iff.1 h
    rw [toText_cons] at hsilent
    exact isCut_cons_iff.2 ⟨isPlaced_cons_iff.2 ⟨hsilent, fun _ => hplaced⟩, hapart, hrest⟩
  · next hhead =>
    have hplaced := isPlaced_cons_iff.2 ⟨hsilent, fun hne => absurd rfl hne⟩
    refine isCut_cons_iff.2 ⟨hplaced, ?_, h⟩
    rintro - ⟨kind, raw⟩ hg rfl
    obtain ⟨rest, hfragments⟩ := List.head?_eq_some_iff.1 hg
    exact hhead raw rest hfragments

theorem isCut_ofText (t : Text) : IsCut (ofText t) := by
  fun_induction ofText t with
  | case1 => exact isCut_nil
  | case2 c t f rest hf _ ih =>
      have hkind := kind_ne_text_of_recognise? hf
      have hplaced := isPlaced_of_recognise? hf
      rw [← toText_ofText rest] at hplaced
      exact isCut_cons_iff.2 ⟨hplaced, fun htext => absurd htext hkind, ih⟩
  | case3 c t hnone ih =>
      refine ih.consChar ?_
      rw [toText_ofText]
      exact isSilent_of_recognise?_eq_none hnone

theorem IsPlaced.ofText_append {raw after : Text} (h : IsPlaced ⟨.text, raw⟩ after)
    (hafter : ∀ f ∈ (ofText after).head?, f.kind ≠ .text) :
    ofText (raw ++ after) = ⟨.text, raw⟩ :: ofText after := by
  induction raw with
  | nil => exact absurd rfl h.filled
  | cons c raw ih =>
      obtain ⟨hsilent, hrest⟩ := isPlaced_cons_iff.1 h
      rw [List.cons_append, ofText_of_recognise?_eq_none (recognise?_eq_none_of_isSilent hsilent)]
      cases raw with
      | nil =>
          rw [List.nil_append]
          cases hfragments : ofText after with
          | nil => rfl
          | cons f rest =>
              obtain ⟨kind, text⟩ := f
              rw [hfragments] at hafter
              have hkind : kind ≠ .text := hafter _ rfl
              cases kind with
              | text => exact absurd rfl hkind
              | comment => rfl
              | instruction body => rfl
              | directive d => rfl
      | cons d raw =>
          rw [ih (hrest (List.cons_ne_nil _ _))]
          rfl

theorem IsCut.ofText_toText {fragments : List Fragment} (h : IsCut fragments) :
    ofText (toText fragments) = fragments := by
  induction fragments with
  | nil => rw [toText_nil, ofText]
  | cons f rest ih =>
      obtain ⟨hplaced, hapart, hrest⟩ := isCut_cons_iff.1 h
      rw [toText_cons]
      by_cases htext : f.kind = .text
      · obtain ⟨kind, raw⟩ := f
        obtain rfl : kind = .text := htext
        rw [hplaced.ofText_append (by rw [ih hrest]; exact hapart rfl), ih hrest]
      · rw [ofText_of_recognise? (hplaced.found htext), ih hrest]

/-- Cutting loses nothing, leaves nothing in literal text that would be recognised, and there is no
other way to cut a text. -/
theorem ofText_eq_iff {source : Text} {fragments : List Fragment} :
    ofText source = fragments ↔ toText fragments = source ∧ IsCut fragments := by
  constructor
  · rintro rfl
    exact ⟨toText_ofText source, isCut_ofText source⟩
  · rintro ⟨rfl, h⟩
    exact h.ofText_toText

end Stencil.Template.Fragment
