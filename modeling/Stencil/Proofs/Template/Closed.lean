import Stencil.Proofs.Template.Quoting
import Stencil.Proofs.Text.Trim

/-!
# Closed texts

A text is closed if no literal is open at its end.  The last character of such
a text is shown in its outline, so trimming it trims its outline.
-/

namespace Stencil.Template

namespace Quoting

def IsProper : Quoting → Prop
  | .outside => True
  | .opened quote | .inside quote | .escaping quote => Quoted.isQuote quote = true

theorem IsProper.next {s : Quoting} (h : s.IsProper) (c : Char) : (s.next c).IsProper := by
  have hwithin : ∀ quote, Quoted.isQuote quote = true → (within quote c).IsProper := by
    intro quote hq
    unfold within
    split
    · exact hq
    · split
      · trivial
      · exact hq
  cases s with
  | outside =>
      rw [Quoting.next]
      split
      · assumption
      · trivial
  | opened quote => exact hwithin quote h
  | inside quote => exact hwithin quote h
  | escaping quote => exact h

theorem IsProper.run {s : Quoting} (h : s.IsProper) (t : Text) : (s.run t).IsProper := by
  induction t generalizing s with
  | nil => exact h
  | cons c t ih => exact ih (h.next c)

theorem next_of_ne_outside {s : Quoting} (h : s.IsProper) (hne : s ≠ .outside) :
    ∃ quote shown, Quoted.isQuote quote = true ∧
      ∀ c, Quoted.isQuote c = false ∧ c ≠ '\\' → s.next c = .inside quote ∧ s.shown c = shown := by
  cases s with
  | outside => exact absurd rfl hne
  | opened quote =>
      refine ⟨quote, [filler], h, fun c hc => ?_⟩
      simp [Quoting.next, shown, within_of_isPlain h hc]
  | inside quote =>
      refine ⟨quote, [], h, fun c hc => ?_⟩
      simp [Quoting.next, shown, within_of_isPlain h hc]
  | escaping quote => exact ⟨quote, [], h, fun c _ => ⟨rfl, rfl⟩⟩

theorem run_of_ne_outside {s : Quoting} (h : s.IsProper) (hne : s ≠ .outside) :
    ∃ quote outline, Quoted.isQuote quote = true ∧
      ∀ t, IsPlain t → t ≠ [] → s.run t = .inside quote ∧ s.outline t = outline := by
  obtain ⟨quote, shown, hq, hnext⟩ := next_of_ne_outside h hne
  refine ⟨quote, shown, hq, fun t ht hnil => ?_⟩
  obtain ⟨c, t, rfl⟩ := List.exists_cons_of_ne_nil hnil
  have hc := hnext c (ht c List.mem_cons_self)
  have htail : IsPlain t := fun d hd => ht d (List.mem_cons_of_mem _ hd)
  rw [run_cons, outline_cons, hc.1, hc.2, run_inside_of_isPlain hq htail,
    outline_inside_of_isPlain hq htail, List.append_nil]
  exact ⟨rfl, rfl⟩

theorem eq_outside_of_run {s : Quoting} (h : s.IsProper) {t : Text} (ht : IsPlain t)
    (hrun : s.run t = .outside) : s = .outside := by
  by_contra hne
  by_cases hnil : t = []
  · subst hnil
    exact hne hrun
  · obtain ⟨quote, _, -, hplain⟩ := run_of_ne_outside h hne
    rw [(hplain t ht hnil).1] at hrun
    cases hrun

theorem isPlain_of_isBlank {t : Text} (h : Text.IsBlank t) : IsPlain t := by
  intro c hc
  have hw := h c hc
  constructor
  · cases hq : Quoted.isQuote c with
    | false => rfl
    | true =>
        simp only [Quoted.isQuote, Bool.or_eq_true, beq_iff_eq] at hq
        rcases hq with rfl | rfl <;> cases hw
  · rintro rfl
    cases hw

theorem shown_of_next {s : Quoting} {c : Char} (h : s.next c = .outside) : s.shown c = [c] := by
  cases s with
  | outside => rfl
  | opened quote => exact if_pos h
  | inside quote => exact if_pos h
  | escaping quote => cases h

theorem getLast?_outline {s : Quoting} {t : Text} (h : s.run t = .outside) :
    (s.outline t).getLast? = t.getLast? := by
  cases ht : t.reverse with
  | nil =>
      obtain rfl := List.reverse_eq_nil_iff.1 ht
      rw [outline_nil]
  | cons c front =>
      obtain rfl : t = front.reverse ++ [c] := by
        rw [← List.reverse_reverse t, ht, List.reverse_cons]
      rw [run_append] at h
      rw [outline_append, outline_cons, shown_of_next h, outline_nil]
      simp

end Quoting

open Quoting

/-! ## Trimming closed texts -/

theorem run_trimStart {t : Text} (h : outside.run t = .outside) :
    outside.run (Text.trimStart t) = .outside := by
  obtain ⟨lead, hlead, ht⟩ := Text.exists_eq_trimStart t
  have hplain := run_outside_of_isPlain fun c hc => (isPlain_of_isBlank hlead c hc).1
  rw [ht, run_append, hplain] at h
  exact h

theorem run_trimEnd {t : Text} (h : outside.run t = .outside) :
    outside.run (Text.trimEnd t) = .outside := by
  obtain ⟨tail, htail, ht⟩ := Text.exists_eq_trimEnd t
  rw [ht, run_append] at h
  exact eq_outside_of_run (IsProper.run (s := outside) trivial _) (isPlain_of_isBlank htail) h

theorem run_trim {t : Text} (h : outside.run t = .outside) :
    outside.run (Text.trim t) = .outside :=
  run_trimEnd (run_trimStart h)

theorem outline_trimEnd {t : Text} (h : outside.run t = .outside) :
    outside.outline (Text.trimEnd t) = Text.trimEnd (outside.outline t) := by
  have hclosed := run_trimEnd h
  obtain ⟨tail, htail, ht⟩ := Text.exists_eq_trimEnd t
  have hplain := outline_outside_of_isPlain fun c hc => (isPlain_of_isBlank htail c hc).1
  have hout : outside.outline t = outside.outline (Text.trimEnd t) ++ tail := by
    rw [ht, outline_append, ← ht, hclosed, hplain]
  have hlast : ∀ c ∈ (outside.outline (Text.trimEnd t)).getLast?, Text.isWhite c = false := by
    rw [getLast?_outline hclosed]
    exact Text.getLast?_trimEnd t
  rw [hout, Text.trimEnd_append_of_isBlank htail, Text.trimEnd_eq_self hlast]

theorem exists_outline_trim {t : Text} (h : outside.run t = .outside) :
    ∃ lead tail, Text.IsBlank lead ∧ Text.IsBlank tail ∧
      outside.outline t = lead ++ outside.outline (Text.trim t) ++ tail := by
  obtain ⟨lead, tail, hlead, htail, ht⟩ := Text.exists_eq_trim t
  have hlead' : ∀ c ∈ lead, Quoted.isQuote c = false :=
    fun c hc => (isPlain_of_isBlank hlead c hc).1
  have htail' : ∀ c ∈ tail, Quoted.isQuote c = false :=
    fun c hc => (isPlain_of_isBlank htail c hc).1
  refine ⟨lead, tail, hlead, htail, ?_⟩
  have hout : outside.outline t = outside.outline (lead ++ Text.trim t ++ tail) :=
    congrArg outside.outline ht
  rw [hout, outline_append, outline_append, run_append, run_outside_of_isPlain hlead',
    run_trim h, outline_outside_of_isPlain hlead', outline_outside_of_isPlain htail']

end Stencil.Template
