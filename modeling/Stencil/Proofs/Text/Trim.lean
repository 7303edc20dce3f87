import Mathlib.Data.List.TakeWhile
import Stencil.Text.Basic

/-!
# Trimming

A trimmed text neither starts nor ends with white space.  Trimming finds the
one trimmed text that is left when white space at both ends is taken away.
-/

namespace Stencil.Text

def IsTrimmed (t : Text) : Prop :=
  (∀ c ∈ t.head?, isWhite c = false) ∧ ∀ c ∈ t.getLast?, isWhite c = false

def IsBlank (t : Text) : Prop := ∀ c ∈ t, isWhite c = true

instance (t : Text) : Decidable (IsBlank t) :=
  decidable_of_iff (t.all isWhite = true) List.all_eq_true

theorem IsBlank.append {t u : Text} (ht : IsBlank t) (hu : IsBlank u) : IsBlank (t ++ u) := by
  intro c hc
  rcases List.mem_append.1 hc with hc | hc
  · exact ht c hc
  · exact hu c hc

theorem dropWhile_eq_of_isBlank {lead t : Text} (h : IsBlank lead) :
    (lead ++ t).dropWhile isWhite = t.dropWhile isWhite := by
  induction lead with
  | nil => rfl
  | cons c lead ih =>
      rw [List.cons_append, List.dropWhile_cons_of_pos (h c List.mem_cons_self)]
      exact ih fun d hd => h d (List.mem_cons_of_mem _ hd)

theorem dropWhile_eq_self {t : Text} (h : ∀ c ∈ t.head?, isWhite c = false) :
    t.dropWhile isWhite = t := by
  cases t with
  | nil => rfl
  | cons c t => rw [List.dropWhile_cons_of_neg (by simp [h c rfl])]

theorem trimStart_of_isBlank_append {lead t : Text} (h : IsBlank lead) :
    trimStart (lead ++ t) = trimStart t :=
  dropWhile_eq_of_isBlank h

theorem trimEnd_append_of_isBlank {t tail : Text} (h : IsBlank tail) :
    trimEnd (t ++ tail) = trimEnd t := by
  rw [trimEnd, List.reverse_append, dropWhile_eq_of_isBlank, trimEnd]
  intro c hc
  exact h c (List.mem_reverse.1 hc)

theorem trimEnd_eq_self {t : Text} (h : ∀ c ∈ t.getLast?, isWhite c = false) :
    trimEnd t = t := by
  rw [trimEnd, dropWhile_eq_self, List.reverse_reverse]
  intro c hc
  exact h c (by simpa using hc)

theorem trim_eq_self {t : Text} (h : IsTrimmed t) : trim t = t := by
  rw [trim, trimStart, dropWhile_eq_self h.1, trimEnd_eq_self h.2]

theorem trim_pad {lead t tail : Text} (hlead : IsBlank lead) (ht : IsTrimmed t)
    (htail : IsBlank tail) : trim (lead ++ t ++ tail) = t := by
  have hstart : trimStart (lead ++ t ++ tail) = trimStart (t ++ tail) := by
    rw [List.append_assoc, trimStart_of_isBlank_append hlead]
  cases t with
  | nil =>
      rw [trim, hstart, List.nil_append, trimStart]
      have hnil : tail.dropWhile isWhite = [] := List.dropWhile_eq_nil_iff.2 htail
      rw [hnil]
      rfl
  | cons c t =>
      have hkeep : trimStart (c :: t ++ tail) = c :: t ++ tail :=
        dropWhile_eq_self (by simpa using ht.1)
      rw [trim, hstart, hkeep, trimEnd_append_of_isBlank htail, trimEnd_eq_self ht.2]

theorem exists_eq_trimStart (t : Text) : ∃ lead, IsBlank lead ∧ t = lead ++ trimStart t := by
  refine ⟨t.takeWhile isWhite, ?_, List.takeWhile_append_dropWhile.symm⟩
  intro c hc
  exact List.mem_takeWhile_imp hc

theorem exists_eq_trimEnd (t : Text) : ∃ tail, IsBlank tail ∧ t = trimEnd t ++ tail := by
  refine ⟨(t.reverse.takeWhile isWhite).reverse, ?_, ?_⟩
  · intro c hc
    exact List.mem_takeWhile_imp (List.mem_reverse.1 hc)
  · rw [trimEnd, ← List.reverse_append, List.takeWhile_append_dropWhile, List.reverse_reverse]

theorem exists_eq_trim (t : Text) :
    ∃ lead tail, IsBlank lead ∧ IsBlank tail ∧ t = lead ++ trim t ++ tail := by
  obtain ⟨lead, hlead, hstart⟩ := exists_eq_trimStart t
  obtain ⟨tail, htail, hend⟩ := exists_eq_trimEnd (trimStart t)
  refine ⟨lead, tail, hlead, htail, ?_⟩
  rw [trim, List.append_assoc, ← hend, ← hstart]

theorem head?_dropWhile_isWhite (t : Text) :
    ∀ c ∈ (t.dropWhile isWhite).head?, isWhite c = false := by
  intro c hc
  have := List.head?_dropWhile_not isWhite t
  simp_all

theorem getLast?_trimEnd (t : Text) : ∀ c ∈ (trimEnd t).getLast?, isWhite c = false := by
  intro c hc
  rw [trimEnd, List.getLast?_reverse] at hc
  exact head?_dropWhile_isWhite _ c hc

theorem isTrimmed_trim (t : Text) : IsTrimmed (trim t) := by
  constructor
  · obtain ⟨tail, -, htail⟩ := exists_eq_trimEnd (trimStart t)
    intro c hc
    refine head?_dropWhile_isWhite t c ?_
    change c ∈ (trimStart t).head?
    rw [htail]
    cases hs : trimEnd (trimStart t) with
    | nil => simp [trim, hs] at hc
    | cons d r => simpa [trim, hs] using hc
  · exact getLast?_trimEnd (trimStart t)

theorem trim_eq_nil_iff {t : Text} : trim t = [] ↔ trimStart t = [] := by
  constructor
  · intro h
    obtain ⟨lead, tail, hlead, htail, ht⟩ := exists_eq_trim t
    rw [h, List.append_nil] at ht
    rw [trimStart, List.dropWhile_eq_nil_iff, ht]
    intro c hc
    rcases List.mem_append.1 hc with hc | hc
    · exact hlead c hc
    · exact htail c hc
  · intro h
    rw [trim, h]
    rfl

end Stencil.Text
