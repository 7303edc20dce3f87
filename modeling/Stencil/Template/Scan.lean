import Stencil.Text.Quoted

/-!
# Scanning past quoted text

Closers are searched for outside of quoted literals only.  Both scanners carry
the quote that is open, if one is, and step over the character after a
backslash inside quotes.  What they find splits the text without loss.
-/

namespace Stencil.Template

def prepend (lead : Text) (split : Option (Text × Text)) : Option (Text × Text) :=
  split.map fun (before, after) => (lead ++ before, after)

theorem eq_some_of_prepend {lead before after : Text} {split : Option (Text × Text)}
    (h : prepend lead split = some (before, after)) :
    ∃ inner, split = some (inner, after) ∧ before = lead ++ inner := by
  obtain ⟨⟨x, y⟩, hxy, he⟩ := Option.map_eq_some_iff.1 h
  simp only [Prod.mk.injEq] at he
  exact ⟨x, by rw [hxy, he.2], he.1.symm⟩

def splitUnquoted? (mark : Text) : Option Char → Text → Option (Text × Text)
  | _, [] => none
  | some q, '\\' :: c :: t => prepend ['\\', c] (splitUnquoted? mark (some q) t)
  | some q, c :: t => prepend [c] (splitUnquoted? mark (if c = q then none else some q) t)
  | none, c :: t =>
    if Quoted.isQuote c then prepend [c] (splitUnquoted? mark (some c) t)
    else
      match Text.after? mark (c :: t) with
      | some rest => some ([], rest)
      | none => prepend [c] (splitUnquoted? mark none t)

/-- Splits at the parenthesis that closes the one before the text, `depth` others aside. -/
def splitParen? : (depth : Nat) → Option Char → Text → Option (Text × Text)
  | _, _, [] => none
  | depth, some q, '\\' :: c :: t => prepend ['\\', c] (splitParen? depth (some q) t)
  | depth, some q, c :: t =>
    prepend [c] (splitParen? depth (if c = q then none else some q) t)
  | depth, none, c :: t =>
    if Quoted.isQuote c then prepend [c] (splitParen? depth (some c) t)
    else if c = '(' then prepend [c] (splitParen? (depth + 1) none t)
    else if c = ')' then
      match depth with
      | 0 => some ([], t)
      | depth + 1 => prepend [c] (splitParen? depth none t)
    else prepend [c] (splitParen? depth none t)

theorem eq_of_splitUnquoted? {mark t before after : Text} {quote : Option Char}
    (h : splitUnquoted? mark quote t = some (before, after)) :
    t = before ++ mark ++ after := by
  fun_induction splitUnquoted? mark quote t generalizing before with
  | case1 => simp at h
  | case2 q c t ih =>
    obtain ⟨inner, hi, rfl⟩ := eq_some_of_prepend h
    simp [ih hi]
  | case3 q c t _ ih =>
    obtain ⟨inner, hi, rfl⟩ := eq_some_of_prepend h
    simp [ih hi]
  | case4 c t _ ih =>
    obtain ⟨inner, hi, rfl⟩ := eq_some_of_prepend h
    simp [ih hi]
  | case5 c t _ rest hr =>
    simp only [Option.some.injEq, Prod.mk.injEq] at h
    obtain ⟨rfl, rfl⟩ := h
    simpa using Text.after?_eq_some_iff.1 hr
  | case6 c t _ _ ih =>
    obtain ⟨inner, hi, rfl⟩ := eq_some_of_prepend h
    simp [ih hi]

theorem eq_of_splitParen? {t before after : Text} {depth : Nat} {quote : Option Char}
    (h : splitParen? depth quote t = some (before, after)) :
    t = before ++ ')' :: after := by
  fun_induction splitParen? depth quote t generalizing before with
  | case1 => simp at h
  | case6 =>
    simp only [Option.some.injEq, Prod.mk.injEq] at h
    obtain ⟨rfl, rfl⟩ := h
    rfl
  | _ =>
    obtain ⟨inner, hi, rfl⟩ := eq_some_of_prepend h
    simp_all

end Stencil.Template
