import Stencil.Expr.Token

/-!
# Written numbers

The digits of a number are a numeral of it, wherever a numeral is read: as a
whole number, as a position and as a literal.
-/

namespace Stencil

namespace Text

theorem natOfDigits_ofNat (n : Nat) : natOfDigits (ofNat n) = n := by
  have hfold : natOfDigits (ofNat n) = Nat.ofDigitChars 10 (ofNat n) 0 := by
    simp only [natOfDigits, Nat.ofDigitChars_eq_foldl, Nat.mul_comm]
  rw [hfold, ofNat, Nat.ofDigitChars_ten_toDigits]

theorem isDigit_of_mem_ofNat {n : Nat} {c : Char} (h : c ∈ ofNat n) : c.isDigit = true :=
  Nat.isDigit_of_mem_toDigits (by omega) (by omega) h

theorem ofNat_ne_nil (n : Nat) : ofNat n ≠ [] := Nat.toDigits_ne_nil

theorem all_isDigit_ofNat (n : Nat) : (ofNat n).all Char.isDigit = true := by
  simpa using fun c => isDigit_of_mem_ofNat (n := n) (c := c)

theorem span_append_of_head? {p : Char → Bool} {run rest : Text} (hrun : ∀ c ∈ run, p c = true)
    (hrest : ∀ c ∈ rest.head?, p c = false) :
    (run ++ rest).takeWhile p = run ∧ (run ++ rest).dropWhile p = rest := by
  rw [List.takeWhile_append_of_pos hrun, List.dropWhile_append_of_pos hrun]
  cases rest with
  | nil => simp
  | cons c rest => simp [hrest c rfl]

theorem digits_ofNat_append (n : Nat) {rest : Text} (h : ∀ c ∈ rest.head?, c.isDigit = false) :
    (ofNat n ++ rest).takeWhile Char.isDigit = ofNat n ∧
      (ofNat n ++ rest).dropWhile Char.isDigit = rest :=
  span_append_of_head? (fun _ => isDigit_of_mem_ofNat) h

theorem nat?_ofNat (n : Nat) : int?.nat? (ofNat n) = some n := by
  rw [int?.nat?, if_pos ⟨ofNat_ne_nil n, all_isDigit_ofNat n⟩, natOfDigits_ofNat]

theorem int?_ofNat (n : Nat) : int? (ofNat n) = some (n : Int) := by
  unfold int?
  split
  · next t ht =>
    have hplus := isDigit_of_mem_ofNat (n := n) (c := '+') (by simp [ht])
    cases hplus
  · next t ht =>
    have hminus := isDigit_of_mem_ofNat (n := n) (c := '-') (by simp [ht])
    cases hminus
  · rw [nat?_ofNat]
    rfl

end Text

theorem position?_ofNat {n : Nat} (h : n < 0x10000000000000000) :
    position? (Text.ofNat n) = some n := by
  rw [position?, Text.natOfDigits_ofNat, if_pos ⟨Text.ofNat_ne_nil n, h⟩]

namespace Token

theorem literal_ofNat {n : Nat} (h : n < 0x8000000000000000) :
    literal (Text.ofNat n) = .ofInt n := by
  have hfits : fitsInt64 n = true := decide_eq_true (by omega)
  rw [literal, Text.int?_ofNat, Option.filter_some, if_pos hfits]

theorem numeral_ofNat_append (n : Nat) {rest : Text}
    (h : ∀ c ∈ rest.head?, c.isDigit = false ∧ c ≠ '.') :
    numeral (Text.ofNat n ++ rest) = (Text.ofNat n, rest) := by
  obtain ⟨htake, hdrop⟩ := Text.digits_ofNat_append n fun c hc => (h c hc).1
  unfold numeral
  rw [htake, hdrop]
  split
  · next more => exact absurd rfl (h '.' rfl).2
  · rfl

end Token

end Stencil
