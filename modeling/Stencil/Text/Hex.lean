import Stencil.Text.Basic

/-!
# Hexadecimal text

Two digits in lower case for each byte, the high half first.
-/

namespace Stencil.Hex

def digit (n : Nat) : Char := if n < 10 then Char.ofNat (48 + n) else Char.ofNat (87 + n)

def value? (c : Char) : Option Nat :=
  if c.isDigit then some (c.toNat - 48)
  else if 'a' ≤ c ∧ c ≤ 'f' then some (c.toNat - 87)
  else if 'A' ≤ c ∧ c ≤ 'F' then some (c.toNat - 55)
  else none

theorem value?_digit {n : Nat} (h : n < 16) : value? (digit n) = some n := by
  have all : ∀ m : Fin 16, value? (digit m) = some m.val := by decide
  exact all ⟨n, h⟩

def encode (bytes : List UInt8) : Text :=
  bytes.flatMap fun b => [digit (b.toNat / 16), digit (b.toNat % 16)]

theorem length_encode (bytes : List UInt8) : (encode bytes).length = 2 * bytes.length := by
  induction bytes with
  | nil => rfl
  | cons b bytes ih =>
    simp only [encode, List.flatMap_cons, List.length_append, List.length_cons] at ih ⊢
    simp only [List.length_nil]
    omega

theorem isSome_value?_of_mem_encode {bytes : List UInt8} {c : Char} (h : c ∈ encode bytes) :
    (value? c).isSome = true := by
  simp only [encode, List.mem_flatMap, List.mem_cons, List.not_mem_nil, or_false] at h
  obtain ⟨b, -, rfl | rfl⟩ := h
  · have := b.toNat_lt
    simp [value?_digit (n := b.toNat / 16) (by omega)]
  · simp [value?_digit (n := b.toNat % 16) (by omega)]

end Stencil.Hex
