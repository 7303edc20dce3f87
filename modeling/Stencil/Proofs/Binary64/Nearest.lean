import Mathlib.Algebra.Group.Int.Defs
import Mathlib.Algebra.Group.Nat.Defs
import Stencil.Binary64.Parts

/-!
# The nearest number of 53 bits

A whole number with more than 53 bits is rounded to a multiple of the power of
two that its first 53 bits count, and to the even one of two equally near
multiples.  Rounding keeps the order of numbers but not their differences.
-/

namespace Stencil.Binary64

/-! ## Quotients by powers of two -/

/-- The whole number next to `n / 2 ^ s`, and the even one of two. -/
def halfEven (n s : Nat) : Nat :=
  if 2 * (n % 2 ^ s) < 2 ^ s ∨ 2 * (n % 2 ^ s) = 2 ^ s ∧ n / 2 ^ s % 2 = 0 then n / 2 ^ s
  else n / 2 ^ s + 1

theorem halfEven_bounds (n s : Nat) :
    n / 2 ^ s ≤ halfEven n s ∧ halfEven n s ≤ n / 2 ^ s + 1 := by
  unfold halfEven
  split <;> omega

theorem halfEven_mul_pow (q s : Nat) : halfEven (q * 2 ^ s) s = q := by
  have hpos : 0 < 2 ^ s := Nat.two_pow_pos s
  have hq : q * 2 ^ s / 2 ^ s = q := Nat.mul_div_cancel _ hpos
  have hr : q * 2 ^ s % 2 ^ s = 0 := Nat.mul_mod_left _ _
  rw [halfEven, hq, hr, if_pos (Or.inl hpos)]

@[simp] theorem halfEven_zero (n : Nat) : halfEven n 0 = n := by
  simpa using halfEven_mul_pow n 0

theorem halfEven_scale (n s j : Nat) : halfEven (n * 2 ^ j) (s + j) = halfEven n s := by
  have hpos : 0 < 2 ^ j := Nat.two_pow_pos j
  have hq : n * 2 ^ j / 2 ^ (s + j) = n / 2 ^ s := by
    rw [Nat.pow_add, Nat.mul_div_mul_right _ _ hpos]
  have hr : n * 2 ^ j % 2 ^ (s + j) = n % 2 ^ s * 2 ^ j := by
    rw [Nat.pow_add, Nat.mul_mod_mul_right]
  have hlt : 2 * (n % 2 ^ s * 2 ^ j) < 2 ^ (s + j) ↔ 2 * (n % 2 ^ s) < 2 ^ s := by
    rw [← Nat.mul_assoc, Nat.pow_add, Nat.mul_lt_mul_right hpos]
  have heq : 2 * (n % 2 ^ s * 2 ^ j) = 2 ^ (s + j) ↔ 2 * (n % 2 ^ s) = 2 ^ s := by
    rw [← Nat.mul_assoc, Nat.pow_add, Nat.mul_right_cancel_iff hpos]
  simp only [halfEven, hq, hr, hlt, heq]

theorem halfEven_mono {n m : Nat} (h : n ≤ m) (s : Nat) : halfEven n s ≤ halfEven m s := by
  have hq : n / 2 ^ s ≤ m / 2 ^ s := Nat.div_le_div_right h
  rcases Nat.lt_or_eq_of_le hq with hlt | heq
  · have hn := halfEven_bounds n s
    have hm := halfEven_bounds m s
    omega
  · have hr : n % 2 ^ s ≤ m % 2 ^ s := by
      have hn := Nat.div_add_mod n (2 ^ s)
      have hm := Nat.div_add_mod m (2 ^ s)
      rw [heq] at hn
      omega
    unfold halfEven
    rw [heq]
    split <;> split <;> omega

theorem halfEven_error (n s : Nat) :
    2 * n ≤ 2 * (halfEven n s * 2 ^ s) + 2 ^ s ∧ 2 * (halfEven n s * 2 ^ s) ≤ 2 * n + 2 ^ s := by
  have hn := Nat.div_add_mod n (2 ^ s)
  have hr := Nat.mod_lt n (Nat.two_pow_pos s)
  unfold halfEven
  split
  · rw [Nat.mul_comm (n / 2 ^ s)]
    omega
  · rw [Nat.add_mul, Nat.mul_comm (n / 2 ^ s)]
    omega

/-! ## Whole numbers -/

def excess (n : Nat) : Nat := n.log2 - 52

/-- The nearest number with 53 bits, any zeros behind them aside. -/
def nearestNat (n : Nat) : Nat := halfEven n (excess n) * 2 ^ excess n

theorem excess_eq_zero {n : Nat} (h : n < 2 ^ 53) : excess n = 0 := by
  by_cases hn : n = 0
  · subst hn
    decide
  · have hlog := (Nat.log2_lt hn).2 h
    unfold excess
    omega

theorem nearestNat_of_lt {n : Nat} (h : n < 2 ^ 53) : nearestNat n = n := by
  simp [nearestNat, excess_eq_zero h]

theorem log2_eq {n : Nat} (h : 2 ^ 52 ≤ n) : n.log2 = 52 + excess n := by
  have hle : 52 ≤ n.log2 := (Nat.le_log2 (by omega)).2 h
  unfold excess
  omega

theorem excess_scale {n : Nat} (h : 2 ^ 52 ≤ n) (j : Nat) : excess (n * 2 ^ j) = excess n + j := by
  have hpos := Nat.two_pow_pos j
  have hne : n * 2 ^ j ≠ 0 := Nat.mul_ne_zero (by omega) (by omega)
  have hlog : (n * 2 ^ j).log2 = n.log2 + j := by
    rw [Nat.log2_eq_iff hne, Nat.pow_add, Nat.add_right_comm, Nat.pow_add]
    exact ⟨Nat.mul_le_mul_right _ (Nat.log2_self_le (by omega)),
      Nat.mul_lt_mul_of_pos_right Nat.lt_log2_self hpos⟩
  have := log2_eq h
  rw [excess, hlog]
  omega

theorem halfEven_excess {n : Nat} (h : 2 ^ 52 ≤ n) :
    2 ^ 52 ≤ halfEven n (excess n) ∧ halfEven n (excess n) ≤ 2 ^ 53 := by
  have hlog := log2_eq h
  have hlow : 2 ^ 52 ≤ n / 2 ^ excess n := by
    rw [Nat.le_div_iff_mul_le (Nat.two_pow_pos _), ← Nat.pow_add, ← hlog]
    exact Nat.log2_self_le (by omega)
  have hhigh : n / 2 ^ excess n < 2 ^ 53 := by
    have hlt := Nat.lt_log2_self (n := n)
    rw [Nat.div_lt_iff_lt_mul (Nat.two_pow_pos _), ← Nat.pow_add]
    rwa [hlog, show 52 + excess n + 1 = 53 + excess n by omega] at hlt
  have hbounds := halfEven_bounds n (excess n)
  omega

theorem nearestNat_bounds {n : Nat} (h : n ≠ 0) :
    2 ^ n.log2 ≤ nearestNat n ∧ nearestNat n ≤ 2 ^ (n.log2 + 1) := by
  by_cases hsmall : n < 2 ^ 53
  · rw [nearestNat_of_lt hsmall]
    exact ⟨Nat.log2_self_le h, Nat.le_of_lt Nat.lt_log2_self⟩
  · have hlarge : 2 ^ 52 ≤ n := by omega
    obtain ⟨hlow, hhigh⟩ := halfEven_excess hlarge
    rw [nearestNat, log2_eq hlarge, show 52 + excess n + 1 = 53 + excess n by omega, Nat.pow_add,
      Nat.pow_add]
    exact ⟨Nat.mul_le_mul_right _ hlow, Nat.mul_le_mul_right _ hhigh⟩

theorem nearestNat_mono {n m : Nat} (h : n ≤ m) : nearestNat n ≤ nearestNat m := by
  by_cases hzero : n = 0
  · subst hzero
    exact Nat.zero_le _
  have hm : m ≠ 0 := by omega
  have hlog : n.log2 ≤ m.log2 :=
    (Nat.le_log2 hm).2 (Nat.le_trans (Nat.log2_self_le hzero) h)
  rcases Nat.lt_or_eq_of_le hlog with hlt | heq
  · -- a power of two lies between the rounded numbers
    have hpow : 2 ^ (n.log2 + 1) ≤ 2 ^ m.log2 := Nat.pow_le_pow_right (by omega) hlt
    exact Nat.le_trans (nearestNat_bounds hzero).2 (Nat.le_trans hpow (nearestNat_bounds hm).1)
  · have hexcess : excess n = excess m := by rw [excess, heq, excess]
    rw [nearestNat, nearestNat, hexcess]
    exact Nat.mul_le_mul_right _ (halfEven_mono h _)

theorem nearestNat_error {n : Nat} (h : n < 2 ^ 64) :
    n ≤ nearestNat n + 1024 ∧ nearestNat n ≤ n + 1024 := by
  have hexcess : 2 ^ excess n ≤ 2 ^ 11 := by
    refine Nat.pow_le_pow_right (by omega) ?_
    by_cases hn : n = 0
    · subst hn
      decide
    · have := (Nat.log2_lt hn).2 h
      unfold excess
      omega
  have herror := halfEven_error n (excess n)
  unfold nearestNat
  omega

def nearest : Int → Int
  | .ofNat n => nearestNat n
  | .negSucc n => -(nearestNat (n + 1) : Int)

theorem nearest_eq_natAbs (a : Int) : (0 ≤ a ∧ nearest a = nearestNat a.natAbs) ∨
    (a < 0 ∧ nearest a = -(nearestNat a.natAbs : Int)) := by
  cases a with
  | ofNat n => exact Or.inl ⟨Int.natCast_nonneg n, rfl⟩
  | negSucc n => exact Or.inr ⟨by omega, rfl⟩

theorem nearest_mono {a b : Int} (h : a ≤ b) : nearest a ≤ nearest b := by
  rcases nearest_eq_natAbs a with ⟨ha, hna⟩ | ⟨ha, hna⟩ <;>
    rcases nearest_eq_natAbs b with ⟨hb, hnb⟩ | ⟨hb, hnb⟩
  · have := nearestNat_mono (n := a.natAbs) (m := b.natAbs) (by omega)
    omega
  · omega
  · omega
  · have := nearestNat_mono (n := b.natAbs) (m := a.natAbs) (by omega)
    omega

theorem natAbs_nearest (a : Int) : (nearest a).natAbs = nearestNat a.natAbs := by
  rcases nearest_eq_natAbs a with ⟨-, h⟩ | ⟨-, h⟩ <;> omega

theorem nearest_of_lt {a : Int} (h : a.natAbs < 2 ^ 53) : nearest a = a := by
  have hnat := nearestNat_of_lt h
  rcases nearest_eq_natAbs a with ⟨ha, hna⟩ | ⟨ha, hna⟩ <;> omega

theorem eq_of_nearest_eq {a b : Int} (h : nearest a = nearest b) (ha : a.natAbs < 2 ^ 53) :
    a = b := by
  rcases Nat.lt_or_ge b.natAbs (2 ^ 53) with hb | hlarge
  · rwa [nearest_of_lt ha, nearest_of_lt hb] at h
  · have hne : b.natAbs ≠ 0 := by omega
    have hlog : 53 ≤ b.natAbs.log2 := (Nat.le_log2 hne).2 hlarge
    have hpow : 2 ^ 53 ≤ 2 ^ b.natAbs.log2 := Nat.pow_le_pow_right (by omega) hlog
    have hbound := (nearestNat_bounds hne).1
    have habs := congrArg Int.natAbs h
    rw [nearest_of_lt ha, natAbs_nearest] at habs
    omega

theorem nearest_error {a : Int} (h : a.natAbs < 2 ^ 64) : (nearest a - a).natAbs ≤ 1024 := by
  have := nearestNat_error h
  rcases nearest_eq_natAbs a with ⟨ha, hna⟩ | ⟨ha, hna⟩ <;> omega

theorem large_of_nearest_eq {a b : Int} (ha : a.natAbs < 2 ^ 64) (hb : b.natAbs < 2 ^ 64)
    (hne : a ≠ b) (h : nearest a = nearest b) :
    2 ^ 53 ≤ a.natAbs ∧ 2 ^ 53 ≤ b.natAbs ∧ (a - b).natAbs ≤ 2048 := by
  have hfirst := nearest_error ha
  have hsecond := nearest_error hb
  refine ⟨?_, ?_, by omega⟩
  · exact Nat.le_of_not_lt fun hsmall => hne (eq_of_nearest_eq h hsmall)
  · exact Nat.le_of_not_lt fun hsmall => hne (eq_of_nearest_eq h.symm hsmall).symm

end Stencil.Binary64
