import Stencil.Expr.Eval
import Stencil.Proofs.Text.Trim

/-!
# Arithmetic on whole numbers

Where both operands are read as whole numbers, a result is a whole number just
if the exact result is one of 64 bits, and then it is the exact result.  There is
one exception: the remainder of the least number by minus one, which is zero,
is a float, since the quotient does not fit.
-/

namespace Stencil

/-! ## Texts of whole numbers -/

theorem Binary64.sign_subset (t : Text) : (sign t).2 ⊆ t := by
  unfold sign
  split <;> simp

namespace Binary64.Numeral

theorem read?_of_digits {t digits : Text} {negative : Bool} (hs : sign t = (negative, digits))
    (hne : digits ≠ []) (hall : digits.all Char.isDigit = true) :
    read? t = some ⟨negative, Text.natOfDigits digits, 0⟩ := by
  rw [List.all_eq_true] at hall
  have htake : digits.takeWhile Char.isDigit = digits := List.takeWhile_eq_self_iff.2 hall
  have hdrop : digits.dropWhile Char.isDigit = [] := List.dropWhile_eq_nil_iff.2 hall
  simp [read?, hs, htake, hdrop, hne, power?]

theorem sign_of_int? {t : Text} {n : Int} (h : Text.int? t = some n) :
    ∃ negative digits, sign t = (negative, digits) ∧
      Text.int?.nat? digits = some n.natAbs ∧ (n < 0 → negative = true) := by
  unfold Text.int? at h
  split at h
  · next digits =>
    obtain ⟨m, hm, rfl⟩ := Option.map_eq_some_iff.1 h
    exact ⟨false, digits, rfl, hm, fun hneg => absurd hneg (by simp)⟩
  · next digits =>
    cases hm : Text.int?.nat? digits with
    | none =>
        rw [hm] at h
        cases h
    | some m =>
        rw [hm] at h
        cases h
        exact ⟨true, digits, rfl, by simpa using hm, fun _ => rfl⟩
  · next hplus hminus =>
    obtain ⟨m, hm, rfl⟩ := Option.map_eq_some_iff.1 h
    have hsign : sign t = (false, t) := by
      unfold sign
      split
      · next rest => exact absurd rfl (hminus rest)
      · next rest => exact absurd rfl (hplus rest)
      · rfl
    exact ⟨false, t, hsign, hm, fun hneg => absurd hneg (by simp)⟩

theorem read?_of_int? {t : Text} {n : Int} (h : Text.int? t = some n) :
    ∃ negative, read? t = some ⟨negative, n.natAbs, 0⟩ ∧ (n < 0 → negative = true) := by
  obtain ⟨negative, digits, hs, hnat, hneg⟩ := sign_of_int? h
  unfold Text.int?.nat? at hnat
  split at hnat
  · next hdigits =>
    rw [← Option.some.inj hnat]
    exact ⟨negative, read?_of_digits hs hdigits.1 hdigits.2, hneg⟩
  · cases hnat

end Binary64.Numeral

namespace Arithmetic

/-! ## Exact results -/

def IsExact : Arithmetic → Int → Int → Int → Prop
  | .add, x, y, n => n = x + y
  | .sub, x, y, n => n = x - y
  | .mul, x, y, n => n = x * y
  | .div, x, y, n => y ≠ 0 ∧ n * y = x
  | .rem, x, y, n => y ≠ 0 ∧ n = x.tmod y

/-- The remainder whose quotient does not fit. -/
def Escapes (op : Arithmetic) (x y : Int) : Prop :=
  op = .rem ∧ x = -0x8000000000000000 ∧ y = -1

theorem fitsInt64_iff {n : Int} :
    fitsInt64 n = true ↔ -0x8000000000000000 ≤ n ∧ n < 0x8000000000000000 := by
  simp [fitsInt64]

theorem fitsInt64_tdiv_iff {x y : Int} (hx : fitsInt64 x = true) (hy : y ≠ 0) :
    fitsInt64 (x.tdiv y) = true ↔ ¬ (x = -0x8000000000000000 ∧ y = -1) := by
  rw [fitsInt64_iff] at hx ⊢
  constructor
  · rintro h ⟨rfl, rfl⟩
    exact absurd h (by decide)
  · intro h
    by_cases hone : y = -1
    · subst hone
      have hneg : x.tdiv (-1) = -x := by rw [Int.tdiv_neg, Int.tdiv_one]
      omega
    by_cases hplus : y = 1
    · subst hplus
      rwa [Int.tdiv_one]
    · have hhalf : (x.tdiv y).natAbs ≤ x.natAbs / 2 := by
        rw [Int.natAbs_tdiv]
        exact Nat.div_le_div_left (by omega) (by omega)
      omega

theorem fitsInt64_tmod {x : Int} (hx : fitsInt64 x = true) (y : Int) :
    fitsInt64 (x.tmod y) = true := by
  rw [fitsInt64_iff] at hx ⊢
  have hle : (x.tmod y).natAbs ≤ x.natAbs := by
    rw [Int.natAbs_tmod]
    exact Nat.mod_le _ _
  rcases Int.le_total 0 x with hsign | hsign
  · have := Int.tmod_nonneg y hsign
    omega
  · have := Int.tmod_nonneg y (Int.neg_nonneg_of_nonpos hsign)
    rw [Int.neg_tmod] at this
    omega

theorem mul_eq_iff_tmod {x y n : Int} (hy : y ≠ 0) :
    n * y = x ↔ x.tmod y = 0 ∧ n = x.tdiv y := by
  constructor
  · rintro rfl
    exact ⟨Int.mul_tmod_left n y, (Int.mul_tdiv_cancel n hy).symm⟩
  · rintro ⟨hmod, rfl⟩
    exact Int.tdiv_mul_cancel (Int.dvd_of_tmod_eq_zero hmod)

theorem fit_eq_some_iff {m n : Int} : whole?.fit m = some n ↔ n = m ∧ fitsInt64 n = true := by
  unfold whole?.fit
  split
  · next h =>
    constructor
    · rintro ⟨⟩
      exact ⟨rfl, h⟩
    · rintro ⟨rfl, -⟩
      rfl
  · next h =>
    constructor
    · rintro ⟨⟩
    · rintro ⟨rfl, hn⟩
      exact absurd hn h

theorem whole?_eq_some_iff {op : Arithmetic} {x y n : Int} (hx : fitsInt64 x = true) :
    op.whole? x y = some n ↔ op.IsExact x y n ∧ fitsInt64 n = true ∧ ¬ op.Escapes x y := by
  cases op with
  | add => simp [whole?, IsExact, Escapes, fit_eq_some_iff]
  | sub => simp [whole?, IsExact, Escapes, fit_eq_some_iff]
  | mul => simp [whole?, IsExact, Escapes, fit_eq_some_iff]
  | div =>
      by_cases hy : y = 0
      · simp [whole?, IsExact, hy]
      · simp only [IsExact, mul_eq_iff_tmod hy, whole?]
        by_cases hmod : x.tmod y = 0
        · simp [hy, hmod, Escapes, fit_eq_some_iff]
        · simp [hmod]
  | rem =>
      by_cases hy : y = 0
      · simp [whole?, IsExact, hy]
      · have hescapes : Escapes .rem x y ↔ ¬ fitsInt64 (x.tdiv y) = true := by
          rw [fitsInt64_tdiv_iff hx hy, not_not]
          simp [Escapes]
        rw [hescapes, not_not]
        simp only [whole?, IsExact]
        constructor
        · intro h
          split at h
          · next hfits =>
            cases h
            exact ⟨⟨hy, rfl⟩, fitsInt64_tmod hx y, hfits.2⟩
          · cases h
        · rintro ⟨⟨-, rfl⟩, -, hfits⟩
          rw [if_pos ⟨hy, hfits⟩]

end Arithmetic

/-! ## Operands as floats -/

namespace Value

theorem any_isDigit_of_int? {t : Text} {n : Int} (h : Text.int? (Text.trim t) = some n) :
    t.any Char.isDigit = true := by
  obtain ⟨lead, tail, -, -, ht⟩ := Text.exists_eq_trim t
  obtain ⟨_, digits, hs, hnat, -⟩ := Binary64.Numeral.sign_of_int? h
  unfold Text.int?.nat? at hnat
  split at hnat
  · next hdigits =>
    obtain ⟨c, hc⟩ := List.exists_mem_of_ne_nil _ hdigits.1
    have hmem : c ∈ Text.trim t := by
      have hsub := Binary64.sign_subset (Text.trim t)
      rw [hs] at hsub
      exact hsub hc
    have hct : c ∈ t := by
      rw [ht]
      simp [hmem]
    exact List.any_eq_true.2 ⟨c, hct, List.all_eq_true.1 hdigits.2 c hc⟩
  · cases hnat

inductive IsReadAs : Value → Int → Prop
  | null : IsReadAs .null 0
  | bool (b : Bool) : IsReadAs (.bool b) (if b then 1 else 0)
  | number {n : Int} (h : fitsInt64 n = true) : IsReadAs (.ofInt n) n
  | string {t : Text} {n : Int} (ht : Text.int? (Text.trim t) = some n)
      (h : fitsInt64 n = true) : IsReadAs (.string t) n

theorem isReadAs_of_integer? {v : Value} {n : Int} (h : v.integer? = some n) : IsReadAs v n := by
  cases v with
  | null =>
      cases h
      exact .null
  | bool b =>
      cases h
      exact .bool b
  | number x =>
      cases x with
      | int m =>
          simp only [integer?] at h
          split at h
          · next hm =>
            cases h
            exact .number hm
          · cases h
      | float x => cases h
  | string t =>
      rw [integer?, Option.filter_eq_some_iff] at h
      exact .string h.1 h.2
  | array | object => cases h

theorem fitsInt64_of_integer? {v : Value} {n : Int} (h : v.integer? = some n) :
    fitsInt64 n = true := by
  cases isReadAs_of_integer? h with
  | null => decide
  | bool b => cases b <;> decide
  | number hn => exact hn
  | string _ hn => exact hn

theorem number?_string {t : Text} {n : Int} (h : Text.int? (Text.trim t) = some n) :
    ∃ negative, (Value.string t).number? =
      (some (Binary64.Numeral.toFloat ⟨negative, n.natAbs, 0⟩)).filter Float.isFinite ∧
        (n < 0 → negative = true) := by
  obtain ⟨negative, hread, hneg⟩ := Binary64.Numeral.read?_of_int? h
  refine ⟨negative, ?_, hneg⟩
  rw [number?, numeric?, if_pos (any_isDigit_of_int? h), Binary64.read?, hread, Option.map_some]

theorem number?_beq_zero {v : Value} (h : v.integer? = some 0) :
    (v.number?.getD 0 == 0) = true := by
  generalize hn : (0 : Int) = n at h
  cases isReadAs_of_integer? h with
  | null => decide
  | bool b =>
      cases b with
      | false => decide
      | true => cases hn
  | number =>
      cases hn
      decide +kernel
  | string ht =>
      cases hn
      obtain ⟨negative, hnumber, -⟩ := number?_string ht
      rw [hnumber]
      cases negative <;> decide +kernel

theorem number?_of_integer?_neg {v : Value} {n : Int} (h : v.integer? = some n) (hneg : n < 0)
    (hfinite : (Float.ofInt n).isFinite = true)
    (hread : Binary64.Numeral.toFloat ⟨true, n.natAbs, 0⟩ = .ofInt n) :
    v.number? = some (.ofInt n) := by
  cases isReadAs_of_integer? h with
  | null => cases hneg
  | bool b => cases b <;> cases hneg
  | number => rfl
  | string ht =>
      obtain ⟨negative, hnumber, hsign⟩ := number?_string ht
      rw [hnumber, hsign hneg, hread, Option.filter_some, if_pos hfinite]

end Value

/-! ## Results -/

namespace Arithmetic

theorem floats_ne_ofInt (op : Arithmetic) (a b : Value) (n : Int) : op.floats a b ≠ .ofInt n := by
  unfold floats
  split
  · next x =>
    unfold Value.ofFloat
    split
    · rintro ⟨⟩
    · rintro ⟨⟩
  · rintro ⟨⟩

variable {op : Arithmetic} {a b : Value} {x y : Int}

theorem apply_eq_ofInt_iff (ha : a.integer? = some x) (hb : b.integer? = some y) {n : Int} :
    op.apply a b = .ofInt n ↔ op.IsExact x y n ∧ fitsInt64 n = true ∧ ¬ op.Escapes x y := by
  rw [← whole?_eq_some_iff (Value.fitsInt64_of_integer? ha), apply, ha, hb]
  dsimp only
  cases op.whole? x y with
  | some m =>
      constructor
      · rintro ⟨⟩
        rfl
      · rintro ⟨⟩
        rfl
  | none =>
      dsimp only
      constructor
      · intro h
        split at h
        · cases h
        · exact absurd h (floats_ne_ofInt op a b n)
      · rintro ⟨⟩

theorem apply_by_zero (hop : op = .div ∨ op = .rem) (ha : a.integer? = some x)
    (hb : b.integer? = some 0) : op.apply a b = .null := by
  have hwhole : op.whole? x 0 = none := by
    rcases hop with rfl | rfl <;> simp [whole?]
  rw [apply, ha, hb]
  dsimp only
  rw [hwhole]
  dsimp only
  rcases hop with rfl | rfl
  · rw [if_neg (by decide), floats, float?, if_pos (Value.number?_beq_zero hb)]
  · rw [if_pos ⟨rfl, rfl⟩]

/-- The quotient does not fit, so the remainder is computed with floats, and is a negative zero. -/
theorem apply_of_escapes (h : op.Escapes x y) (ha : a.integer? = some x)
    (hb : b.integer? = some y) : op.apply a b = .number (.float (-0.0)) := by
  obtain ⟨rfl, rfl, rfl⟩ := h
  have hleft := Value.number?_of_integer?_neg ha (by decide) (by decide +kernel)
    (by decide +kernel)
  have hright := Value.number?_of_integer?_neg hb (by decide) (by decide +kernel)
    (by decide +kernel)
  have hwhole : whole? .rem (-0x8000000000000000) (-1) = none := by decide
  rw [apply, ha, hb]
  dsimp only
  rw [hwhole]
  dsimp only
  rw [if_neg (by decide), floats, hleft, hright]
  rfl

end Arithmetic

namespace Expr

variable {now : Moment} {lookup : Lookup} {left right : Expr} {x y : Int}

structure ComputesWhole (now : Moment) (lookup : Lookup) (left right : Expr) (x y : Int) :
    Prop where
  add : ∀ n, (binary .add left right).eval now lookup = .ofInt n ↔
    n = x + y ∧ fitsInt64 n = true
  sub : ∀ n, (binary .sub left right).eval now lookup = .ofInt n ↔
    n = x - y ∧ fitsInt64 n = true
  mul : ∀ n, (binary .mul left right).eval now lookup = .ofInt n ↔
    n = x * y ∧ fitsInt64 n = true
  neg : ∀ n, (Expr.neg right).eval now lookup = .ofInt n ↔ n = -y ∧ fitsInt64 n = true
  div : ∀ n, (binary .div left right).eval now lookup = .ofInt n ↔
    y ≠ 0 ∧ n * y = x ∧ fitsInt64 n = true
  rem : ∀ n, (binary .rem left right).eval now lookup = .ofInt n ↔
    y ≠ 0 ∧ n = x.tmod y ∧ ¬ (x = -0x8000000000000000 ∧ y = -1)
  by_zero : y = 0 → (binary .div left right).eval now lookup = .null ∧
    (binary .rem left right).eval now lookup = .null
  rem_escapes : x = -0x8000000000000000 → y = -1 →
    (binary .rem left right).eval now lookup = .number (.float (-0.0))

/-- Arithmetic on whole numbers is exact and never wraps; only the remainder of the least number
by minus one is a float where a whole number would fit. -/
theorem computesWhole (hl : (left.eval now lookup).integer? = some x)
    (hr : (right.eval now lookup).integer? = some y) :
    ComputesWhole now lookup left right x y where
  add n := by
    rw [eval, BinaryOp.apply, Arithmetic.apply_eq_ofInt_iff hl hr]
    simp [Arithmetic.IsExact, Arithmetic.Escapes]
  sub n := by
    rw [eval, BinaryOp.apply, Arithmetic.apply_eq_ofInt_iff hl hr]
    simp [Arithmetic.IsExact, Arithmetic.Escapes]
  mul n := by
    rw [eval, BinaryOp.apply, Arithmetic.apply_eq_ofInt_iff hl hr]
    simp [Arithmetic.IsExact, Arithmetic.Escapes]
  neg n := by
    have hzero : (Value.ofInt 0).integer? = some 0 := rfl
    rw [eval, Arithmetic.apply_eq_ofInt_iff hzero hr]
    simp [Arithmetic.IsExact, Arithmetic.Escapes]
  div n := by
    rw [eval, BinaryOp.apply, Arithmetic.apply_eq_ofInt_iff hl hr]
    simp [Arithmetic.IsExact, Arithmetic.Escapes, and_assoc]
  rem n := by
    rw [eval, BinaryOp.apply, Arithmetic.apply_eq_ofInt_iff hl hr]
    constructor
    · rintro ⟨⟨hy, hn⟩, -, hescapes⟩
      exact ⟨hy, hn, fun h => hescapes ⟨rfl, h⟩⟩
    · rintro ⟨hy, rfl, hescapes⟩
      have hfits := Arithmetic.fitsInt64_tmod (Value.fitsInt64_of_integer? hl) y
      exact ⟨⟨hy, rfl⟩, hfits, fun h => hescapes h.2⟩
  by_zero := by
    rintro rfl
    rw [eval, eval]
    exact ⟨Arithmetic.apply_by_zero (Or.inl rfl) hl hr, Arithmetic.apply_by_zero (Or.inr rfl) hl hr⟩
  rem_escapes hx hy := by
    rw [eval]
    exact Arithmetic.apply_of_escapes ⟨rfl, hx, hy⟩ hl hr

def noon : Moment := ⟨2024, 1, 1, 12, 0, 0⟩

theorem computesWhole_leastByMinusOne :
    ((literal (.string " -9223372036854775808 ".toList)).eval noon (fun _ => none)).integer? =
        some (-0x8000000000000000) ∧
      ((Expr.neg (literal (.bool true))).eval noon (fun _ => none)).integer? = some (-1) ∧
      ComputesWhole noon (fun _ => none) (literal (.string " -9223372036854775808 ".toList))
        (.neg (literal (.bool true))) (-0x8000000000000000) (-1) := by
  have hl : ((literal (.string " -9223372036854775808 ".toList)).eval noon
      (fun _ => none)).integer? = some (-0x8000000000000000) := by decide +kernel
  have hr : ((Expr.neg (literal (.bool true))).eval noon (fun _ => none)).integer? = some (-1) := by
    decide +kernel
  exact ⟨hl, hr, computesWhole hl hr⟩

def leastAndMinusOne : Lookup := fun name =>
  if name = ['a'] then some (.ofInt (-0x8000000000000000)) else some (.ofInt (-1))

theorem rem_leastAndMinusOne : (-0x8000000000000000 : Int).tmod (-1) = 0 ∧
    (binary .rem (.var ⟨['a'], []⟩) (.var ⟨['b'], []⟩)).eval noon leastAndMinusOne ≠ .ofInt 0 := by
  have hl : ((Expr.var ⟨['a'], []⟩).eval noon leastAndMinusOne).integer? =
      some (-0x8000000000000000) := by decide +kernel
  have hr : ((Expr.var ⟨['b'], []⟩).eval noon leastAndMinusOne).integer? = some (-1) := by
    decide +kernel
  refine ⟨by decide, ?_⟩
  rw [eval, BinaryOp.apply, Arithmetic.apply_of_escapes ⟨rfl, rfl, rfl⟩ hl hr]
  rintro ⟨⟩

end Expr

end Stencil
