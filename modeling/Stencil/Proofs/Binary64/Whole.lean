import Mathlib
import Stencil.Proofs.Binary64.Nearest
import Stencil.Value.Compare

/-!
# Floats of whole numbers

The float of a whole number below `2 ^ 64` is finite, and holds the nearest
number of 53 bits.  So two such floats stand in the order of the numbers that
they hold.
-/

namespace Stencil.Binary64

open Float.Model Float.Model.UnpackedFloat

/-! ## Shifting bits out -/

/-- What is known of the `s` lowest bits of `n` when they are shifted out: whether they come to
half of the last place, and whether they are anything but none or half of it. -/
structure Tracks (em : ExtendedMantissa) (n s : Nat) : Prop where
  mantissa : em.mantissa = n / 2 ^ s
  round : em.roundBit = true ↔ 2 ^ s ≤ 2 * (n % 2 ^ s)
  sticky : em.stickyBit = true ↔ 2 * (n % 2 ^ s) ≠ 0 ∧ 2 * (n % 2 ^ s) ≠ 2 ^ s

theorem Tracks.shiftRightOne {em : ExtendedMantissa} {n s : Nat} (h : Tracks em n s) :
    Tracks em.shiftRightOne n (s + 1) := by
  have hq : n / 2 ^ (s + 1) = n / 2 ^ s / 2 := by rw [Nat.pow_succ, Nat.div_div_eq_div_mul]
  have hr : n % 2 ^ (s + 1) = n % 2 ^ s + 2 ^ s * (n / 2 ^ s % 2) := by
    rw [Nat.pow_succ, Nat.mod_mul]
  have hlt := Nat.mod_lt n (Nat.two_pow_pos s)
  have hbit : n / 2 ^ s % 2 = 0 ∨ n / 2 ^ s % 2 = 1 := by omega
  have hpow : 2 ^ (s + 1) = 2 * 2 ^ s := by rw [Nat.pow_succ, Nat.mul_comm]
  refine ⟨?_, ?_, ?_⟩
  · rw [hq, ← h.mantissa]
    rfl
  · rw [hr, hpow, ExtendedMantissa.shiftRightOne, h.mantissa, bne_iff_ne]
    rcases hbit with hbit | hbit <;> rw [hbit] <;> omega
  · rw [hr, hpow, ExtendedMantissa.shiftRightOne, Bool.or_eq_true, h.round, h.sticky]
    rcases hbit with hbit | hbit <;> rw [hbit] <;> omega

theorem tracks_shift (n s : Nat) :
    Tracks (ExtendedMantissa.ofMantissaAndAccuracy n .exact >>> s) n s := by
  induction s with
  | zero =>
      have hshift : ExtendedMantissa.ofMantissaAndAccuracy n .exact >>> 0 = ⟨n, false, false⟩ := rfl
      rw [hshift]
      exact ⟨(Nat.div_one n).symm, by simp [Nat.mod_one], by simp [Nat.mod_one]⟩
  | succ s ih => exact ih.shiftRightOne

theorem Tracks.roundedMantissa {em : ExtendedMantissa} {n s : Nat} (h : Tracks em n s) :
    em.roundedMantissa = halfEven n s := by
  obtain ⟨mantissa, round, sticky⟩ := em
  obtain ⟨hm, hround, hsticky⟩ := h
  dsimp only at hm hround hsticky
  subst hm
  have hpos := Nat.two_pow_pos s
  unfold halfEven
  cases round <;> cases sticky <;>
    simp only [Bool.false_eq_true, false_iff, true_iff] at hround hsticky
  · -- nothing is lost
    rw [if_pos (by omega)]
    rfl
  · rw [if_pos (by omega)]
    rfl
  · -- half of the last place is lost
    change n / 2 ^ s + n / 2 ^ s % 2 = _
    split <;> omega
  · rw [if_neg (by omega)]
    rfl

/-! ## Rounding to 53 bits -/

theorem targetExponent_eq {m : Nat} {e : Int} (hm : 2 ^ 52 ≤ m) (he : -1074 ≤ e) :
    Format.binary64.targetExponent (totalExponent m e) = e + excess m := by
  have hlog := log2_eq hm
  simp only [Format.targetExponent, totalExponent, Format.mantissaBits, Format.minExponent]
  omega

theorem shiftToTargetExponent_eq {m : Nat} {e : Int} (hm : 2 ^ 52 ≤ m) (he : -1074 ≤ e) :
    shiftToTargetExponent .binary64 m e .exact =
      (ExtendedMantissa.ofMantissaAndAccuracy m .exact >>> excess m, e + excess m) := by
  have hshift : (e + excess m - e).toNat = excess m := by omega
  rw [shiftToTargetExponent, targetExponent_eq hm he, shiftToExponent, hshift]

theorem carried {r : Nat} (hlow : 2 ^ 52 ≤ r) (hhigh : r ≤ 2 ^ 53) :
    2 ^ 52 ≤ r / 2 ^ excess r ∧ r / 2 ^ excess r < 2 ^ 53 ∧
      r / 2 ^ excess r * 2 ^ excess r = r ∧ excess r ≤ 1 := by
  rcases Nat.lt_or_eq_of_le hhigh with hlt | rfl
  · rw [excess_eq_zero hlt, Nat.pow_zero, Nat.div_one, Nat.mul_one]
    exact ⟨hlow, hlt, rfl, by omega⟩
  · have hexcess : excess (2 ^ 53) = 1 := by rw [excess, Nat.log2_two_pow]
    rw [hexcess]
    decide

theorem roundWithAccuracy_eq {m r : Nat} {e : Int} (hm : 2 ^ 52 ≤ m) (he : -1074 ≤ e)
    (hr : halfEven m (excess m) = r) (sign : Sign) :
    ∃ hpos, roundWithAccuracy .binary64 sign m e .exact =
      .finite sign (r / 2 ^ excess r) (e + excess m + excess r) hpos := by
  subst hr
  obtain ⟨hlow, hhigh⟩ := halfEven_excess hm
  have hfirst := shiftToTargetExponent_eq hm he
  have hrounded := (tracks_shift m (excess m)).roundedMantissa
  have hsecond := shiftToTargetExponent_eq (e := e + excess m) hlow (by omega)
  have hmantissa := (tracks_shift (halfEven m (excess m)) (excess (halfEven m (excess m)))).mantissa
  have hpos : 0 < halfEven m (excess m) / 2 ^ excess (halfEven m (excess m)) := by
    have := (carried hlow hhigh).1
    omega
  refine ⟨hpos, ?_⟩
  unfold roundWithAccuracy
  rw [hfirst]
  dsimp only
  rw [hrounded, hsecond]
  dsimp only
  rw [dif_neg (by omega)]
  simp only [hmantissa]

theorem roundWithAccuracy_scaled {n j r : Nat} {e : Int} (hn : 2 ^ 52 ≤ n) (he : -1074 ≤ e - j)
    (hr : halfEven n (excess n) = r) (sign : Sign) :
    ∃ hpos, roundWithAccuracy .binary64 sign (n * 2 ^ j) (e - j) .exact =
      .finite sign (r / 2 ^ excess r) (e + excess n + excess r) hpos := by
  have hlarge : 2 ^ 52 ≤ n * 2 ^ j :=
    Nat.le_trans hn (Nat.le_mul_of_pos_right _ (Nat.two_pow_pos j))
  have hscaled : halfEven (n * 2 ^ j) (excess (n * 2 ^ j)) = r := by
    rw [excess_scale hn, halfEven_scale, hr]
  obtain ⟨hpos, hround⟩ := roundWithAccuracy_eq hlarge he hscaled sign
  refine ⟨hpos, ?_⟩
  rw [hround]
  congr 1
  rw [excess_scale hn]
  omega

theorem roundWithAccuracy_of_lt {m j : Nat} {e : Int} (hlow : 2 ^ 52 ≤ m) (hhigh : m < 2 ^ 53)
    (he : -1074 ≤ e - j) (hpos : 0 < m) (sign : Sign) :
    roundWithAccuracy .binary64 sign (m * 2 ^ j) (e - j) .exact = .finite sign m e hpos := by
  have hexcess := excess_eq_zero hhigh
  obtain ⟨_, hround⟩ := roundWithAccuracy_scaled hlow he rfl sign
  rw [hround]
  simp only [hexcess, halfEven_zero]
  congr 1
  · omega
  · omega

/-! ## Packing -/

theorem toNat_append_implicit {m : Nat} (hlow : 2 ^ 52 ≤ m) (hhigh : m < 2 ^ 53) :
    (1#1 ++ BitVec.ofNat 52 m).toNat = m := by
  rw [BitVec.toNat_append, ← Nat.shiftLeft_add_eq_or_of_lt (BitVec.ofNat 52 m).isLt,
    BitVec.toNat_ofNat, BitVec.toNat_ofNat, Nat.shiftLeft_eq]
  omega

theorem unpack_pack {sign : Sign} {m : Nat} {e : Int} {hpos : 0 < m} (hlow : 2 ^ 52 ≤ m)
    (hhigh : m < 2 ^ 53) (hleast : -1074 ≤ e) (hmost : e ≤ 971) :
    (Float.Model.pack (.finite sign m e hpos)).unpack = .finite sign m e hpos := by
  have hlog : m.log2 = 52 := by
    rw [log2_eq hlow, excess_eq_zero hhigh]
  have hbias : (e + Format.binary64.exponentBias + Format.binary64.mantissaBitsWithoutImplicit) =
      e + 1075 := by
    change e + (1023 : Nat) + (52 : Nat) = e + 1075
    omega
  have hfield : (BitVec.ofNat 11 (e + 1075).toNat).toNat = (e + 1075).toNat := by
    rw [BitVec.toNat_ofNat]
    omega
  have hfinite : BitVec.ofNat 11 (e + 1075).toNat ≠ -1#11 := by
    intro h
    have h := congrArg BitVec.toNat h
    rw [hfield] at h
    simp at h
    omega
  have hnormal : BitVec.ofNat 11 (e + 1075).toNat ≠ 0#11 := by
    intro h
    have h := congrArg BitVec.toNat h
    rw [hfield] at h
    simp at h
    omega
  have hpacked : UnpackedFloat.pack .binary64 (.finite sign m e hpos) =
      packComponents .binary64 sign (BitVec.ofNat 11 (e + 1075).toNat) (BitVec.ofNat 52 m) := by
    rw [UnpackedFloat.pack]
    dsimp only
    rw [hbias, if_neg (by omega), if_pos (by rw [hlog]; rfl)]
  change UnpackedFloat.unpack .binary64 (UnpackedFloat.pack .binary64 _) = _
  rw [hpacked, UnpackedFloat.unpack]
  simp only [unpackMantissa_packComponents, unpackExponent_packComponents,
    unpackSign_packComponents, Sign.ofBitVec_toBitVec]
  rw [if_neg hfinite, if_neg hnormal]
  simp only [hfield, toNat_append_implicit hlow hhigh]
  congr 1
  change ((e + 1075).toNat : Int) - ((1023 : Nat) + (52 : Nat)) = e
  omega

/-! ## What a float holds -/

structure IsScaled (m : Nat) (e : Int) (v : Nat) : Prop where
  low : 2 ^ 52 ≤ m
  high : m < 2 ^ 53
  least : -52 ≤ e
  most : e ≤ 971
  value : m * 2 ^ (e + 52).toNat = v * 2 ^ 52

namespace IsScaled

variable {m m' : Nat} {e e' : Int} {v v' : Nat}

theorem pos (h : IsScaled m e v) : 0 < v := by
  have hpos : 0 < m * 2 ^ (e + 52).toNat :=
    Nat.mul_pos (by have := h.low; omega) (Nat.two_pow_pos _)
  rw [h.value] at hpos
  omega

theorem lt_of_exponent_lt (h : IsScaled m e v) (h' : IsScaled m' e' v') (hlt : e < e') :
    v < v' := by
  have hstep : (e' + 52).toNat = (e' - e - 1).toNat + ((e + 52).toNat + 1) := by
    have := h.least
    omega
  have hvalue : v * 2 ^ 52 < v' * 2 ^ 52 := by
    calc v * 2 ^ 52 = m * 2 ^ (e + 52).toNat := h.value.symm
      _ < 2 ^ 53 * 2 ^ (e + 52).toNat := Nat.mul_lt_mul_of_pos_right h.high (Nat.two_pow_pos _)
      _ = 2 ^ 52 * 2 ^ ((e + 52).toNat + 1) := by rw [Nat.pow_succ]; omega
      _ ≤ m' * 2 ^ ((e + 52).toNat + 1) := Nat.mul_le_mul_right _ h'.low
      _ ≤ m' * 2 ^ (e' + 52).toNat :=
        Nat.mul_le_mul_left _ (Nat.pow_le_pow_right (by omega) (by omega))
      _ = v' * 2 ^ 52 := h'.value
  omega

theorem lt_iff (h : IsScaled m e v) (h' : IsScaled m' e v') : m < m' ↔ v < v' := by
  rw [← Nat.mul_lt_mul_right (Nat.two_pow_pos (e + 52).toNat), h.value, h'.value]
  omega

theorem compare_eq (h : IsScaled m e v) (h' : IsScaled m' e' v') :
    (compare e e').then (compare m m') = compare v v' := by
  rcases Int.lt_trichotomy e e' with hlt | rfl | hgt
  · rw [Int.compare_eq_lt.2 hlt, Nat.compare_eq_lt.2 (h.lt_of_exponent_lt h' hlt)]
    rfl
  · rw [Int.compare_eq_eq.2 rfl, Ordering.eq_then]
    rcases Nat.lt_trichotomy m m' with hlt | rfl | hgt
    · rw [Nat.compare_eq_lt.2 hlt, Nat.compare_eq_lt.2 ((h.lt_iff h').1 hlt)]
    · have hv : v = v' := by
        have hvalue := h.value.symm.trans h'.value
        omega
      rw [Nat.compare_eq_eq.2 rfl, Nat.compare_eq_eq.2 hv]
    · rw [Nat.compare_eq_gt.2 hgt, Nat.compare_eq_gt.2 ((h'.lt_iff h).1 hgt)]
  · rw [Int.compare_eq_gt.2 hgt, Nat.compare_eq_gt.2 (h'.lt_of_exponent_lt h hgt)]
    rfl

end IsScaled

inductive Holds : UnpackedFloat → Int → Prop
  | zero (sign : Sign) : Holds (.zero sign) 0
  | positive {m v : Nat} {e : Int} {hpos : 0 < m} (h : IsScaled m e v) :
      Holds (.finite .positive m e hpos) v
  | negative {m v : Nat} {e : Int} {hpos : 0 < m} (h : IsScaled m e v) :
      Holds (.finite .negative m e hpos) (-v)

theorem compare_cast (v v' : Nat) : compare (v : Int) v' = compare v v' := by
  rcases Nat.lt_trichotomy v v' with hlt | rfl | hgt
  · rw [Nat.compare_eq_lt.2 hlt, Int.compare_eq_lt.2 (by omega)]
  · rw [Nat.compare_eq_eq.2 rfl, Int.compare_eq_eq.2 rfl]
  · rw [Nat.compare_eq_gt.2 hgt, Int.compare_eq_gt.2 (by omega)]

theorem compare_neg_neg (a b : Int) : compare (-a) (-b) = (compare a b).swap := by
  rw [Int.compare_swap]
  rcases Int.lt_trichotomy a b with hlt | rfl | hgt
  · rw [Int.compare_eq_gt.2 hlt, Int.compare_eq_gt.2 (by omega)]
  · rw [Int.compare_eq_eq.2 rfl, Int.compare_eq_eq.2 rfl]
  · rw [Int.compare_eq_lt.2 hgt, Int.compare_eq_lt.2 (by omega)]

namespace Holds

theorem compare_eq {x y : UnpackedFloat} {a b : Int} (hx : Holds x a) (hy : Holds y b) :
    x.compare y = some (compare a b) := by
  cases hx with
  | zero =>
      cases hy with
      | zero => rfl
      | positive h' =>
          have := h'.pos
          rw [Int.compare_eq_lt.2 (by omega)]
          rfl
      | negative h' =>
          have := h'.pos
          rw [Int.compare_eq_gt.2 (by omega)]
          rfl
  | positive h =>
      have := h.pos
      cases hy with
      | zero =>
          rw [Int.compare_eq_gt.2 (by omega)]
          rfl
      | positive h' =>
          change some _ = _
          rw [h.compare_eq h', compare_cast]
      | negative h' =>
          have := h'.pos
          rw [Int.compare_eq_gt.2 (by omega)]
          rfl
  | negative h =>
      have := h.pos
      cases hy with
      | zero =>
          rw [Int.compare_eq_lt.2 (by omega)]
          rfl
      | positive h' =>
          rw [Int.compare_eq_lt.2 (by omega)]
          rfl
      | negative h' =>
          change some (Ordering.swap _) = _
          rw [h.compare_eq h', ← compare_cast, compare_neg_neg]

theorem neg {x : UnpackedFloat} {a : Int} (h : Holds x a) : Holds x.neg (-a) := by
  cases h with
  | zero sign => exact .zero _
  | positive h => exact .negative h
  | negative h =>
      rw [Int.neg_neg]
      exact .positive h

theorem unpack_pack {x : UnpackedFloat} {a : Int} (h : Holds x a) :
    Holds (Float.Model.pack x).unpack a := by
  cases h with
  | zero sign =>
      cases sign with
      | negative => exact .zero .negative
      | positive => exact .zero .positive
  | positive h =>
      rw [Binary64.unpack_pack h.low h.high (by have := h.least; omega) h.most]
      exact .positive h
  | negative h =>
      rw [Binary64.unpack_pack h.low h.high (by have := h.least; omega) h.most]
      exact .negative h

end Holds

/-! ## Floats of whole numbers -/

theorem holds_neg {x : Float} {a : Int} (h : Holds x.toModel.unpack a) :
    Holds (-x).toModel.unpack (-a) :=
  h.neg.unpack_pack

theorem isScaled_rounded {n r : Nat} (h : 2 ^ 52 ≤ n) (hlt : n < 2 ^ 64)
    (hr : halfEven n (excess n) = r) :
    IsScaled (r / 2 ^ excess r) (excess n + excess r) (nearestNat n) := by
  subst hr
  obtain ⟨hlow, hhigh⟩ := halfEven_excess h
  obtain ⟨hm, hm', hvalue, hle⟩ := carried hlow hhigh
  have hexcess : excess n ≤ 11 := by
    have hlog := (Nat.log2_lt (by omega)).2 hlt
    have := log2_eq h
    omega
  refine ⟨hm, hm', by omega, by omega, ?_⟩
  have hnat : ((excess n : Int) + excess (halfEven n (excess n)) + 52).toNat =
      excess (halfEven n (excess n)) + excess n + 52 := by omega
  rw [hnat, Nat.pow_add, Nat.pow_add, ← Nat.mul_assoc, ← Nat.mul_assoc, hvalue, nearestNat]

theorem isScaled_shifted {n : Nat} (h : 0 < n) (hlt : n < 2 ^ 53) :
    IsScaled (n * 2 ^ (52 - n.log2)) (-(52 - n.log2 : Nat)) n := by
  have hlog := (Nat.log2_lt (by omega)).2 hlt
  have hself := Nat.log2_self_le (n := n) (by omega)
  have hnext := Nat.lt_log2_self (n := n)
  have hpos := Nat.two_pow_pos (52 - n.log2)
  have hnat : (-((52 - n.log2 : Nat) : Int) + 52).toNat = n.log2 := by omega
  refine ⟨?_, ?_, by omega, by omega, ?_⟩
  · calc 2 ^ 52 = 2 ^ n.log2 * 2 ^ (52 - n.log2) := by rw [← Nat.pow_add]; congr 1; omega
      _ ≤ n * 2 ^ (52 - n.log2) := Nat.mul_le_mul_right _ hself
  · calc n * 2 ^ (52 - n.log2) < 2 ^ (n.log2 + 1) * 2 ^ (52 - n.log2) :=
          Nat.mul_lt_mul_of_pos_right hnext hpos
      _ = 2 ^ 53 := by rw [← Nat.pow_add]; congr 1; omega
  · rw [hnat, Nat.mul_assoc, ← Nat.pow_add]
    congr 2
    omega

theorem ofNat_of_lt {n : Nat} (h : n < 2 ^ 53) :
    Float.ofNat n = n.toUInt64.toFloat * Float.ofBits 0x3FF0000000000000 := by
  change Float.ofScientific n false 0 = _
  rw [Float.ofScientific, dif_pos ⟨h, by omega⟩]
  rfl

theorem ofNat_of_ge {n : Nat} (h : 2 ^ 53 ≤ n) :
    Float.ofNat n = Float.ofModel (Float.Model.ofScientific n 0) := by
  change Float.ofScientific n false 0 = _
  rw [Float.ofScientific, dif_neg (by omega)]
  rfl

theorem holds_ofNat_small {n : Nat} (h : 0 < n) (hlt : n < 2 ^ 53) :
    Holds (Float.ofNat n).toModel.unpack n := by
  have hscaled := isScaled_shifted h hlt
  have hlog := (Nat.log2_lt (by omega)).2 hlt
  generalize hi : 52 - n.log2 = i at hscaled
  have hpos : 0 < n * 2 ^ i := Nat.mul_pos h (Nat.two_pow_pos i)
  have hword : n.toUInt64.toNat = n := by
    rw [Nat.toUInt64_eq, UInt64.toNat_ofNat']
    omega
  -- the word is a float already, and the product with one is that float
  have hround : UnpackedFloat.ofNat .binary64 n =
      .finite .positive (n * 2 ^ i) (-(i : Int)) hpos := by
    have htarget : Format.binary64.targetExponent (totalExponent n 0) = -(i : Int) := by
      simp only [Format.targetExponent, totalExponent, Format.mantissaBits, Format.minExponent]
      omega
    have hshift : decreaseExponent n 0 (-(i : Int)) =
        (n * 2 ^ i * 2 ^ 0, -(i : Int) - (0 : Nat)) := by
      have hi : (0 - -(i : Int)).toNat = i := by omega
      rw [decreaseExponent, hi, Nat.shiftLeft_eq]
      simp
    rw [UnpackedFloat.ofNat, UnpackedFloat.ofInt, UnpackedFloat.normalize,
      Int.compare_eq_gt.2 (by omega)]
    change round .binary64 .positive n 0 = _
    rw [UnpackedFloat.round, htarget]
    dsimp only
    rw [hshift]
    exact roundWithAccuracy_of_lt hscaled.low hscaled.high (by omega) hpos .positive
  have hfloat : n.toUInt64.toFloat.toModel.unpack =
      .finite .positive (n * 2 ^ i) (-(i : Int)) hpos := by
    change (Float.Model.pack (UnpackedFloat.ofNat .binary64 n.toUInt64.toNat)).unpack = _
    rw [hword, hround]
    exact unpack_pack hscaled.low hscaled.high (by omega) (by omega)
  have hone : (Float.ofBits 0x3FF0000000000000).toModel.unpack =
      .finite .positive (2 ^ 52) (-(52 : Nat)) (by decide) := rfl
  rw [ofNat_of_lt hlt]
  change Holds (Float.Model.pack (UnpackedFloat.mul .binary64 n.toUInt64.toFloat.toModel.unpack
    (Float.ofBits 0x3FF0000000000000).toModel.unpack)).unpack n
  rw [hfloat, hone]
  change Holds (Float.Model.pack (roundWithAccuracy .binary64 .positive (n * 2 ^ i * 2 ^ 52)
    (-(i : Int) - (52 : Nat)) .exact)).unpack n
  rw [roundWithAccuracy_of_lt hscaled.low hscaled.high (by omega) hpos]
  exact Holds.unpack_pack (Holds.positive hscaled)

theorem holds_ofNat_large {n : Nat} (h : 2 ^ 53 ≤ n) (hlt : n < 2 ^ 64) :
    Holds (Float.ofNat n).toModel.unpack (nearestNat n) := by
  have hlarge : 2 ^ 52 ≤ n := by omega
  obtain ⟨hpos, hround⟩ :=
    roundWithAccuracy_scaled (j := 53) (e := 0) hlarge (by omega) rfl .positive
  have hproduct : UnpackedFloat.ofScientific .binary64 n 0 =
      roundWithAccuracy .binary64 .positive (n * 2 ^ 53) (0 - (53 : Nat)) .exact := by
    have hrange : ¬ (0 : Int) < -((2 ^ Format.binary64.exponentBits : Int) + n.log2) := by
      change ¬ (0 : Int) < -(2048 + n.log2)
      omega
    rw [UnpackedFloat.ofScientific, dif_neg (by omega), if_neg (by decide), if_neg hrange,
      if_pos (by decide)]
    change roundWithAccuracy .binary64 .positive (n <<< 53 * 1) (-(53 : Nat) + 0) .exact = _
    rw [Nat.mul_one, Nat.shiftLeft_eq]
    rfl
  rw [ofNat_of_ge h]
  change Holds (Float.Model.pack (UnpackedFloat.ofScientific .binary64 n 0)).unpack _
  rw [hproduct, hround]
  refine Holds.unpack_pack (Holds.positive ?_)
  have hscaled := isScaled_rounded hlarge hlt rfl
  rwa [← Int.zero_add (excess n : Int)] at hscaled

theorem holds_ofNat {n : Nat} (h : n < 2 ^ 64) :
    Holds (Float.ofNat n).toModel.unpack (nearestNat n) := by
  rcases Nat.eq_zero_or_pos n with rfl | hpos
  · exact .zero .positive
  rcases Nat.lt_or_ge n (2 ^ 53) with hlt | hge
  · rw [nearestNat_of_lt hlt]
    exact holds_ofNat_small hpos hlt
  · exact holds_ofNat_large hge h

theorem holds_ofInt {a : Int} (h : a.natAbs < 2 ^ 64) :
    Holds (Float.ofInt a).toModel.unpack (nearest a) := by
  cases a with
  | ofNat n => exact holds_ofNat h
  | negSucc n => exact holds_neg (holds_ofNat h)

/-! ## The order of floats -/

section

variable {x y : Float} {a b : Int}

theorem float_lt_iff (hx : Holds x.toModel.unpack a) (hy : Holds y.toModel.unpack b) :
    x < y ↔ a < b := by
  have hmodel : x < y ↔ UnpackedFloat.lt x.toModel.unpack y.toModel.unpack = true :=
    decide_eq_true_iff
  rw [hmodel, UnpackedFloat.lt, hx.compare_eq hy, beq_iff_eq, Option.some.injEq,
    Int.compare_eq_lt]

theorem float_beq (hx : Holds x.toModel.unpack a) (hy : Holds y.toModel.unpack b) :
    (x == y) = decide (a = b) := by
  change UnpackedFloat.beq x.toModel.unpack y.toModel.unpack = _
  rw [UnpackedFloat.beq, hx.compare_eq hy, Bool.eq_iff_iff, beq_iff_eq, Option.some.injEq,
    Int.compare_eq_eq, decide_eq_true_iff]

theorem floatOrder?_eq (hx : Holds x.toModel.unpack a) (hy : Holds y.toModel.unpack b) :
    floatOrder? x y = some (compare a b) := by
  unfold floatOrder?
  rw [float_beq hx hy]
  rcases Int.lt_trichotomy a b with hlt | heq | hgt
  · rw [if_pos ((float_lt_iff hx hy).2 hlt), Int.compare_eq_lt.2 hlt]
  · have hnot : ¬ x < y := fun h => by
      have := (float_lt_iff hx hy).1 h
      omega
    rw [if_neg hnot, if_pos (decide_eq_true heq), Int.compare_eq_eq.2 heq]
  · have hnot : ¬ x < y := fun h => by
      have := (float_lt_iff hx hy).1 h
      omega
    have hne : a ≠ b := by omega
    rw [if_neg hnot, if_neg (by simpa using hne), if_pos ((float_lt_iff hy hx).2 hgt),
      Int.compare_eq_gt.2 hgt]

end

end Stencil.Binary64
