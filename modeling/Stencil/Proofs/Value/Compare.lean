import Stencil.Proofs.Binary64.Whole
import Stencil.Proofs.Value.Arithmetic

/-!
# Comparing whole numbers

Loose comparisons turn whole numbers into floats, so what they compare are the
nearest numbers of 53 bits.  That is the order of the whole numbers as long as
the two do not have the same nearest number, which only large numbers close to
each other have.  Strict equality compares the whole numbers themselves.
-/

namespace Stencil

open Binary64 (nearest)

namespace BinaryOp

def loose : List BinaryOp := [.eq, .ne, .lt, .le, .gt, .ge]

def holdsOf : BinaryOp → Int → Int → Bool
  | .eq, a, b => decide (a = b)
  | .ne, a, b => decide (a ≠ b)
  | .lt, a, b => decide (a < b)
  | .le, a, b => decide (a ≤ b)
  | .gt, a, b => decide (b < a)
  | .ge, a, b => decide (b ≤ a)
  | _, _, _ => false

variable {a b : Int}

theorem apply_ofInt {op : BinaryOp} (hop : op ∈ loose) (ha : a.natAbs < 2 ^ 64)
    (hb : b.natAbs < 2 ^ 64) :
    op.apply (.ofInt a) (.ofInt b) = .bool (op.holdsOf (nearest a) (nearest b)) := by
  have hx := Binary64.holds_ofInt ha
  have hy := Binary64.holds_ofInt hb
  have heq : (Value.ofInt a).looseEq (.ofInt b) = decide (nearest a = nearest b) :=
    Binary64.float_beq hx hy
  have horder (o : Ordering) : ((Value.ofInt a).order? (.ofInt b) == some o) =
      decide (compare (nearest a) (nearest b) = o) := by
    have hfloats : (Value.ofInt a).order? (.ofInt b) = some (compare (nearest a) (nearest b)) :=
      Binary64.floatOrder?_eq hx hy
    rw [hfloats, Bool.eq_iff_iff, beq_iff_eq, Option.some.injEq, decide_eq_true_iff]
  simp only [loose, List.mem_cons, List.not_mem_nil, or_false] at hop
  rcases hop with rfl | rfl | rfl | rfl | rfl | rfl
  · rw [apply, heq, holdsOf]
  · rw [apply, heq, holdsOf, decide_not]
  · simp only [apply, horder, Int.compare_eq_lt, holdsOf]
  · simp only [apply, horder, Int.compare_eq_lt, Int.compare_eq_eq, holdsOf,
      Int.le_iff_lt_or_eq, Bool.decide_or]
  · simp only [apply, horder, Int.compare_eq_gt, holdsOf]
  · simp only [apply, horder, Int.compare_eq_gt, Int.compare_eq_eq, holdsOf,
      Int.le_iff_lt_or_eq, Bool.decide_or, @eq_comm _ (nearest a) (nearest b)]

theorem holdsOf_self (op : BinaryOp) (a b : Int) : op.holdsOf a a = op.holdsOf b b := by
  cases op <;> simp [holdsOf]

theorem eq_of_holdsOf {op other : BinaryOp} (hop : op ∈ [BinaryOp.lt, .eq, .gt])
    (hother : other ∈ [BinaryOp.lt, .eq, .gt]) (h : op.holdsOf a b = true)
    (h' : other.holdsOf a b = true) : op = other := by
  simp only [List.mem_cons, List.not_mem_nil, or_false] at hop hother
  rcases hop with rfl | rfl | rfl <;> rcases hother with rfl | rfl | rfl <;>
    simp only [holdsOf, decide_eq_true_iff] at h h' <;> first | rfl | omega

theorem existsUnique_holdsOf (a b : Int) :
    ∃! op, op ∈ [BinaryOp.lt, .eq, .gt] ∧ op.holdsOf a b = true := by
  obtain ⟨op, hop, h⟩ : ∃ op ∈ [BinaryOp.lt, .eq, .gt], op.holdsOf a b = true := by
    rcases Int.lt_trichotomy a b with h | h | h
    · exact ⟨.lt, by simp, decide_eq_true h⟩
    · exact ⟨.eq, by simp, decide_eq_true h⟩
    · exact ⟨.gt, by simp, decide_eq_true h⟩
  exact ⟨op, ⟨hop, h⟩, fun other hother => eq_of_holdsOf hother.1 hop hother.2 h⟩

theorem holdsOf_nearest {op : BinaryOp} (h : nearest a ≠ nearest b) :
    op.holdsOf (nearest a) (nearest b) = op.holdsOf a b := by
  have hne : a ≠ b := fun he => h (congrArg nearest he)
  rcases Int.lt_or_gt_of_ne hne with hlt | hgt
  · have hnearest := Binary64.nearest_mono (Int.le_of_lt hlt)
    cases op <;> simp only [holdsOf] <;> congr 1 <;> simp only [eq_iff_iff] <;> omega
  · have hnearest := Binary64.nearest_mono (Int.le_of_lt hgt)
    cases op <;> simp only [holdsOf] <;> congr 1 <;> simp only [eq_iff_iff] <;> omega

theorem holdsOf_nearest_iff : (∀ op ∈ loose, op.holdsOf (nearest a) (nearest b) = op.holdsOf a b) ↔
    (a = b ∨ nearest a ≠ nearest b) := by
  constructor
  · intro h
    by_cases heq : nearest a = nearest b
    · have hholds := h .eq List.mem_cons_self
      rw [holdsOf, holdsOf, decide_eq_true heq] at hholds
      exact Or.inl (of_decide_eq_true hholds.symm)
    · exact Or.inr heq
  · rintro (rfl | hne) op -
    · exact holdsOf_self op _ _
    · exact holdsOf_nearest hne

end BinaryOp

namespace Expr

variable {now : Moment} {lookup : Lookup} {left right : Expr} {a b : Int}

structure ComparesNearest (now : Moment) (lookup : Lookup) (left right : Expr) (a b : Int) :
    Prop where
  loose : ∀ op ∈ BinaryOp.loose, (binary op left right).eval now lookup =
    .bool (op.holdsOf (nearest a) (nearest b))
  strict : (binary .strictEq left right).eval now lookup = .bool (decide (a = b))
  exact_iff : (∀ op ∈ BinaryOp.loose, (binary op left right).eval now lookup =
    .bool (op.holdsOf a b)) ↔ (a = b ∨ nearest a ≠ nearest b)
  close : a ≠ b → nearest a = nearest b →
    2 ^ 53 ≤ a.natAbs ∧ 2 ^ 53 ≤ b.natAbs ∧ (a - b).natAbs ≤ 2048
  single : ∃! op, op ∈ [BinaryOp.lt, .eq, .gt] ∧
    (binary op left right).eval now lookup = .bool true

/-- Loose comparisons of whole numbers compare the nearest numbers of 53 bits. -/
theorem comparesNearest (ha : -0x8000000000000000 ≤ a ∧ a < 0x10000000000000000)
    (hb : -0x8000000000000000 ≤ b ∧ b < 0x10000000000000000)
    (hl : left.eval now lookup = .ofInt a) (hr : right.eval now lookup = .ofInt b) :
    ComparesNearest now lookup left right a b := by
  have ha : a.natAbs < 2 ^ 64 := by omega
  have hb : b.natAbs < 2 ^ 64 := by omega
  have hloose : ∀ op ∈ BinaryOp.loose, (binary op left right).eval now lookup =
      .bool (op.holdsOf (nearest a) (nearest b)) := by
    intro op hop
    rw [eval, hl, hr, BinaryOp.apply_ofInt hop ha hb]
  have hexact : (∀ op ∈ BinaryOp.loose, (binary op left right).eval now lookup =
      .bool (op.holdsOf a b)) ↔ (a = b ∨ nearest a ≠ nearest b) := by
    rw [← BinaryOp.holdsOf_nearest_iff]
    refine forall_congr' fun op => forall_congr' fun hop => ?_
    rw [hloose op hop, Value.bool.injEq]
  have hsingle (op : BinaryOp) : (op ∈ [BinaryOp.lt, .eq, .gt] ∧
      (binary op left right).eval now lookup = .bool true) ↔
        op ∈ [BinaryOp.lt, .eq, .gt] ∧ op.holdsOf (nearest a) (nearest b) = true := by
    have hmem : op ∈ [BinaryOp.lt, .eq, .gt] → op ∈ BinaryOp.loose := by
      cases op <;> decide
    refine and_congr_right fun hop => ?_
    rw [hloose op (hmem hop), Value.bool.injEq]
  refine ⟨hloose, ?_, hexact, Binary64.large_of_nearest_eq ha hb, ?_⟩
  · rw [eval, hl, hr]
    rfl
  · simp only [hsingle]
    exact BinaryOp.existsUnique_holdsOf _ _

def neighbours : Lookup := fun name =>
  if name = ['a'] then some (.ofInt 9007199254740992) else some (.ofInt 9007199254740993)

theorem comparesNearest_neighbours :
    (-0x8000000000000000 ≤ (9007199254740992 : Int) ∧
        (9007199254740992 : Int) < 0x10000000000000000) ∧
      (-0x8000000000000000 ≤ (9007199254740993 : Int) ∧
        (9007199254740993 : Int) < 0x10000000000000000) ∧
      (Expr.var ⟨['a'], []⟩).eval noon neighbours = .ofInt 9007199254740992 ∧
      (Expr.var ⟨['b'], []⟩).eval noon neighbours = .ofInt 9007199254740993 ∧
      ComparesNearest noon neighbours (.var ⟨['a'], []⟩) (.var ⟨['b'], []⟩) 9007199254740992
        9007199254740993 := by
  have hl : (Expr.var ⟨['a'], []⟩).eval noon neighbours = .ofInt 9007199254740992 := rfl
  have hr : (Expr.var ⟨['b'], []⟩).eval noon neighbours = .ofInt 9007199254740993 := rfl
  exact ⟨by decide, by decide, hl, hr, comparesNearest (by decide) (by decide) hl hr⟩

theorem looseEq_neighbours :
    (binary .eq (.var ⟨['a'], []⟩) (.var ⟨['b'], []⟩)).eval noon neighbours = .bool true ∧
      (binary .lt (.var ⟨['a'], []⟩) (.var ⟨['b'], []⟩)).eval noon neighbours = .bool false ∧
      (9007199254740992 : Int) ≠ 9007199254740993 ∧
      (9007199254740992 : Int) < 9007199254740993 :=
  ⟨rfl, rfl, by decide, by decide⟩

end Expr

end Stencil
