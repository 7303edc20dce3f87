import Stencil.Expr.Eval

/-!
# Expressions without dates

Only `date` looks at the clock.  An expression that does not call it has one
value for each assignment of values to names.
-/

namespace Stencil.Expr

mutual

def isTimeless : Expr → Bool
  | .literal _ => true
  | .var _ => true
  | .not e => isTimeless e
  | .neg e => isTimeless e
  | .binary _ left right => isTimeless left && isTimeless right
  | .coalesce left right => isTimeless left && isTimeless right
  | .call f args => f != .date && allTimeless args

def allTimeless : List Expr → Bool
  | [] => true
  | e :: es => isTimeless e && allTimeless es

end

theorem apply_of_ne_date {f : FunctionName} (h : f ≠ .date) (now later : Moment)
    (args : List Value) : f.apply now args = f.apply later args := by
  cases f with
  | date => exact (h rfl).elim
  | _ => rfl

mutual

theorem eval_of_isTimeless {e : Expr} (h : e.isTimeless = true) (now later : Moment)
    (lookup : Lookup) : e.eval now lookup = e.eval later lookup := by
  cases e with
  | literal value => rfl
  | var v => rfl
  | not e =>
      simp only [eval, eval_of_isTimeless (e := e) h now later]
  | neg e =>
      simp only [eval, eval_of_isTimeless (e := e) h now later]
  | binary op left right =>
      simp only [isTimeless, Bool.and_eq_true] at h
      simp only [eval, eval_of_isTimeless h.1 now later, eval_of_isTimeless h.2 now later]
  | coalesce left right =>
      simp only [isTimeless, Bool.and_eq_true] at h
      simp only [eval, eval_of_isTimeless h.1 now later, eval_of_isTimeless h.2 now later]
  | call f args =>
      simp only [isTimeless, Bool.and_eq_true, bne_iff_ne] at h
      simp only [eval, evalAll_of_allTimeless h.2 now later, apply_of_ne_date h.1 now later]

theorem evalAll_of_allTimeless {es : List Expr} (h : allTimeless es = true) (now later : Moment)
    (lookup : Lookup) : evalAll now lookup es = evalAll later lookup es := by
  cases es with
  | nil => rfl
  | cons e es =>
      simp only [allTimeless, Bool.and_eq_true] at h
      simp only [evalAll, eval_of_isTimeless h.1 now later, evalAll_of_allTimeless h.2 now later]

end

end Stencil.Expr
