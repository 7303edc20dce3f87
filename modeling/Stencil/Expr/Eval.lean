import Stencil.Calendar
import Stencil.Expr.Basic
import Stencil.Text.Case
import Stencil.Value.Arithmetic
import Stencil.Value.Compare

/-!
# Evaluating expressions

An expression has a value for every assignment of values to names.  Names are
only looked up; the one other input is the moment that `date` formats.
-/

namespace Stencil

namespace BinaryOp

def apply (op : BinaryOp) (a b : Value) : Value :=
  match op with
  | .or => .bool (a.truthy || b.truthy)
  | .and => .bool (a.truthy && b.truthy)
  | .eq => .bool (a.looseEq b)
  | .ne => .bool (!a.looseEq b)
  | .strictEq => .bool (a.same b)
  | .strictNe => .bool (!a.same b)
  | .lt => .bool (a.order? b == some .lt)
  | .le => .bool (a.order? b == some .lt || a.order? b == some .eq)
  | .gt => .bool (a.order? b == some .gt)
  | .ge => .bool (a.order? b == some .gt || a.order? b == some .eq)
  | .add => Arithmetic.add.apply a b
  | .sub => Arithmetic.sub.apply a b
  | .mul => Arithmetic.mul.apply a b
  | .div => Arithmetic.div.apply a b
  | .rem => Arithmetic.rem.apply a b

end BinaryOp

/-! ## Functions -/

def Value.displays : Value → List Text
  | .array items => items.map Value.display
  | .object fields => fields.map fun field => field.2.display
  | value => [value.display]

def Value.count : Value → Nat
  | .array items => items.length
  | .object fields => fields.length
  | .null => 0
  | _ => 1

namespace FunctionName

/-- Applies a function to its arguments, of which missing ones are `null`. -/
def apply (now : Moment) (f : FunctionName) (args : List Value) : Value :=
  let first := args[0]?.getD .null
  let second := args[1]?.getD .null
  match f with
  | .date => .string (now.format first.display)
  | .count => .ofInt first.count
  | .isset => .bool (args.all fun value => !value.isNull)
  | .empty => .bool (!first.truthy)
  | .upper => .string (Case.upper first.display)
  | .lower => .string (Case.lower first.display)
  | .ucfirst => .string (Case.capitalize first.display)
  | .trim => .string (Text.trim first.display)
  | .implode => .string (Text.join first.display second.displays)

end FunctionName

/-! ## Expressions -/

namespace Expr

mutual

/-- Variables that are not bound are `null`; `isset` is false of what is no variable. -/
def eval (now : Moment) (lookup : Lookup) : Expr → Value
  | .literal value => value
  | .var v => (v.resolve? lookup).getD .null
  | .not e => .bool (!(eval now lookup e).truthy)
  | .neg e => Arithmetic.sub.apply (.ofInt 0) (eval now lookup e)
  | .binary op left right => op.apply (eval now lookup left) (eval now lookup right)
  | .coalesce left right =>
    match eval now lookup left with
    | .null => eval now lookup right
    | value => value
  | .call f args =>
    if f = .isset ∧ ¬ args.all isVar then .bool false
    else f.apply now (evalAll now lookup args)

def evalAll (now : Moment) (lookup : Lookup) : List Expr → List Value
  | [] => []
  | e :: es => eval now lookup e :: evalAll now lookup es

end

end Expr

end Stencil
