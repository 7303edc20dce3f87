import Stencil.Expr.Eval
import Stencil.Expr.Parser

/-!
# Interpolations and loop heads

Two argument forms that are not plain expressions: a variable with an optional
fallback after `??`, and the head of a loop, which names a variable to run
through and the names that are bound in each round.
-/

namespace Stencil

/-! ## Interpolations -/

structure Interpolation where
  var : Variable
  fallback : Option Expr

namespace Interpolation

def parse (src : Text) : Except ExprError Interpolation :=
  match Variable.scan? (Text.trim src) with
  | none => .error .missingVariable
  | some (var, rest) =>
    let rest := Text.trimStart rest
    if rest = [] then .ok ⟨var, none⟩
    else
      match Text.after? ['?', '?'] rest with
      | none => .error (.afterVariable rest)
      | some fallback => (Expr.parse fallback).map fun e => ⟨var, some e⟩

/-- The value of the variable, or of the fallback when that is `null` or not bound. -/
def eval (now : Moment) (lookup : Lookup) (i : Interpolation) : Value :=
  match i.var.resolve? lookup, i.fallback with
  | some .null, none | none, none => .null
  | some .null, some e | none, some e => e.eval now lookup
  | some value, _ => value

def toExpr (i : Interpolation) : Expr :=
  match i.fallback with
  | none => .var i.var
  | some e => .coalesce (.var i.var) e

end Interpolation

/-! ## Loop heads -/

structure LoopHead where
  source : Variable
  key : Option Text
  item : Text
deriving DecidableEq, Repr

namespace LoopHead

def binding (t : Text) : Except ExprError (Text × Text) :=
  match Variable.scan? t with
  | some (var, rest) => if var.isPlain then .ok (var.root, rest) else .error .missingBinding
  | none => .error .missingBinding

def afterAs? (t : Text) : Option Text :=
  match Text.after? ['a', 's'] t with
  | some (c :: rest) => if Text.isWhite c then some (Text.trimStart rest) else none
  | _ => none

def parse (src : Text) : Except ExprError LoopHead := do
  let some (source, rest) := Variable.scan? (Text.trim src) | throw .missingSource
  let some rest := afterAs? (Text.trimStart rest) | throw .missingAs
  let (first, rest) ← binding rest
  let rest := Text.trimStart rest
  if rest = [] then return ⟨source, none, first⟩
  let some rest := Text.after? ['=', '>'] rest | throw (.inLoopHead rest)
  let (second, rest) ← binding (Text.trimStart rest)
  let rest := Text.trim rest
  if rest = [] then return ⟨source, some first, second⟩
  throw (.inLoopHead rest)

end LoopHead

def Variable.parse (src : Text) : Except ExprError Variable :=
  match Variable.scan? (Text.trim src) with
  | none => .error .missingVariable
  | some (var, []) => .ok var
  | some (_, rest) => .error (.afterVariable rest)

end Stencil
