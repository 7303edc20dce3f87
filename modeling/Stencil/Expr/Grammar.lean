import Stencil.Expr.Basic

/-!
# The grammar of expressions

Which token lists are expressions, and of what tree, without a word on how to
find it.  Every rule says how a list is put together from the lists of parts.
-/

namespace Stencil.Expr

mutual

/-- One operand of `??`, or two; the right one may be joined by `??` itself. -/
inductive IsExpr : List Token → Expr → Prop
  | single {tokens : List Token} {e : Expr} (h : IsLevel BinaryOp.outermost tokens e) :
      IsExpr tokens e
  | coalesce {before after : List Token} {left right : Expr}
      (hl : IsLevel BinaryOp.outermost before left) (hr : IsExpr after right) :
      IsExpr (before ++ .symbol .coalesce :: after) (.coalesce left right)

/-- Operands joined by operators of a level or of levels that bind closer.  Where operators
chain, the left operand may be joined by another one of the level. -/
inductive IsLevel : Nat → List Token → Expr → Prop
  | signed {tokens : List Token} {e : Expr} (h : IsSigned tokens e) : IsLevel 0 tokens e
  | inner {level : Nat} {tokens : List Token} {e : Expr} (h : IsLevel level tokens e) :
      IsLevel (level + 1) tokens e
  | chained {level : Nat} {before after : List Token} {token : Token} {op : BinaryOp}
      {left right : Expr} (hc : BinaryOp.chains (level + 1) = true)
      (hl : IsLevel (level + 1) before left) (ho : token.opAt? (level + 1) = some op)
      (hr : IsLevel level after right) :
      IsLevel (level + 1) (before ++ token :: after) (.binary op left right)
  | unchained {level : Nat} {before after : List Token} {token : Token} {op : BinaryOp}
      {left right : Expr} (hc : BinaryOp.chains (level + 1) = false)
      (hl : IsLevel level before left) (ho : token.opAt? (level + 1) = some op)
      (hr : IsLevel level after right) :
      IsLevel (level + 1) (before ++ token :: after) (.binary op left right)

inductive IsSigned : List Token → Expr → Prop
  | not {tokens : List Token} {e : Expr} (h : IsSigned tokens e) :
      IsSigned (.symbol .not :: tokens) (.not e)
  | neg {tokens : List Token} {e : Expr} (h : IsSigned tokens e) :
      IsSigned (.symbol .minus :: tokens) (.neg e)
  | operand {tokens : List Token} {e : Expr} (h : IsOperand tokens e) : IsSigned tokens e

inductive IsOperand : List Token → Expr → Prop
  | var (v : Variable) : IsOperand [.var v] (.var v)
  | string (t : Text) : IsOperand [.string t] (.literal (.string t))
  | number (value : Value) : IsOperand [.number value] (.literal value)
  | constant {word : Text} {value : Value} (h : constant? word = some value) :
      IsOperand [.word word] (.literal value)
  | group {tokens : List Token} {e : Expr} (h : IsExpr tokens e) :
      IsOperand (.leftParen :: tokens ++ [.rightParen]) e
  | call {f : FunctionName} {tokens : List Token} {args : List Expr}
      (h : AreArguments tokens args) (hn : f.accepts args.length = true)
      (hv : f = .isset → args.all isVar = true) :
      IsOperand (.word f.spelling :: .leftParen :: tokens ++ [.rightParen]) (.call f args)

inductive AreArguments : List Token → List Expr → Prop
  | none : AreArguments [] []
  | last {tokens : List Token} {e : Expr} (h : IsExpr tokens e) : AreArguments tokens [e]
  | more {before after : List Token} {e next : Expr} {args : List Expr}
      (h : IsExpr before e) (hs : AreArguments after (next :: args)) :
      AreArguments (before ++ .comma :: after) (e :: next :: args)

end

end Stencil.Expr
