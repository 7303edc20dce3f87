import Stencil.Expr.Basic

/-!
# The rules of expressions

The grammar in full, with a predicate for each kind of phrase, from `??`, which
binds loosest, down to operands.  Nothing here is shared with the parser but
the tokens, the trees and the spelling of functions.
-/

namespace Stencil.Expr.Rule

/-- How operators are written.  `or` and `and` may be words, in letters of any case. -/
inductive IsWritten : BinaryOp → Token → Prop
  | orSign : IsWritten .or (.symbol .or)
  | orWord {word : Text} (h : foldCase word = ['o', 'r']) : IsWritten .or (.word word)
  | andSign : IsWritten .and (.symbol .and)
  | andWord {word : Text} (h : foldCase word = ['a', 'n', 'd']) : IsWritten .and (.word word)
  | eq : IsWritten .eq (.symbol .eq)
  | ne : IsWritten .ne (.symbol .ne)
  | strictEq : IsWritten .strictEq (.symbol .strictEq)
  | strictNe : IsWritten .strictNe (.symbol .strictNe)
  | lt : IsWritten .lt (.symbol .lt)
  | le : IsWritten .le (.symbol .le)
  | gt : IsWritten .gt (.symbol .gt)
  | ge : IsWritten .ge (.symbol .ge)
  | add : IsWritten .add (.symbol .plus)
  | sub : IsWritten .sub (.symbol .minus)
  | mul : IsWritten .mul (.symbol .star)
  | div : IsWritten .div (.symbol .slash)
  | rem : IsWritten .rem (.symbol .percent)

def comparisons : List BinaryOp := [.eq, .ne, .strictEq, .strictNe, .lt, .le, .gt, .ge]

mutual

inductive Expression : List Token → Expr → Prop
  | single {tokens : List Token} {e : Expr} (h : Disjunction tokens e) : Expression tokens e
  | coalesce {before after : List Token} {left right : Expr} (hl : Disjunction before left)
      (hr : Expression after right) :
      Expression (before ++ .symbol .coalesce :: after) (.coalesce left right)

/-- Conjunctions with `or` between them, the first two joined first. -/
inductive Disjunction : List Token → Expr → Prop
  | single {tokens : List Token} {e : Expr} (h : Conjunction tokens e) : Disjunction tokens e
  | join {before after : List Token} {token : Token} {left right : Expr}
      (hl : Disjunction before left) (ho : IsWritten .or token) (hr : Conjunction after right) :
      Disjunction (before ++ token :: after) (.binary .or left right)

inductive Conjunction : List Token → Expr → Prop
  | single {tokens : List Token} {e : Expr} (h : Comparison tokens e) : Conjunction tokens e
  | join {before after : List Token} {token : Token} {left right : Expr}
      (hl : Conjunction before left) (ho : IsWritten .and token) (hr : Comparison after right) :
      Conjunction (before ++ token :: after) (.binary .and left right)

inductive Comparison : List Token → Expr → Prop
  | single {tokens : List Token} {e : Expr} (h : Sum tokens e) : Comparison tokens e
  | compare {before after : List Token} {token : Token} {op : BinaryOp} {left right : Expr}
      (hl : Sum before left) (hop : op ∈ comparisons) (ho : IsWritten op token)
      (hr : Sum after right) : Comparison (before ++ token :: after) (.binary op left right)

inductive Sum : List Token → Expr → Prop
  | single {tokens : List Token} {e : Expr} (h : Product tokens e) : Sum tokens e
  | join {before after : List Token} {token : Token} {op : BinaryOp} {left right : Expr}
      (hl : Sum before left) (hop : op ∈ [BinaryOp.add, .sub]) (ho : IsWritten op token)
      (hr : Product after right) : Sum (before ++ token :: after) (.binary op left right)

inductive Product : List Token → Expr → Prop
  | single {tokens : List Token} {e : Expr} (h : Signed tokens e) : Product tokens e
  | join {before after : List Token} {token : Token} {op : BinaryOp} {left right : Expr}
      (hl : Product before left) (hop : op ∈ [BinaryOp.mul, .div, .rem]) (ho : IsWritten op token)
      (hr : Signed after right) : Product (before ++ token :: after) (.binary op left right)

inductive Signed : List Token → Expr → Prop
  | not {tokens : List Token} {e : Expr} (h : Signed tokens e) :
      Signed (.symbol .not :: tokens) (.not e)
  | neg {tokens : List Token} {e : Expr} (h : Signed tokens e) :
      Signed (.symbol .minus :: tokens) (.neg e)
  | operand {tokens : List Token} {e : Expr} (h : Operand tokens e) : Signed tokens e

/-- Constants are words in letters of any case; functions are named exactly as they are spelled.
`implode` takes two arguments, `isset` one variable or more, every other function one argument. -/
inductive Operand : List Token → Expr → Prop
  | var (v : Variable) : Operand [.var v] (.var v)
  | string (t : Text) : Operand [.string t] (.literal (.string t))
  | number (value : Value) : Operand [.number value] (.literal value)
  | yes {word : Text} (h : foldCase word = ['t', 'r', 'u', 'e']) :
      Operand [.word word] (.literal (.bool true))
  | no {word : Text} (h : foldCase word = ['f', 'a', 'l', 's', 'e']) :
      Operand [.word word] (.literal (.bool false))
  | null {word : Text} (h : foldCase word = ['n', 'u', 'l', 'l']) :
      Operand [.word word] (.literal .null)
  | group {tokens : List Token} {e : Expr} (h : Expression tokens e) :
      Operand (.leftParen :: tokens ++ [.rightParen]) e
  | call {f : FunctionName} {tokens : List Token} {args : List Expr} (hf : f ≠ .isset)
      (h : Arguments tokens args) (hn : args.length = if f = .implode then 2 else 1) :
      Operand (.word f.spelling :: .leftParen :: tokens ++ [.rightParen]) (.call f args)
  | isset {tokens : List Token} {first : Variable} {more : List Variable}
      (h : Arguments tokens ((first :: more).map .var)) :
      Operand (.word FunctionName.isset.spelling :: .leftParen :: tokens ++ [.rightParen])
        (.call .isset ((first :: more).map .var))

inductive Arguments : List Token → List Expr → Prop
  | none : Arguments [] []
  | last {tokens : List Token} {e : Expr} (h : Expression tokens e) : Arguments tokens [e]
  | more {before after : List Token} {e next : Expr} {args : List Expr} (h : Expression before e)
      (hs : Arguments after (next :: args)) :
      Arguments (before ++ .comma :: after) (e :: next :: args)

end

end Stencil.Expr.Rule
