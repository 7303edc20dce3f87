import Stencil.Expr.Basic
import Stencil.Value.Json

/-!
# Writing expressions

The written form of an expression: its tokens with a space between neighbours,
and parentheses around every operand that is made of parts.
-/

namespace Stencil

namespace BinaryOp

def symbol : BinaryOp → Symbol
  | .or => .or
  | .and => .and
  | .eq => .eq
  | .ne => .ne
  | .strictEq => .strictEq
  | .strictNe => .strictNe
  | .lt => .lt
  | .le => .le
  | .gt => .gt
  | .ge => .ge
  | .add => .plus
  | .sub => .minus
  | .mul => .star
  | .div => .slash
  | .rem => .percent

@[simp] theorem ofSymbol?_symbol (op : BinaryOp) : ofSymbol? op.symbol = some op := by
  cases op <;> rfl

end BinaryOp

/-- Constants are words; numbers are written as in JSON. -/
def Value.token : Value → Token
  | .null => .word ['n', 'u', 'l', 'l']
  | .bool true => .word ['t', 'r', 'u', 'e']
  | .bool false => .word ['f', 'a', 'l', 's', 'e']
  | .string t => .string t
  | value => .number value

def Token.write : Token → Text
  | .var v => v.write
  | .word name => name
  | .string t => Quoted.quote t
  | .number literal => literal.json
  | .symbol s => s.spelling
  | .leftParen => ['(']
  | .rightParen => [')']
  | .comma => [',']

namespace Expr

/-- Whether an expression is made of parts that its surroundings could tear apart. -/
def isCompound : Expr → Bool
  | .literal _ | .var _ | .call _ _ => false
  | .not _ | .neg _ | .binary _ _ _ | .coalesce _ _ => true

def grouped (compound : Bool) (tokens : List Token) : List Token :=
  if compound then .leftParen :: tokens ++ [.rightParen] else tokens

mutual

def tokens : Expr → List Token
  | .literal value => [value.token]
  | .var v => [.var v]
  | .not e => .symbol .not :: grouped e.isCompound (tokens e)
  | .neg e => .symbol .minus :: grouped e.isCompound (tokens e)
  | .binary op left right =>
    grouped left.isCompound (tokens left) ++
      .symbol op.symbol :: grouped right.isCompound (tokens right)
  | .coalesce left right =>
    grouped left.isCompound (tokens left) ++
      .symbol .coalesce :: grouped right.isCompound (tokens right)
  | .call f args => .word f.spelling :: .leftParen :: argumentTokens args ++ [.rightParen]

def argumentTokens : List Expr → List Token
  | [] => []
  | [e] => tokens e
  | e :: es => tokens e ++ .comma :: argumentTokens es

end

def write (e : Expr) : Text := Text.join [' '] (e.tokens.map Token.write)

end Expr

end Stencil
