import Stencil.Expr.Token

/-!
# Expressions

The trees that directive arguments are parsed to, and the errors of arguments
that do not parse.
-/

namespace Stencil

inductive BinaryOp where
  | or
  | and
  | eq
  | ne
  | strictEq
  | strictNe
  | lt
  | le
  | gt
  | ge
  | add
  | sub
  | mul
  | div
  | rem
deriving DecidableEq, Repr

inductive FunctionName where
  | date
  | count
  | isset
  | empty
  | upper
  | lower
  | ucfirst
  | trim
  | implode
deriving DecidableEq, Repr

inductive Expr where
  | literal (value : Value)
  | var (v : Variable)
  | not (operand : Expr)
  | neg (operand : Expr)
  | binary (op : BinaryOp) (left right : Expr)
  | coalesce (left right : Expr)
  | call (function : FunctionName) (arguments : List Expr)

instance : Inhabited Expr := ⟨.literal .null⟩

def Expr.isVar : Expr → Bool
  | .var _ => true
  | _ => false

/-! ## Operators -/

namespace BinaryOp

/--
How far out in an expression an operator binds: products bind closest, and a
level holds all operators of one strength.
-/
def level : BinaryOp → Nat
  | .mul | .div | .rem => 1
  | .add | .sub => 2
  | .eq | .ne | .strictEq | .strictNe | .lt | .le | .gt | .ge => 3
  | .and => 4
  | .or => 5

def outermost : Nat := 5

/-- Comparisons do not chain; the operators of all other levels associate to the left. -/
def chains (level : Nat) : Bool := level != 3

def ofSymbol? : Symbol → Option BinaryOp
  | .or => some .or
  | .and => some .and
  | .eq => some .eq
  | .ne => some .ne
  | .strictEq => some .strictEq
  | .strictNe => some .strictNe
  | .lt => some .lt
  | .le => some .le
  | .gt => some .gt
  | .ge => some .ge
  | .plus => some .add
  | .minus => some .sub
  | .star => some .mul
  | .slash => some .div
  | .percent => some .rem
  | .coalesce | .not => none

end BinaryOp

def foldCase (word : Text) : Text := word.map Char.toLower

/-- The operator that a token stands for: `or` and `and` may be written as words. -/
def Token.binaryOp? : Token → Option BinaryOp
  | .symbol s => BinaryOp.ofSymbol? s
  | .word name =>
    if foldCase name = ['o', 'r'] then some .or
    else if foldCase name = ['a', 'n', 'd'] then some .and
    else none
  | _ => none

def Token.opAt? (level : Nat) (t : Token) : Option BinaryOp :=
  t.binaryOp?.filter (·.level = level)

def constant? (word : Text) : Option Value :=
  if foldCase word = ['t', 'r', 'u', 'e'] then some (.bool true)
  else if foldCase word = ['f', 'a', 'l', 's', 'e'] then some (.bool false)
  else if foldCase word = ['n', 'u', 'l', 'l'] then some .null
  else none

/-! ## Functions -/

namespace FunctionName

def all : List FunctionName :=
  [.date, .count, .isset, .empty, .upper, .lower, .ucfirst, .trim, .implode]

def spelling : FunctionName → Text
  | .date => ['d', 'a', 't', 'e']
  | .count => ['c', 'o', 'u', 'n', 't']
  | .isset => ['i', 's', 's', 'e', 't']
  | .empty => ['e', 'm', 'p', 't', 'y']
  | .upper => ['s', 't', 'r', 't', 'o', 'u', 'p', 'p', 'e', 'r']
  | .lower => ['s', 't', 'r', 't', 'o', 'l', 'o', 'w', 'e', 'r']
  | .ucfirst => ['u', 'c', 'f', 'i', 'r', 's', 't']
  | .trim => ['t', 'r', 'i', 'm']
  | .implode => ['i', 'm', 'p', 'l', 'o', 'd', 'e']

def ofWord? (word : Text) : Option FunctionName := all.find? fun f => f.spelling == word

@[simp] theorem ofWord?_spelling (f : FunctionName) : ofWord? f.spelling = some f := by
  cases f <;> decide

def least : FunctionName → Nat
  | .implode => 2
  | _ => 1

/-- Only `isset` takes more arguments than it must. -/
def accepts (f : FunctionName) (count : Nat) : Bool :=
  match f with
  | .isset => decide (1 ≤ count)
  | f => count == f.least

end FunctionName

/-! ## Errors -/

inductive ExprError where
  | lexical (fault : LexFault) (offset : Nat)
  | empty
  | unexpected (token : Token)
  | unexpectedEnd
  | missingClose
  | unknownFunction (name : Text)
  | missingOpen (name : Text)
  | missingComma (name : Text)
  | argumentCount (name : Text) (least given : Nat)
  | issetArgument
  | missingVariable
  | afterVariable (rest : Text)
  | missingSource
  | missingAs
  | inLoopHead (rest : Text)
  | missingBinding

def LexFault.message : LexFault → Text
  | .invalidVariable => "invalid variable".toList
  | .unterminatedString => "unterminated string".toList
  | .unexpectedCharacter c => "unexpected character ".toList ++ Text.ticked [c]

def ExprError.message : ExprError → Text
  | .lexical fault offset => fault.message ++ " at offset ".toList ++ Text.ofNat offset
  | .empty => "empty expression".toList
  | .unexpected token => "unexpected ".toList ++ token.describe
  | .unexpectedEnd => "unexpected end of expression".toList
  | .missingClose => "expected `)`".toList
  | .unknownFunction name => "unknown function ".toList ++ Text.ticked name
  | .missingOpen name => "expected `(` after ".toList ++ Text.ticked name
  | .missingComma name => "expected `,` or `)` in ".toList ++ Text.ticked name
  | .argumentCount name least given =>
    Text.ticked name ++ " takes ".toList ++ Text.ofNat least ++ " argument(s), got ".toList ++
      Text.ofNat given
  | .issetArgument => "`isset` only accepts variables".toList
  | .missingVariable => "expected `$name`".toList
  | .afterVariable rest => "unexpected `".toList ++ rest ++ "` after variable".toList
  | .missingSource => "expected `$name` to iterate".toList
  | .missingAs => "expected `as`".toList
  | .inLoopHead rest => "unexpected `".toList ++ rest ++ "` in loop head".toList
  | .missingBinding => "expected a plain `$name` binding".toList

end Stencil
