import Stencil.Expr.Basic

/-!
# Parsing expressions

A parser for the token list of a whole expression.  Outermost is `??`, which
associates to the right; then come the levels of the binary operators, then the
signs `!` and `-`, and last the operands.  Each part of the parser hands back
the tokens that it leaves, which are fewer than it was given.
-/

namespace Stencil.Expr

/-- What a part at the start of `tokens` leaves. -/
abbrev Rest (tokens : List Token) := { rest : List Token // rest.length < tokens.length }

/-- What a part leaves that may take no token. -/
abbrev Tail (tokens : List Token) := { rest : List Token // rest.length ≤ tokens.length }

mutual

def coalesced (tokens : List Token) : Except ExprError (Expr × Rest tokens) := do
  let (left, ⟨rest, h⟩) ← operation BinaryOp.outermost tokens
  match rest, h with
  | .symbol .coalesce :: after, h =>
    have h : after.length < tokens.length := Nat.lt_of_succ_lt h
    let (right, ⟨rest, h'⟩) ← coalesced after
    return (.coalesce left right, ⟨rest, Nat.lt_trans h' h⟩)
  | rest, h => return (left, ⟨rest, h⟩)
termination_by (tokens.length, BinaryOp.outermost + 2)

def operation : (level : Nat) → (tokens : List Token) → Except ExprError (Expr × Rest tokens)
  | 0, tokens => unary tokens
  | inner + 1, tokens => do
    let (left, ⟨rest, h⟩) ← operation inner tokens
    let (e, ⟨rest, h'⟩) ← joined inner left rest
    return (e, ⟨rest, Nat.lt_of_le_of_lt h' h⟩)
termination_by level tokens => (tokens.length, level + 1)

/-- What may follow the first operand of level `inner + 1`. -/
def joined (inner : Nat) (left : Expr) :
    (tokens : List Token) → Except ExprError (Expr × Tail tokens)
  | [] => return (left, ⟨[], Nat.le_refl _⟩)
  | token :: after =>
    match token.opAt? (inner + 1) with
    | none => return (left, ⟨token :: after, Nat.le_refl _⟩)
    | some op => do
      let (right, ⟨rest, h⟩) ← operation inner after
      if BinaryOp.chains (inner + 1) then
        let (e, ⟨rest, h'⟩) ← joined inner (.binary op left right) rest
        return (e, ⟨rest, Nat.le_succ_of_le (Nat.le_trans h' (Nat.le_of_lt h))⟩)
      else return (.binary op left right, ⟨rest, Nat.le_succ_of_le (Nat.le_of_lt h)⟩)
termination_by tokens => (tokens.length, 0)

def unary : (tokens : List Token) → Except ExprError (Expr × Rest tokens)
  | [] => throw .unexpectedEnd
  | .symbol .not :: after => do
    let (e, ⟨rest, h⟩) ← unary after
    return (.not e, ⟨rest, Nat.lt_succ_of_lt h⟩)
  | .symbol .minus :: after => do
    let (e, ⟨rest, h⟩) ← unary after
    return (.neg e, ⟨rest, Nat.lt_succ_of_lt h⟩)
  | token :: after => do
    let (e, ⟨rest, h⟩) ← operand token after
    return (e, ⟨rest, Nat.lt_succ_of_le h⟩)
termination_by tokens => (tokens.length, 0)

def operand : Token → (tokens : List Token) → Except ExprError (Expr × Tail tokens)
  | .var v, tokens => return (.var v, ⟨tokens, Nat.le_refl _⟩)
  | .string t, tokens => return (.literal (.string t), ⟨tokens, Nat.le_refl _⟩)
  | .number value, tokens => return (.literal value, ⟨tokens, Nat.le_refl _⟩)
  | .leftParen, tokens => do
    let (e, ⟨rest, h⟩) ← coalesced tokens
    match rest, h with
    | .rightParen :: rest, h => return (e, ⟨rest, Nat.le_of_lt (Nat.lt_of_succ_lt h)⟩)
    | _, _ => throw .missingClose
  | .word name, tokens =>
    match constant? name with
    | some value => return (.literal value, ⟨tokens, Nat.le_refl _⟩)
    | none =>
      match FunctionName.ofWord? name with
      | none => throw (.unknownFunction name)
      | some f => callOf f name tokens
  | token, _ => throw (.unexpected token)
termination_by _ tokens => (tokens.length, BinaryOp.outermost + 5)

def callOf (f : FunctionName) (name : Text) :
    (tokens : List Token) → Except ExprError (Expr × Tail tokens)
  | .leftParen :: after => do
    let (args, ⟨rest, h⟩) ← argumentList name after
    if ¬ f.accepts args.length then throw (.argumentCount name f.least args.length)
    else if f = .isset ∧ ¬ args.all isVar then throw .issetArgument
    else return (.call f args, ⟨rest, Nat.le_of_lt (Nat.lt_succ_of_lt h)⟩)
  | _ => throw (.missingOpen name)
termination_by tokens => (tokens.length, 0)

def argumentList (name : Text) :
    (tokens : List Token) → Except ExprError (List Expr × Rest tokens)
  | .rightParen :: rest => return ([], ⟨rest, by simp⟩)
  | tokens => arguments name tokens
termination_by tokens => (tokens.length, BinaryOp.outermost + 4)

def arguments (name : Text) (tokens : List Token) :
    Except ExprError (List Expr × Rest tokens) := do
  let (e, ⟨rest, h⟩) ← coalesced tokens
  match rest, h with
  | .comma :: after, h =>
    have h : after.length < tokens.length := Nat.lt_of_succ_lt h
    let (more, ⟨rest, h'⟩) ← arguments name after
    return (e :: more, ⟨rest, Nat.lt_trans h' h⟩)
  | .rightParen :: rest, h => return ([e], ⟨rest, Nat.lt_of_succ_lt h⟩)
  | _, _ => throw (.missingComma name)
termination_by (tokens.length, BinaryOp.outermost + 3)

end

def ofTokens (tokens : List Token) : Except ExprError Expr := do
  if tokens.isEmpty then throw .empty
  let (e, ⟨rest, _⟩) ← coalesced tokens
  match rest with
  | [] => return e
  | token :: _ => throw (.unexpected token)

def parse (src : Text) : Except ExprError Expr :=
  match Token.lex src with
  | .error ⟨fault, rest⟩ =>
    .error (.lexical fault (Text.utf8Length src - Text.utf8Length rest))
  | .ok tokens => ofTokens tokens

end Stencil.Expr
