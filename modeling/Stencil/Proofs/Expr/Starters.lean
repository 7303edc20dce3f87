import Stencil.Expr.Grammar

/-!
# What an expression starts with

The first token of an expression is an operand, an opening parenthesis or a
sign, and the same holds of the token behind each `??` in it.
-/

namespace Stencil

def Token.starts : Token → Bool
  | .var _ | .word _ | .string _ | .number _ | .leftParen => true
  | .symbol s => s == .not || s == .minus
  | .rightParen | .comma => false

namespace Expr

def IsStarted (tokens : List Token) : Prop := ∃ token rest, tokens = token :: rest ∧ token.starts

/-- Every `??` has something behind it that an expression may start with. -/
def IsSpaced : List Token → Prop
  | [] => True
  | token :: rest => (token = .symbol .coalesce → IsStarted rest) ∧ IsSpaced rest

theorem IsStarted.append {tokens : List Token} (h : IsStarted tokens) (more : List Token) :
    IsStarted (tokens ++ more) := by
  obtain ⟨token, rest, rfl, hs⟩ := h
  exact ⟨token, rest ++ more, rfl, hs⟩

theorem IsSpaced.append {tokens more : List Token} (h : IsSpaced tokens) (hm : IsSpaced more) :
    IsSpaced (tokens ++ more) := by
  induction tokens with
  | nil => exact hm
  | cons token rest ih =>
      exact ⟨fun ht => (h.1 ht).append more, ih h.2⟩

theorem IsSpaced.cons {token : Token} {rest : List Token} (h : IsSpaced rest)
    (ht : token ≠ .symbol .coalesce) : IsSpaced (token :: rest) :=
  ⟨fun he => absurd he ht, h⟩

theorem ne_coalesce_of_opAt? {token : Token} {level : Nat} {op : BinaryOp}
    (h : token.opAt? level = some op) : token ≠ .symbol .coalesce := by
  rintro rfl
  cases h

theorem isSpaced_singleton (token : Token) (h : token ≠ .symbol .coalesce) : IsSpaced [token] :=
  ⟨fun he => absurd he h, trivial⟩

mutual

theorem IsExpr.starts {tokens : List Token} {e : Expr} :
    IsExpr tokens e → IsStarted tokens ∧ IsSpaced tokens
  | .single h => h.starts
  | .coalesce hl hr => by
      have hleft := hl.starts
      have hright := hr.starts
      exact ⟨hleft.1.append _, hleft.2.append ⟨fun _ => hright.1, hright.2⟩⟩

theorem IsLevel.starts {level : Nat} {tokens : List Token} {e : Expr} :
    IsLevel level tokens e → IsStarted tokens ∧ IsSpaced tokens
  | .signed h => h.starts
  | .inner h => h.starts
  | .chained _ hl ho hr => by
      have hleft := hl.starts
      have hright := hr.starts.2.cons (ne_coalesce_of_opAt? ho)
      exact ⟨hleft.1.append _, hleft.2.append hright⟩
  | .unchained _ hl ho hr => by
      have hleft := hl.starts
      have hright := hr.starts.2.cons (ne_coalesce_of_opAt? ho)
      exact ⟨hleft.1.append _, hleft.2.append hright⟩

theorem IsSigned.starts {tokens : List Token} {e : Expr} :
    IsSigned tokens e → IsStarted tokens ∧ IsSpaced tokens
  | .not h => ⟨⟨_, _, rfl, rfl⟩, h.starts.2.cons (by simp)⟩
  | .neg h => ⟨⟨_, _, rfl, rfl⟩, h.starts.2.cons (by simp)⟩
  | .operand h => h.starts

theorem IsOperand.starts {tokens : List Token} {e : Expr} :
    IsOperand tokens e → IsStarted tokens ∧ IsSpaced tokens
  | .var _ => ⟨⟨_, _, rfl, rfl⟩, isSpaced_singleton _ (by simp)⟩
  | .string _ => ⟨⟨_, _, rfl, rfl⟩, isSpaced_singleton _ (by simp)⟩
  | .number _ => ⟨⟨_, _, rfl, rfl⟩, isSpaced_singleton _ (by simp)⟩
  | .constant _ => ⟨⟨_, _, rfl, rfl⟩, isSpaced_singleton _ (by simp)⟩
  | .group h => by
      have hinner := h.starts.2.append (isSpaced_singleton .rightParen (by simp))
      exact ⟨⟨_, _, rfl, rfl⟩, hinner.cons (by simp)⟩
  | .call h _ _ => by
      have hinner := h.spaced.append (isSpaced_singleton .rightParen (by simp))
      exact ⟨⟨_, _, rfl, rfl⟩, (hinner.cons (by simp)).cons (by simp)⟩

theorem AreArguments.spaced {tokens : List Token} {args : List Expr} :
    AreArguments tokens args → IsSpaced tokens
  | .none => trivial
  | .last h => h.starts.2
  | .more h hs => h.starts.2.append (hs.spaced.cons (by simp))

end

theorem AreArguments.starts {tokens : List Token} {first : Expr} {more : List Expr}
    (h : AreArguments tokens (first :: more)) : IsStarted tokens := by
  cases h with
  | last h => exact h.starts.1
  | more h _ => exact h.starts.1.append _

end Expr

end Stencil
