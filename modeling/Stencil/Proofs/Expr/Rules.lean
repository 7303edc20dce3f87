import Mathlib.Data.Set.Subsingleton
import Stencil.Expr.Rules
import Stencil.Proofs.Expr.Transfer

/-!
# The parser follows the rules

The rules of expressions derive what the grammar by levels derives: each kind of
phrase is one level.  So the parser accepts exactly the lists that the rules
derive, with the tree that they give, and no list has two trees.
-/

namespace Stencil.Expr

namespace Rule

theorem isWritten_iff {token : Token} {op : BinaryOp} :
    IsWritten op token ↔ token.binaryOp? = some op := by
  constructor
  · intro h
    cases h with
    | orWord h => simp [Token.binaryOp?, h]
    | andWord h => simp [Token.binaryOp?, h]
    | _ => rfl
  · intro h
    cases token with
    | symbol s => cases s <;> cases h <;> constructor
    | word name =>
        unfold Token.binaryOp? at h
        dsimp only at h
        split at h
        · next hor =>
          cases h
          exact .orWord hor
        · split at h
          · next hand =>
            cases h
            exact .andWord hand
          · cases h
    | _ => cases h

theorem opAt?_eq_some_iff {level : Nat} {token : Token} {op : BinaryOp} :
    token.opAt? level = some op ↔ IsWritten op token ∧ op.level = level := by
  rw [Token.opAt?, Option.filter_eq_some_iff, isWritten_iff, decide_eq_true_iff]

theorem mem_comparisons_iff {op : BinaryOp} : op ∈ comparisons ↔ op.level = 3 := by
  cases op <;> decide

theorem mem_sum_iff {op : BinaryOp} : op ∈ [BinaryOp.add, .sub] ↔ op.level = 2 := by
  cases op <;> decide

theorem mem_product_iff {op : BinaryOp} : op ∈ [BinaryOp.mul, .div, .rem] ↔ op.level = 1 := by
  cases op <;> decide

theorem constant?_eq_some {word : Text} {value : Value} (h : constant? word = some value) :
    Operand [.word word] (.literal value) := by
  unfold constant? at h
  split at h
  · next hword =>
    cases h
    exact .yes hword
  · split at h
    · next hword =>
      cases h
      exact .no hword
    · split at h
      · next hword =>
        cases h
        exact .null hword
      · cases h

theorem exists_vars_of_all_isVar {args : List Expr} (h : args.all isVar = true) :
    ∃ vars : List Variable, args = vars.map .var := by
  induction args with
  | nil => exact ⟨[], rfl⟩
  | cons arg args ih =>
      rw [List.all_cons, Bool.and_eq_true] at h
      obtain ⟨vars, rfl⟩ := ih h.2
      cases arg with
      | var v => exact ⟨v :: vars, rfl⟩
      | _ => cases h.1

theorem accepts_iff_of_ne_isset {f : FunctionName} (hf : f ≠ .isset) {n : Nat} :
    f.accepts n = true ↔ n = if f = .implode then 2 else 1 := by
  cases f with
  | isset => exact absurd rfl hf
  | _ => simp [FunctionName.accepts, FunctionName.least]

theorem Arguments.operand {f : FunctionName} {tokens : List Token} {args : List Expr}
    (h : Arguments tokens args) (hn : f.accepts args.length = true)
    (hv : f = .isset → args.all isVar = true) :
    Operand (.word f.spelling :: .leftParen :: tokens ++ [.rightParen]) (.call f args) := by
  by_cases hf : f = .isset
  · subst hf
    obtain ⟨vars, rfl⟩ := exists_vars_of_all_isVar (hv rfl)
    cases vars with
    | nil => cases hn
    | cons first more => exact .isset h
  · exact .call hf h ((accepts_iff_of_ne_isset hf).1 hn)

/-! ## What the levels derive -/

def Phrase : Nat → List Token → Expr → Prop
  | 0 => Signed
  | 1 => Product
  | 2 => Sum
  | 3 => Comparison
  | 4 => Conjunction
  | _ + 5 => Disjunction

theorem Phrase.inner {level : Nat} {tokens : List Token} {e : Expr} (h : Phrase level tokens e) :
    Phrase (level + 1) tokens e := by
  match level, h with
  | 0, h => exact Product.single h
  | 1, h => exact Sum.single h
  | 2, h => exact Comparison.single h
  | 3, h => exact Conjunction.single h
  | 4, h => exact Disjunction.single h
  | _ + 5, h => exact h

theorem Phrase.chained {level : Nat} {before after : List Token} {token : Token} {op : BinaryOp}
    {left right : Expr} (hc : BinaryOp.chains (level + 1) = true)
    (hl : Phrase (level + 1) before left) (ho : token.opAt? (level + 1) = some op)
    (hr : Phrase level after right) :
    Phrase (level + 1) (before ++ token :: after) (.binary op left right) := by
  obtain ⟨hw, hlevel⟩ := opAt?_eq_some_iff.1 ho
  cases op with
  | or =>
      obtain rfl : level = 4 := (Nat.succ.inj hlevel).symm
      exact Disjunction.join hl hw hr
  | and =>
      obtain rfl : level = 3 := (Nat.succ.inj hlevel).symm
      exact Conjunction.join hl hw hr
  | add | sub =>
      obtain rfl : level = 1 := (Nat.succ.inj hlevel).symm
      exact Sum.join hl (by simp) hw hr
  | mul | div | rem =>
      obtain rfl : level = 0 := (Nat.succ.inj hlevel).symm
      exact Product.join hl (by simp) hw hr
  | _ =>
      obtain rfl : level = 2 := (Nat.succ.inj hlevel).symm
      cases hc

theorem Phrase.unchained {level : Nat} {before after : List Token} {token : Token} {op : BinaryOp}
    {left right : Expr} (hc : BinaryOp.chains (level + 1) = false) (hl : Phrase level before left)
    (ho : token.opAt? (level + 1) = some op) (hr : Phrase level after right) :
    Phrase (level + 1) (before ++ token :: after) (.binary op left right) := by
  obtain rfl : level = 2 := by simpa [BinaryOp.chains] using hc
  obtain ⟨hw, hlevel⟩ := opAt?_eq_some_iff.1 ho
  exact Comparison.compare hl (mem_comparisons_iff.2 hlevel) hw hr

end Rule

mutual

theorem IsExpr.rule {tokens : List Token} {e : Expr} :
    IsExpr tokens e → Rule.Expression tokens e
  | .single h => .single h.rule
  | .coalesce hl hr => .coalesce hl.rule hr.rule

theorem IsLevel.rule {level : Nat} {tokens : List Token} {e : Expr} :
    IsLevel level tokens e → Rule.Phrase level tokens e
  | .signed h => h.rule
  | .inner h => h.rule.inner
  | .chained hc hl ho hr => hl.rule.chained hc ho hr.rule
  | .unchained hc hl ho hr => hl.rule.unchained hc ho hr.rule

theorem IsSigned.rule {tokens : List Token} {e : Expr} : IsSigned tokens e → Rule.Signed tokens e
  | .not h => .not h.rule
  | .neg h => .neg h.rule
  | .operand h => .operand h.rule

theorem IsOperand.rule {tokens : List Token} {e : Expr} :
    IsOperand tokens e → Rule.Operand tokens e
  | .var v => .var v
  | .string t => .string t
  | .number value => .number value
  | .constant h => Rule.constant?_eq_some h
  | .group h => .group h.rule
  | .call h hn hv => h.rule.operand hn hv

theorem AreArguments.rule {tokens : List Token} {args : List Expr} :
    AreArguments tokens args → Rule.Arguments tokens args
  | .none => .none
  | .last h => .last h.rule
  | .more h hs => .more h.rule hs.rule

end

namespace Rule

/-! ## What the rules derive -/

mutual

theorem Expression.isExpr {tokens : List Token} {e : Expr} : Expression tokens e → IsExpr tokens e
  | .single h => .single h.isLevel
  | .coalesce hl hr => .coalesce hl.isLevel hr.isExpr

theorem Disjunction.isLevel {tokens : List Token} {e : Expr} :
    Disjunction tokens e → IsLevel 5 tokens e
  | .single h => .inner h.isLevel
  | .join hl ho hr => .chained rfl hl.isLevel (opAt?_eq_some_iff.2 ⟨ho, rfl⟩) hr.isLevel

theorem Conjunction.isLevel {tokens : List Token} {e : Expr} :
    Conjunction tokens e → IsLevel 4 tokens e
  | .single h => .inner h.isLevel
  | .join hl ho hr => .chained rfl hl.isLevel (opAt?_eq_some_iff.2 ⟨ho, rfl⟩) hr.isLevel

theorem Comparison.isLevel {tokens : List Token} {e : Expr} :
    Comparison tokens e → IsLevel 3 tokens e
  | .single h => .inner h.isLevel
  | .compare hl hop ho hr =>
      .unchained rfl hl.isLevel (opAt?_eq_some_iff.2 ⟨ho, mem_comparisons_iff.1 hop⟩) hr.isLevel

theorem Sum.isLevel {tokens : List Token} {e : Expr} : Sum tokens e → IsLevel 2 tokens e
  | .single h => .inner h.isLevel
  | .join hl hop ho hr =>
      .chained rfl hl.isLevel (opAt?_eq_some_iff.2 ⟨ho, mem_sum_iff.1 hop⟩) hr.isLevel

theorem Product.isLevel {tokens : List Token} {e : Expr} : Product tokens e → IsLevel 1 tokens e
  | .single h => .inner (.signed h.isSigned)
  | .join hl hop ho hr =>
      .chained rfl hl.isLevel (opAt?_eq_some_iff.2 ⟨ho, mem_product_iff.1 hop⟩)
        (.signed hr.isSigned)

theorem Signed.isSigned {tokens : List Token} {e : Expr} : Signed tokens e → IsSigned tokens e
  | .not h => .not h.isSigned
  | .neg h => .neg h.isSigned
  | .operand h => .operand h.isOperand

theorem Operand.isOperand {tokens : List Token} {e : Expr} :
    Operand tokens e → IsOperand tokens e
  | .var v => .var v
  | .string t => .string t
  | .number value => .number value
  | .yes h => .constant (by simp [constant?, h])
  | .no h => .constant (by simp [constant?, h])
  | .null h => .constant (by simp [constant?, h])
  | .group h => .group h.isExpr
  | .call hf h hn =>
      .call h.areArguments ((accepts_iff_of_ne_isset hf).2 hn) fun hisset => absurd hisset hf
  | .isset h => .call h.areArguments (by simp [FunctionName.accepts]) fun _ => by simp [isVar]

theorem Arguments.areArguments {tokens : List Token} {args : List Expr} :
    Arguments tokens args → AreArguments tokens args
  | .none => .none
  | .last h => .last h.isExpr
  | .more h hs => .more h.isExpr hs.areArguments

end

theorem expression_iff_isExpr {tokens : List Token} {e : Expr} :
    Expression tokens e ↔ IsExpr tokens e :=
  ⟨Expression.isExpr, IsExpr.rule⟩

end Rule

theorem ofTokens_iff_expression {tokens : List Token} {e : Expr} :
    ofTokens tokens = .ok e ↔ Rule.Expression tokens e := by
  rw [Rule.expression_iff_isExpr]
  exact ⟨isExpr_of_ofTokens, ofTokens_of_isExpr⟩

/-- The parser accepts a list of tokens just if the rules derive it, with the tree that they give.
They give no list two trees, and a text is an expression just if its tokens are one. -/
theorem parses_by_rules :
    (∀ tokens e, ofTokens tokens = .ok e ↔ Rule.Expression tokens e) ∧
      (∀ tokens, {e | Rule.Expression tokens e}.Subsingleton) ∧
      ∀ src e, parse src = .ok e ↔
        ∃ tokens, Token.lex src = .ok tokens ∧ Rule.Expression tokens e := by
  refine ⟨fun tokens e => ofTokens_iff_expression, fun tokens e he other hother => ?_,
    fun src e => ?_⟩
  · have hparsed := ofTokens_iff_expression.2 he
    rw [ofTokens_iff_expression.2 hother] at hparsed
    exact (Except.ok.inj hparsed).symm
  · simp only [parse_eq_ok_iff, Rule.expression_iff_isExpr]

end Stencil.Expr
