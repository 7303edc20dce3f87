import Stencil.Expr.Grammar
import Stencil.Proofs.Expr.Reads

/-!
# The parser is sound

Whatever a part of the parser reads is derived by the grammar, and it takes the
tokens of the derivation and leaves all others.
-/

namespace Stencil

theorem FunctionName.spelling_of_ofWord? {word : Text} {f : FunctionName}
    (h : ofWord? word = some f) : f.spelling = word := by
  simpa using List.find?_some h

namespace Expr

theorem length_lt_of_eq_append {tokens before after : List Token} {token : Token}
    (h : tokens = before ++ token :: after) : after.length < tokens.length := by
  rw [h, List.length_append, List.length_cons]
  omega

mutual

theorem isExpr_of_reads (tokens : List Token) {rest : List Token} {e : Expr}
    (h : Reads (coalesced tokens) e rest) :
    ∃ before, tokens = before ++ rest ∧ IsExpr before e := by
  obtain ⟨left, mid, hleft, hmid⟩ := reads_coalesced.1 h
  obtain ⟨before, htokens, hbefore⟩ := isLevel_of_reads BinaryOp.outermost tokens hleft
  rcases hmid with ⟨after, right, rfl, hright, rfl⟩ | ⟨-, rfl, rfl⟩
  · have hlength := length_lt_of_eq_append htokens
    obtain ⟨more, rfl, hmore⟩ := isExpr_of_reads after hright
    exact ⟨before ++ .symbol .coalesce :: more, by simp [htokens], .coalesce hbefore hmore⟩
  · exact ⟨before, htokens, .single hbefore⟩
termination_by (tokens.length, BinaryOp.outermost + 2)

theorem isLevel_of_reads (level : Nat) (tokens : List Token) {rest : List Token} {e : Expr}
    (h : Reads (operation level tokens) e rest) :
    ∃ before, tokens = before ++ rest ∧ IsLevel level before e := by
  cases level with
  | zero =>
      obtain ⟨before, htokens, hbefore⟩ := isSigned_of_reads tokens (reads_operation_zero.1 h)
      exact ⟨before, htokens, .signed hbefore⟩
  | succ inner =>
      obtain ⟨left, mid, hleft, hjoined⟩ := reads_operation_succ.1 h
      obtain ⟨before, htokens, hbefore⟩ := isLevel_of_reads inner tokens hleft
      have hlength : mid.length < tokens.length := hleft.1
      obtain ⟨more, rfl, hmore⟩ :=
        isLevel_of_reads_joined inner mid hjoined (.inner hbefore) fun _ => hbefore
      exact ⟨before ++ more, by simp [htokens], hmore⟩
termination_by (tokens.length, level + 1)

theorem isLevel_of_reads_joined (inner : Nat) (tokens : List Token) {rest before : List Token}
    {left e : Expr} (h : Reads (joined inner left tokens) e rest)
    (hleft : IsLevel (inner + 1) before left)
    (hfirst : BinaryOp.chains (inner + 1) = false → IsLevel inner before left) :
    ∃ more, tokens = more ++ rest ∧ IsLevel (inner + 1) (before ++ more) e := by
  cases tokens with
  | nil =>
      obtain ⟨rfl, rfl⟩ := reads_joined_nil.1 h
      exact ⟨[], rfl, by simpa using hleft⟩
  | cons token after =>
      cases hop : token.opAt? (inner + 1) with
      | none =>
          obtain ⟨rfl, rfl⟩ := (reads_joined_of_none hop).1 h
          exact ⟨[], rfl, by simpa using hleft⟩
      | some op =>
          obtain ⟨right, mid, hright, hmid⟩ := (reads_joined_of_some hop).1 h
          obtain ⟨operand, hafter, hoperand⟩ := isLevel_of_reads inner after hright
          by_cases hc : BinaryOp.chains (inner + 1) = true
          · rw [if_pos hc] at hmid
            have hlength : mid.length < after.length := hright.1
            have hnext := IsLevel.chained hc hleft hop hoperand
            obtain ⟨more, rfl, hmore⟩ := isLevel_of_reads_joined inner mid hmid hnext
              fun hn => absurd hc (by simp [hn])
            exact ⟨token :: operand ++ more, by simp [hafter], by simpa using hmore⟩
          · rw [if_neg hc] at hmid
            obtain ⟨rfl, rfl⟩ := hmid
            rw [Bool.not_eq_true] at hc
            exact ⟨token :: operand, by simp [hafter], .unchained hc (hfirst hc) hop hoperand⟩
termination_by (tokens.length, 0)

theorem isSigned_of_reads (tokens : List Token) {rest : List Token} {e : Expr}
    (h : Reads (unary tokens) e rest) :
    ∃ before, tokens = before ++ rest ∧ IsSigned before e := by
  cases tokens with
  | nil => exact (not_reads_unary_nil h).elim
  | cons token after =>
      by_cases hnot : token = .symbol .not
      · subst hnot
        obtain ⟨inner, hinner, rfl⟩ := reads_unary_not.1 h
        obtain ⟨before, hafter, hbefore⟩ := isSigned_of_reads after hinner
        exact ⟨.symbol .not :: before, by simp [hafter], .not hbefore⟩
      · by_cases hminus : token = .symbol .minus
        · subst hminus
          obtain ⟨inner, hinner, rfl⟩ := reads_unary_minus.1 h
          obtain ⟨before, hafter, hbefore⟩ := isSigned_of_reads after hinner
          exact ⟨.symbol .minus :: before, by simp [hafter], .neg hbefore⟩
        · obtain ⟨before, hafter, hbefore⟩ :=
            isOperand_of_reads token after ((reads_unary_operand hnot hminus).1 h)
          exact ⟨token :: before, by simp [hafter], .operand hbefore⟩
termination_by (tokens.length, 0)

theorem isOperand_of_reads (token : Token) (tokens : List Token) {rest : List Token} {e : Expr}
    (h : Reads (operand token tokens) e rest) :
    ∃ before, tokens = before ++ rest ∧ IsOperand (token :: before) e := by
  cases token with
  | var v =>
      rw [operand] at h
      obtain ⟨rfl, rfl⟩ := reads_ok.1 h
      exact ⟨[], rfl, .var v⟩
  | string t =>
      rw [operand] at h
      obtain ⟨rfl, rfl⟩ := reads_ok.1 h
      exact ⟨[], rfl, .string t⟩
  | number value =>
      rw [operand] at h
      obtain ⟨rfl, rfl⟩ := reads_ok.1 h
      exact ⟨[], rfl, .number value⟩
  | leftParen =>
      obtain ⟨before, htokens, hbefore⟩ := isExpr_of_reads tokens (reads_group.1 h)
      exact ⟨before ++ [Token.rightParen], by simp [htokens], .group hbefore⟩
  | word name =>
      cases hconstant : constant? name with
      | some value =>
          obtain ⟨rfl, rfl⟩ := (reads_word_constant hconstant).1 h
          exact ⟨[], rfl, .constant hconstant⟩
      | none =>
          cases hf : FunctionName.ofWord? name with
          | none => exact (not_reads_word hconstant hf h).elim
          | some f =>
              obtain ⟨after, args, rfl, hargs, haccepts, hisset, rfl⟩ :=
                reads_callOf.1 ((reads_word_call hconstant hf).1 h)
              obtain ⟨before, hafter, hbefore⟩ := areArguments_of_readsList name after hargs
              obtain rfl := FunctionName.spelling_of_ofWord? hf
              exact ⟨.leftParen :: before ++ [Token.rightParen], by simp [hafter],
                .call hbefore haccepts hisset⟩
  | symbol s =>
      rw [operand] at h
      · exact (not_reads_error h).elim
      all_goals simp
  | rightParen =>
      rw [operand] at h
      · exact (not_reads_error h).elim
      all_goals simp
  | comma =>
      rw [operand] at h
      · exact (not_reads_error h).elim
      all_goals simp
termination_by (tokens.length, BinaryOp.outermost + 5)

theorem areArguments_of_readsList (name : Text) (tokens : List Token) {rest : List Token}
    {args : List Expr} (h : Reads (argumentList name tokens) args rest) :
    ∃ before, tokens = before ++ .rightParen :: rest ∧ AreArguments before args := by
  by_cases hclose : ∃ after, tokens = .rightParen :: after
  · obtain ⟨after, rfl⟩ := hclose
    obtain ⟨rfl, rfl⟩ := reads_argumentList_close.1 h
    exact ⟨[], rfl, .none⟩
  · have hne : ∀ after, tokens ≠ .rightParen :: after := fun after he => hclose ⟨after, he⟩
    obtain ⟨before, first, more, htokens, rfl, hbefore⟩ :=
      areArguments_of_reads name tokens ((reads_argumentList_of_ne hne).1 h)
    exact ⟨before, htokens, hbefore⟩
termination_by (tokens.length, BinaryOp.outermost + 4)

theorem areArguments_of_reads (name : Text) (tokens : List Token) {rest : List Token}
    {args : List Expr} (h : Reads (arguments name tokens) args rest) :
    ∃ before first more, tokens = before ++ .rightParen :: rest ∧ args = first :: more ∧
      AreArguments before args := by
  obtain ⟨e, mid, he, hmid⟩ := reads_arguments.1 h
  obtain ⟨before, htokens, hbefore⟩ := isExpr_of_reads tokens he
  rcases hmid with ⟨after, more, rfl, hmore, rfl⟩ | ⟨rfl, rfl⟩
  · have hlength := length_lt_of_eq_append htokens
    obtain ⟨inner, next, more, hafter, rfl, hinner⟩ := areArguments_of_reads name after hmore
    exact ⟨before ++ .comma :: inner, e, next :: more, by simp [htokens, hafter], rfl,
      .more hbefore hinner⟩
  · exact ⟨before, e, [], htokens, rfl, .last hbefore⟩
termination_by (tokens.length, BinaryOp.outermost + 3)

end

theorem isExpr_of_ofTokens {tokens : List Token} {e : Expr} (h : ofTokens tokens = .ok e) :
    IsExpr tokens e := by
  obtain ⟨before, htokens, hbefore⟩ := isExpr_of_reads tokens (ofTokens_eq_ok_iff.1 h)
  rw [List.append_nil] at htokens
  rwa [htokens]

end Expr

end Stencil
