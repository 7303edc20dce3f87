import Stencil.Expr.Parser

/-!
# What the parts of the parser read

Each part of the parser is described by what it reads and what it leaves.  The
proofs that parts get shorter, which the results carry, play no role in that.
-/

namespace Stencil.Expr

/-- A part succeeds with a result and leaves some tokens. -/
def Reads {α : Type} {P : List Token → Prop} (part : Except ExprError (α × { rest // P rest }))
    (a : α) (rest : List Token) : Prop :=
  ∃ h : P rest, part = .ok (a, ⟨rest, h⟩)

theorem reads_ok {α : Type} {P : List Token → Prop} {a b : α} {rest left : List Token}
    {h : P left} : Reads (P := P) (.ok (b, ⟨left, h⟩)) a rest ↔ a = b ∧ rest = left := by
  constructor
  · rintro ⟨_, he⟩
    cases he
    exact ⟨rfl, rfl⟩
  · rintro ⟨rfl, rfl⟩
    exact ⟨h, rfl⟩

theorem reads_bind {α β : Type} {P Q : List Token → Prop}
    {part : Except ExprError (α × { rest // P rest })}
    {f : α × { rest // P rest } → Except ExprError (β × { rest // Q rest })} {b : β}
    {rest : List Token} :
    Reads (part >>= f) b rest ↔ ∃ a mid, ∃ h : P mid, part = .ok (a, ⟨mid, h⟩) ∧
      Reads (f (a, ⟨mid, h⟩)) b rest := by
  constructor
  · rintro ⟨h, he⟩
    cases hp : part with
    | error e =>
        rw [hp] at he
        cases he
    | ok result =>
        obtain ⟨a, mid, hmid⟩ := result
        rw [hp] at he
        exact ⟨a, mid, hmid, rfl, h, he⟩
  · rintro ⟨a, mid, hmid, rfl, h⟩
    exact h

theorem not_reads_error {α : Type} {P : List Token → Prop} {e : ExprError} {a : α}
    {rest : List Token} : ¬ Reads (P := P) (.error e) a rest := by
  rintro ⟨_, h⟩
  cases h

theorem reads_coalesced {tokens rest : List Token} {e : Expr} :
    Reads (coalesced tokens) e rest ↔ ∃ left mid,
      Reads (operation BinaryOp.outermost tokens) left mid ∧
        ((∃ after right, mid = .symbol .coalesce :: after ∧ Reads (coalesced after) right rest ∧
          e = .coalesce left right) ∨
        ((∀ after, mid ≠ .symbol .coalesce :: after) ∧ e = left ∧ rest = mid)) := by
  rw [coalesced, reads_bind]
  constructor
  · rintro ⟨left, mid, hmid, hop, h⟩
    refine ⟨left, mid, ⟨hmid, hop⟩, ?_⟩
    dsimp only at h
    split at h
    · next after h₀ =>
      obtain ⟨right, mid', hmid', hright, h⟩ := reads_bind.1 h
      obtain ⟨rfl, rfl⟩ := reads_ok.1 h
      exact Or.inl ⟨after, right, rfl, ⟨hmid', hright⟩, rfl⟩
    · next hne =>
      obtain ⟨rfl, rfl⟩ := reads_ok.1 h
      refine Or.inr ⟨?_, rfl, rfl⟩
      rintro after rfl
      exact hne after hmid rfl HEq.rfl
  · rintro ⟨left, mid, ⟨hmid, hop⟩, h⟩
    refine ⟨left, mid, hmid, hop, ?_⟩
    dsimp only
    rcases h with ⟨after, right, rfl, ⟨hright', hright⟩, rfl⟩ | ⟨hne, rfl, rfl⟩
    · exact reads_bind.2 ⟨right, rest, hright', hright, reads_ok.2 ⟨rfl, rfl⟩⟩
    · split
      · next after _ => exact absurd rfl (hne after)
      · exact reads_ok.2 ⟨rfl, rfl⟩

theorem reads_operation_zero {tokens rest : List Token} {e : Expr} :
    Reads (operation 0 tokens) e rest ↔ Reads (unary tokens) e rest := by
  rw [operation]

theorem reads_operation_succ {inner : Nat} {tokens rest : List Token} {e : Expr} :
    Reads (operation (inner + 1) tokens) e rest ↔ ∃ left mid,
      Reads (operation inner tokens) left mid ∧ Reads (joined inner left mid) e rest := by
  rw [operation, reads_bind]
  constructor
  · rintro ⟨left, mid, hmid, hop, h⟩
    dsimp only at h
    obtain ⟨e', mid', hmid', hjoined, h⟩ := reads_bind.1 h
    obtain ⟨rfl, rfl⟩ := reads_ok.1 h
    exact ⟨left, mid, ⟨hmid, hop⟩, hmid', hjoined⟩
  · rintro ⟨left, mid, ⟨hmid, hop⟩, hmid', hjoined⟩
    exact ⟨left, mid, hmid, hop, reads_bind.2 ⟨e, rest, hmid', hjoined, reads_ok.2 ⟨rfl, rfl⟩⟩⟩

theorem reads_joined_nil {inner : Nat} {left e : Expr} {rest : List Token} :
    Reads (joined inner left []) e rest ↔ e = left ∧ rest = [] := by
  rw [joined]
  exact reads_ok

theorem reads_joined_of_none {inner : Nat} {left e : Expr} {token : Token}
    {after rest : List Token} (h : token.opAt? (inner + 1) = none) :
    Reads (joined inner left (token :: after)) e rest ↔ e = left ∧ rest = token :: after := by
  rw [joined, h]
  exact reads_ok

theorem reads_joined_of_some {inner : Nat} {left e : Expr} {token : Token} {op : BinaryOp}
    {after rest : List Token} (h : token.opAt? (inner + 1) = some op) :
    Reads (joined inner left (token :: after)) e rest ↔ ∃ right mid,
      Reads (operation inner after) right mid ∧
        if BinaryOp.chains (inner + 1) then Reads (joined inner (.binary op left right) mid) e rest
        else e = .binary op left right ∧ rest = mid := by
  rw [joined, h]
  dsimp only
  rw [reads_bind]
  constructor
  · rintro ⟨right, mid, hmid, hop, h⟩
    refine ⟨right, mid, ⟨hmid, hop⟩, ?_⟩
    dsimp only at h
    by_cases hc : BinaryOp.chains (inner + 1) = true
    · rw [if_pos hc] at h ⊢
      obtain ⟨e', mid', hmid', hjoined, h⟩ := reads_bind.1 h
      obtain ⟨rfl, rfl⟩ := reads_ok.1 h
      exact ⟨hmid', hjoined⟩
    · rw [if_neg hc] at h ⊢
      exact reads_ok.1 h
  · rintro ⟨right, mid, ⟨hmid, hop⟩, h⟩
    refine ⟨right, mid, hmid, hop, ?_⟩
    dsimp only
    by_cases hc : BinaryOp.chains (inner + 1) = true
    · rw [if_pos hc] at h ⊢
      obtain ⟨hmid', hjoined⟩ := h
      exact reads_bind.2 ⟨e, rest, hmid', hjoined, reads_ok.2 ⟨rfl, rfl⟩⟩
    · rw [if_neg hc] at h ⊢
      exact reads_ok.2 h

theorem not_reads_unary_nil {e : Expr} {rest : List Token} : ¬ Reads (unary []) e rest := by
  rw [unary]
  exact not_reads_error

theorem reads_unary_not {after rest : List Token} {e : Expr} :
    Reads (unary (.symbol .not :: after)) e rest ↔ ∃ inner, Reads (unary after) inner rest ∧
      e = .not inner := by
  rw [unary, reads_bind]
  constructor
  · rintro ⟨inner, mid, hmid, hunary, h⟩
    obtain ⟨rfl, rfl⟩ := reads_ok.1 h
    exact ⟨inner, ⟨hmid, hunary⟩, rfl⟩
  · rintro ⟨inner, ⟨hrest, hunary⟩, rfl⟩
    exact ⟨inner, rest, hrest, hunary, reads_ok.2 ⟨rfl, rfl⟩⟩

theorem reads_unary_minus {after rest : List Token} {e : Expr} :
    Reads (unary (.symbol .minus :: after)) e rest ↔ ∃ inner, Reads (unary after) inner rest ∧
      e = .neg inner := by
  rw [unary, reads_bind]
  constructor
  · rintro ⟨inner, mid, hmid, hunary, h⟩
    obtain ⟨rfl, rfl⟩ := reads_ok.1 h
    exact ⟨inner, ⟨hmid, hunary⟩, rfl⟩
  · rintro ⟨inner, ⟨hrest, hunary⟩, rfl⟩
    exact ⟨inner, rest, hrest, hunary, reads_ok.2 ⟨rfl, rfl⟩⟩

theorem reads_unary_operand {token : Token} (hnot : token ≠ .symbol .not)
    (hminus : token ≠ .symbol .minus) {after rest : List Token} {e : Expr} :
    Reads (unary (token :: after)) e rest ↔ Reads (operand token after) e rest := by
  rw [unary, reads_bind]
  · constructor
    · rintro ⟨inner, mid, hmid, hoperand, h⟩
      obtain ⟨rfl, rfl⟩ := reads_ok.1 h
      exact ⟨hmid, hoperand⟩
    · rintro ⟨hrest, hoperand⟩
      exact ⟨e, rest, hrest, hoperand, reads_ok.2 ⟨rfl, rfl⟩⟩
  · exact hnot
  · exact hminus

theorem reads_group {tokens rest : List Token} {e : Expr} :
    Reads (operand .leftParen tokens) e rest ↔
      Reads (coalesced tokens) e (.rightParen :: rest) := by
  rw [operand, reads_bind]
  constructor
  · rintro ⟨inner, mid, hmid, hcoalesced, h⟩
    dsimp only at h
    split at h
    · next after h₀ =>
      obtain ⟨rfl, rfl⟩ := reads_ok.1 h
      exact ⟨h₀, hcoalesced⟩
    · exact (not_reads_error h).elim
  · rintro ⟨hmid, hcoalesced⟩
    exact ⟨e, _, hmid, hcoalesced, reads_ok.2 ⟨rfl, rfl⟩⟩

theorem reads_word_constant {name : Text} {value : Value} (h : constant? name = some value)
    {tokens rest : List Token} {e : Expr} :
    Reads (operand (.word name) tokens) e rest ↔ e = .literal value ∧ rest = tokens := by
  rw [operand, h]
  exact reads_ok

theorem reads_word_call {name : Text} {f : FunctionName} (h : constant? name = none)
    (hf : FunctionName.ofWord? name = some f) {tokens rest : List Token} {e : Expr} :
    Reads (operand (.word name) tokens) e rest ↔ Reads (callOf f name tokens) e rest := by
  rw [operand, h]
  dsimp only
  rw [hf]

theorem not_reads_word {name : Text} (h : constant? name = none)
    (hf : FunctionName.ofWord? name = none) {tokens rest : List Token} {e : Expr} :
    ¬ Reads (operand (.word name) tokens) e rest := by
  rw [operand, h]
  dsimp only
  rw [hf]
  exact not_reads_error

theorem reads_callOf {f : FunctionName} {name : Text} {tokens rest : List Token} {e : Expr} :
    Reads (callOf f name tokens) e rest ↔ ∃ after args, tokens = .leftParen :: after ∧
      Reads (argumentList name after) args rest ∧ f.accepts args.length = true ∧
      (f = .isset → args.all isVar = true) ∧ e = .call f args := by
  constructor
  · intro h
    unfold callOf at h
    split at h
    · next after =>
      obtain ⟨args, mid, hmid, hargs, h⟩ := reads_bind.1 h
      dsimp only at h
      split at h
      · exact (not_reads_error h).elim
      · next haccepts =>
        split at h
        · exact (not_reads_error h).elim
        · next hisset =>
          obtain ⟨rfl, rfl⟩ := reads_ok.1 h
          exact ⟨after, args, rfl, ⟨hmid, hargs⟩, by simpa using haccepts,
            fun hf => by simpa [hf] using hisset, rfl⟩
    · exact (not_reads_error h).elim
  · rintro ⟨after, args, rfl, ⟨hmid, hargs⟩, haccepts, hisset, rfl⟩
    rw [callOf, reads_bind]
    refine ⟨args, rest, hmid, hargs, ?_⟩
    dsimp only
    rw [if_neg (by simp [haccepts]), if_neg (by
      rintro ⟨hf, hv⟩
      exact hv (hisset hf))]
    exact reads_ok.2 ⟨rfl, rfl⟩

theorem reads_argumentList_close {name : Text} {after rest : List Token} {args : List Expr} :
    Reads (argumentList name (.rightParen :: after)) args rest ↔ args = [] ∧ rest = after := by
  rw [argumentList]
  exact reads_ok

theorem reads_argumentList_of_ne {name : Text} {tokens rest : List Token} {args : List Expr}
    (h : ∀ after, tokens ≠ .rightParen :: after) :
    Reads (argumentList name tokens) args rest ↔ Reads (arguments name tokens) args rest := by
  rw [argumentList]
  exact h

theorem reads_arguments {name : Text} {tokens rest : List Token} {args : List Expr} :
    Reads (arguments name tokens) args rest ↔ ∃ e mid, Reads (coalesced tokens) e mid ∧
      ((∃ after more, mid = .comma :: after ∧ Reads (arguments name after) more rest ∧
        args = e :: more) ∨ (mid = .rightParen :: rest ∧ args = [e])) := by
  rw [arguments, reads_bind]
  constructor
  · rintro ⟨e, mid, hmid, hcoalesced, h⟩
    refine ⟨e, mid, ⟨hmid, hcoalesced⟩, ?_⟩
    dsimp only at h
    split at h
    · next after h₀ =>
      obtain ⟨more, mid', hmid', hmore, h⟩ := reads_bind.1 h
      obtain ⟨rfl, rfl⟩ := reads_ok.1 h
      exact Or.inl ⟨after, more, rfl, ⟨hmid', hmore⟩, rfl⟩
    · obtain ⟨rfl, rfl⟩ := reads_ok.1 h
      exact Or.inr ⟨rfl, rfl⟩
    · exact (not_reads_error h).elim
  · rintro ⟨e, mid, ⟨hmid, hcoalesced⟩, h⟩
    refine ⟨e, mid, hmid, hcoalesced, ?_⟩
    rcases h with ⟨after, more, rfl, ⟨hmore', hmore⟩, rfl⟩ | ⟨rfl, rfl⟩
    · exact reads_bind.2 ⟨more, rest, hmore', hmore, reads_ok.2 ⟨rfl, rfl⟩⟩
    · exact reads_ok.2 ⟨rfl, rfl⟩

theorem ofTokens_eq_ok_iff {tokens : List Token} {e : Expr} :
    ofTokens tokens = .ok e ↔ Reads (coalesced tokens) e [] := by
  unfold ofTokens
  cases tokens with
  | nil =>
      constructor
      · intro h
        cases h
      · rintro ⟨hlength, -⟩
        cases hlength
  | cons token after =>
      cases hc : coalesced (token :: after) with
      | error fault =>
          constructor
          · intro h
            cases h
          · rintro ⟨_, h⟩
            cases h
      | ok result =>
          obtain ⟨e', rest, hrest⟩ := result
          cases rest with
          | nil =>
              constructor
              · intro h
                cases h
                exact ⟨hrest, rfl⟩
              · rintro ⟨_, h⟩
                cases h
                rfl
          | cons next rest =>
              constructor
              · intro h
                cases h
              · rintro ⟨_, h⟩
                cases h

end Stencil.Expr
