import Stencil.Proofs.Expr.Soundness
import Stencil.Proofs.Expr.Starters

/-!
# The parser is complete

Whatever the grammar derives is read by the parser, as long as what follows
does not go on with it.
-/

namespace Stencil.Expr

/-- No operator of a level, or of one that binds closer, comes next. -/
def Stops (level : Nat) (tokens : List Token) : Prop :=
  ∀ token ∈ tokens.head?, ∀ l ≤ level, token.opAt? l = none

theorem stops_cons {level : Nat} {token : Token} {tokens : List Token} :
    Stops level (token :: tokens) ↔ ∀ l ≤ level, token.opAt? l = none := by
  simp [Stops]

theorem Stops.mono {level inner : Nat} {tokens : List Token} (h : Stops level tokens)
    (hle : inner ≤ level) : Stops inner tokens :=
  fun token ht l hl => h token ht l (Nat.le_trans hl hle)

theorem stops_nil (level : Nat) : Stops level [] := by
  simp [Stops]

theorem stops_of_binaryOp?_eq_none {token : Token} (h : token.binaryOp? = none) (level : Nat)
    (tokens : List Token) : Stops level (token :: tokens) := by
  rw [stops_cons]
  intro l _
  simp [Token.opAt?, h]

theorem stops_of_opAt? {token : Token} {op : BinaryOp} {inner : Nat}
    (h : token.opAt? (inner + 1) = some op) (tokens : List Token) :
    Stops inner (token :: tokens) := by
  rw [stops_cons]
  intro l hl
  rw [Token.opAt?, Option.filter_eq_some_iff] at h
  simp only [Token.opAt?, h.1, Option.filter_some, decide_eq_true_eq] at h ⊢
  rw [if_neg (by omega)]

theorem reads_joined_of_stops {inner : Nat} {left e : Expr} {tokens rest : List Token}
    (h : Stops (inner + 1) tokens) :
    Reads (joined inner left tokens) e rest ↔ e = left ∧ rest = tokens := by
  cases tokens with
  | nil => exact reads_joined_nil
  | cons token after =>
      exact reads_joined_of_none (stops_cons.1 h (inner + 1) (Nat.le_refl _))

def IsRead : Nat → List Token → Expr → Prop
  | 0, before, e => ∀ after, Reads (operation 0 (before ++ after)) e after
  | inner + 1, before, e => ∀ after, Stops inner after →
    (BinaryOp.chains (inner + 1) = false → Stops (inner + 1) after) →
    ∀ e' rest, Reads (joined inner e after) e' rest →
      Reads (operation (inner + 1) (before ++ after)) e' rest

theorem IsRead.reads {level : Nat} {before : List Token} {e : Expr} (h : IsRead level before e)
    {after : List Token} (hstops : Stops level after) :
    Reads (operation level (before ++ after)) e after := by
  cases level with
  | zero => exact h after
  | succ inner =>
      exact h after (hstops.mono (Nat.le_succ inner)) (fun _ => hstops) e after
        ((reads_joined_of_stops hstops).2 ⟨rfl, rfl⟩)

theorem stops_coalesce (level : Nat) (tokens : List Token) :
    Stops level (.symbol .coalesce :: tokens) :=
  stops_of_binaryOp?_eq_none rfl level tokens

theorem stops_rightParen (level : Nat) (tokens : List Token) :
    Stops level (.rightParen :: tokens) :=
  stops_of_binaryOp?_eq_none rfl level tokens

theorem stops_comma (level : Nat) (tokens : List Token) : Stops level (.comma :: tokens) :=
  stops_of_binaryOp?_eq_none rfl level tokens

theorem reads_argumentList {before : List Token} {args : List Expr} (h : AreArguments before args)
    (hreads : args ≠ [] → ∀ name after,
      Reads (arguments name (before ++ .rightParen :: after)) args after)
    (name : Text) (after : List Token) :
    Reads (argumentList name (before ++ .rightParen :: after)) args after := by
  cases args with
  | nil =>
      obtain rfl : before = [] := by cases h; rfl
      exact reads_argumentList_close.2 ⟨rfl, rfl⟩
  | cons first rest =>
      obtain ⟨token, tail, rfl, hs⟩ := h.starts
      refine (reads_argumentList_of_ne ?_).2 (hreads (by simp) name after)
      rintro more ⟨⟩
      cases hs

mutual

theorem IsExpr.reads {before : List Token} {e : Expr} : IsExpr before e →
    ∀ {after : List Token}, Stops BinaryOp.outermost after →
      (∀ rest, after ≠ .symbol .coalesce :: rest) → Reads (coalesced (before ++ after)) e after
  | .single h, after, hstops, hne =>
      reads_coalesced.2 ⟨e, after, h.isRead.reads hstops, Or.inr ⟨hne, rfl, rfl⟩⟩
  | @IsExpr.coalesce first more left right hl hr, after, hstops, hne => by
      have hleft := hl.isRead.reads (stops_coalesce BinaryOp.outermost (more ++ after))
      have hright := hr.reads hstops hne
      rw [List.append_assoc, List.cons_append]
      exact reads_coalesced.2 ⟨left, _, hleft, Or.inl ⟨_, right, rfl, hright, rfl⟩⟩

theorem IsLevel.isRead {level : Nat} {before : List Token} {e : Expr} :
    IsLevel level before e → IsRead level before e
  | .signed h => fun after => reads_operation_zero.2 (h.reads after)
  | .inner h => fun after hstops _ e' rest hjoined =>
      reads_operation_succ.2 ⟨e, after, h.isRead.reads hstops, hjoined⟩
  | @IsLevel.chained inner first more token op left right hc hl ho hr =>
      fun after hstops _ e' rest hjoined => by
        have hright := hr.isRead.reads hstops
        -- the left operand is itself a chain, to which this operator is joined last
        have hnext : Reads (joined inner left (token :: (more ++ after))) e' rest := by
          refine (reads_joined_of_some ho).2 ⟨right, after, hright, ?_⟩
          rwa [if_pos hc]
        rw [List.append_assoc, List.cons_append]
        exact hl.isRead _ (stops_of_opAt? ho _) (fun hn => absurd hc (by simp [hn])) e' rest hnext
  | @IsLevel.unchained inner first more token op left right hc hl ho hr =>
      fun after hstops hunchained e' rest hjoined => by
        have hleft := hl.isRead.reads (stops_of_opAt? ho (more ++ after))
        have hright := hr.isRead.reads hstops
        have hnext : Reads (joined inner left (token :: (more ++ after))) e' rest := by
          refine (reads_joined_of_some ho).2 ⟨right, after, hright, ?_⟩
          rw [if_neg (by simp [hc])]
          exact (reads_joined_of_stops (hunchained hc)).1 hjoined
        rw [List.append_assoc, List.cons_append]
        exact reads_operation_succ.2 ⟨left, _, hleft, hnext⟩

theorem IsSigned.reads {before : List Token} {e : Expr} : IsSigned before e →
    ∀ after, Reads (unary (before ++ after)) e after
  | .not h, after => reads_unary_not.2 ⟨_, h.reads after, rfl⟩
  | .neg h, after => reads_unary_minus.2 ⟨_, h.reads after, rfl⟩
  | .operand h, after => by
      obtain ⟨token, more, rfl, hnot, hminus, hreads⟩ := h.reads
      exact (reads_unary_operand hnot hminus).2 (hreads after)

theorem IsOperand.reads {before : List Token} {e : Expr} : IsOperand before e →
    ∃ token more, before = token :: more ∧ token ≠ .symbol .not ∧ token ≠ .symbol .minus ∧
      ∀ after, Reads (operand token (more ++ after)) e after
  | .var v => ⟨_, _, rfl, by simp, by simp, fun after => by
      rw [operand]
      exact reads_ok.2 ⟨rfl, rfl⟩⟩
  | .string t => ⟨_, _, rfl, by simp, by simp, fun after => by
      rw [operand]
      exact reads_ok.2 ⟨rfl, rfl⟩⟩
  | .number value => ⟨_, _, rfl, by simp, by simp, fun after => by
      rw [operand]
      exact reads_ok.2 ⟨rfl, rfl⟩⟩
  | .constant h => ⟨_, _, rfl, by simp, by simp, fun after =>
      (reads_word_constant h).2 ⟨rfl, rfl⟩⟩
  | @IsOperand.group inner e h =>
      ⟨.leftParen, inner ++ [.rightParen], rfl, by simp, by simp, fun after => by
        rw [List.append_assoc]
        exact reads_group.2 (h.reads (stops_rightParen _ _) (by simp))⟩
  | @IsOperand.call f inner args h haccepts hisset =>
      ⟨_, _, rfl, by simp, by simp, fun after => by
        have hname : constant? f.spelling = none := by cases f <;> rfl
        have hargs := reads_argumentList h h.reads f.spelling after
        exact (reads_word_call hname (FunctionName.ofWord?_spelling f)).2 (reads_callOf.2
          ⟨inner ++ .rightParen :: after, args, by simp, hargs, haccepts, hisset, rfl⟩)⟩

theorem AreArguments.reads {before : List Token} {args : List Expr} :
    AreArguments before args → args ≠ [] → ∀ name after,
      Reads (arguments name (before ++ .rightParen :: after)) args after
  | .none, hne, _, _ => absurd rfl hne
  | .last h, _, name, after =>
      reads_arguments.2 ⟨_, _, h.reads (stops_rightParen _ _) (by simp), Or.inr ⟨rfl, rfl⟩⟩
  | @AreArguments.more first rest e next args h hs, _, name, after => by
      have hmore := hs.reads (by simp) name after
      have hfirst := h.reads (stops_comma _ (rest ++ .rightParen :: after)) (by simp)
      rw [List.append_assoc, List.cons_append]
      exact reads_arguments.2 ⟨e, _, hfirst, Or.inl ⟨_, _, rfl, hmore, rfl⟩⟩

end

theorem ofTokens_of_isExpr {tokens : List Token} {e : Expr} (h : IsExpr tokens e) :
    ofTokens tokens = .ok e := by
  have hreads := h.reads (stops_nil _) (by simp)
  rw [List.append_nil] at hreads
  exact ofTokens_eq_ok_iff.2 hreads

end Stencil.Expr
