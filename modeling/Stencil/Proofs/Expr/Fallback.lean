import Stencil.Proofs.Expr.Marks
import Stencil.Proofs.Expr.Padding

/-!
# Interpolations are expressions

An interpolation is read by cutting the text behind its variable at `??`, and an
expression by its tokens.  Where a text starts with a variable both find the
same: a variable alone, or a variable and a fallback, or neither.  What they
find has the same value.
-/

namespace Stencil

/-! ## Derivations that start with a variable -/

namespace Expr

def isUnjoined : Expr → Bool
  | .not _ | .neg _ | .binary _ _ _ => false
  | .literal _ | .var _ | .coalesce _ _ | .call _ _ => true

theorem IsSigned.isOperand {tokens : List Token} {e : Expr} (he : e.isUnjoined = true)
    (h : IsSigned tokens e) : IsOperand tokens e := by
  cases h with
  | not | neg => cases he
  | operand h => exact h

theorem IsLevel.isOperand {level : Nat} {tokens : List Token} {e : Expr}
    (he : e.isUnjoined = true) (h : IsLevel level tokens e) : IsOperand tokens e := by
  induction level with
  | zero =>
      cases h with
      | signed h => exact h.isOperand he
  | succ level ih =>
      cases h with
      | inner h => exact ih h
      | chained | unchained => cases he

theorem IsOperand.isLevel {tokens : List Token} {e : Expr} (h : IsOperand tokens e)
    (level : Nat) : IsLevel level tokens e := by
  induction level with
  | zero => exact .signed (.operand h)
  | succ level ih => exact .inner ih

theorem IsOperand.isExpr {tokens : List Token} {e : Expr} (h : IsOperand tokens e) :
    IsExpr tokens e :=
  .single (h.isLevel _)

theorem isOperand_var_cons {v : Variable} {more : List Token} {e : Expr}
    (h : IsOperand (.var v :: more) e) : e = .var v ∧ more = [] := by
  cases h
  exact ⟨rfl, rfl⟩

theorem isExpr_var_cons_iff {v w : Variable} {more : List Token} :
    IsExpr (.var v :: more) (.var w) ↔ w = v ∧ more = [] := by
  constructor
  · intro h
    generalize htokens : Token.var v :: more = tokens at h
    cases h with
    | single h =>
        subst htokens
        obtain ⟨he, hmore⟩ := isOperand_var_cons (h.isOperand rfl)
        cases he
        exact ⟨rfl, hmore⟩
  · rintro ⟨rfl, rfl⟩
    exact (IsOperand.var w).isExpr

theorem isExpr_coalesce_iff {v w : Variable} {more : List Token} {e : Expr} :
    IsExpr (.var v :: more) (.coalesce (.var w) e) ↔
      w = v ∧ ∃ after, more = .symbol .coalesce :: after ∧ IsExpr after e := by
  constructor
  · intro h
    generalize htokens : Token.var v :: more = tokens at h
    cases h with
    | single h =>
        subst htokens
        cases (isOperand_var_cons (h.isOperand rfl)).1
    | @coalesce before after _ _ hl hr =>
        cases before with
        | nil => cases htokens
        | cons token before =>
            cases htokens
            obtain ⟨he, rfl⟩ := isOperand_var_cons (hl.isOperand rfl)
            cases he
            exact ⟨rfl, after, rfl, hr⟩
  · rintro ⟨rfl, after, rfl, h⟩
    exact .coalesce ((IsOperand.var w).isLevel _) h

end Expr

/-! ## Texts that start with a variable -/

namespace Token

theorem lex_dollar_eq_ok_iff {t : Text} {tokens : List Token} :
    lex ('$' :: t) = .ok tokens ↔ ∃ v rest more,
      Variable.scan? ('$' :: t) = some (v, rest) ∧ lex rest = .ok more ∧
        tokens = .var v :: more := by
  constructor
  · intro h
    obtain ⟨token, rest, more, hscan, hmore, rfl⟩ := lex_cons_eq_ok rfl h
    cases isFirst_of_scan? hscan with
    | var _ hv => exact ⟨_, rest, more, hv, hmore, rfl⟩
    | string hc _ | number hc | leftParen hc | rightParen hc | comma hc => cases hc
    | word hi => cases hi
    | @symbol s _ hs =>
        have hspelling := Symbol.eq_of_scan? hs
        cases s <;> cases hspelling
  · rintro ⟨v, rest, more, hv, hmore, rfl⟩
    have hscan : scan? '$' t = .ok (.var v, rest) := by simp [scan?, hv]
    rw [lex_cons_of_scan? rfl hscan, hmore]
    rfl

theorem not_isWhite_of_trimStart {t rest : Text} {c : Char} (h : Text.trimStart t = c :: rest) :
    Text.isWhite c = false := by
  apply Text.head?_dropWhile_isWhite t
  change c ∈ (Text.trimStart t).head?
  simp [h]

theorem lex_eq_ok_nil_iff {t : Text} : lex t = .ok [] ↔ Text.trimStart t = [] := by
  rw [← lex_trimStart]
  cases ht : Text.trimStart t with
  | nil => simp [lex_nil]
  | cons c rest =>
      constructor
      · intro h
        obtain ⟨_, _, _, -, -, he⟩ := lex_cons_eq_ok (not_isWhite_of_trimStart ht) h
        cases he
      · rintro ⟨⟩

theorem lex_eq_ok_coalesce_iff {t : Text} {after : List Token} :
    lex t = .ok (.symbol .coalesce :: after) ↔
      ∃ rest, Text.after? ['?', '?'] (Text.trimStart t) = some rest ∧ lex rest = .ok after := by
  rw [← lex_trimStart]
  constructor
  · intro h
    cases ht : Text.trimStart t with
    | nil =>
        rw [ht, lex_nil] at h
        cases h
    | cons c u =>
        rw [ht] at h
        obtain ⟨token, rest, more, hscan, hmore, he⟩ :=
          lex_cons_eq_ok (not_isWhite_of_trimStart ht) h
        cases he
        exact ⟨rest, Text.after?_eq_some_iff.2 (Template.eq_of_scan?_coalesce hscan), hmore⟩
  · rintro ⟨rest, hrest, hmore⟩
    have ht : Text.trimStart t = '?' :: '?' :: rest := Text.after?_eq_some_iff.1 hrest
    have hscan : scan? '?' ('?' :: rest) = .ok (.symbol .coalesce, rest) := rfl
    rw [ht, lex_cons_of_scan? rfl hscan, hmore]
    rfl

end Token

namespace Interpolation

theorem eval_toExpr (now : Moment) (lookup : Lookup) (i : Interpolation) :
    i.toExpr.eval now lookup = i.eval now lookup := by
  obtain ⟨v, fallback⟩ := i
  cases fallback with
  | none =>
      cases hv : v.resolve? lookup with
      | none => simp [toExpr, Expr.eval, eval, hv]
      | some value => cases value <;> simp [toExpr, Expr.eval, eval, hv]
  | some e =>
      cases hv : v.resolve? lookup with
      | none => simp [toExpr, Expr.eval, eval, hv]
      | some value => cases value <;> simp [toExpr, Expr.eval, eval, hv]

theorem parse_eq_ok_iff_toExpr {src : Text} (h : (Text.trim src).head? = some '$')
    {i : Interpolation} : parse src = .ok i ↔ Expr.parse src = .ok i.toExpr := by
  obtain ⟨t, ht⟩ : ∃ t, Text.trim src = '$' :: t := by
    cases hs : Text.trim src with
    | nil =>
        rw [hs] at h
        cases h
    | cons c t =>
        rw [hs] at h
        cases h
        exact ⟨t, rfl⟩
  rw [← Expr.parse_trim_eq_ok_iff, parse_eq_ok_iff, Expr.parse_eq_ok_iff, ht]
  simp only [Token.lex_dollar_eq_ok_iff]
  constructor
  · rintro ⟨v, rest, hv, ⟨hrest, rfl⟩ | ⟨fallback, e, hf, he, rfl⟩⟩
    · exact ⟨_, ⟨v, rest, [], hv, Token.lex_eq_ok_nil_iff.2 hrest, rfl⟩,
        Expr.isExpr_var_cons_iff.2 ⟨rfl, rfl⟩⟩
    · obtain ⟨after, hafter, hexpr⟩ := Expr.parse_eq_ok_iff.1 he
      have hlex := Token.lex_eq_ok_coalesce_iff.2 ⟨fallback, hf, hafter⟩
      exact ⟨_, ⟨v, rest, _, hv, hlex, rfl⟩,
        Expr.isExpr_coalesce_iff.2 ⟨rfl, after, rfl, hexpr⟩⟩
  · rintro ⟨tokens, ⟨v, rest, more, hv, hmore, rfl⟩, h⟩
    obtain ⟨w, fallback⟩ := i
    refine ⟨v, rest, hv, ?_⟩
    cases fallback with
    | none =>
        obtain ⟨rfl, rfl⟩ := Expr.isExpr_var_cons_iff.1 h
        exact Or.inl ⟨Token.lex_eq_ok_nil_iff.1 hmore, rfl⟩
    | some e =>
        obtain ⟨rfl, after, rfl, he⟩ := Expr.isExpr_coalesce_iff.1 h
        obtain ⟨fallback, hf, hafter⟩ := Token.lex_eq_ok_coalesce_iff.1 hmore
        exact Or.inr ⟨fallback, e, hf, Expr.parse_eq_ok_iff.2 ⟨after, hafter, he⟩, rfl⟩

structure ReadsAsExpr (src : Text) : Prop where
  plain : ∀ v, parse src = .ok ⟨v, none⟩ ↔ Expr.parse src = .ok (.var v)
  coalesced : ∀ v e,
    parse src = .ok ⟨v, some e⟩ ↔ Expr.parse src = .ok (.coalesce (.var v) e)
  fails : (∃ cause, parse src = .error cause) ↔
    (∀ v, Expr.parse src ≠ .ok (.var v)) ∧ ∀ v e, Expr.parse src ≠ .ok (.coalesce (.var v) e)
  value : ∀ i, parse src = .ok i →
    ∃ e, Expr.parse src = .ok e ∧ ∀ now lookup, i.eval now lookup = e.eval now lookup

/-- A text that starts with a dollar sign, white space aside, is an interpolation just if it is
the expression of a variable, or of a variable with a fallback, and has the value of that. -/
theorem readsAsExpr {src : Text} (h : (Text.trim src).head? = some '$') : ReadsAsExpr src where
  plain v := parse_eq_ok_iff_toExpr h
  coalesced v e := parse_eq_ok_iff_toExpr h
  fails := by
    constructor
    · rintro ⟨cause, hcause⟩
      constructor
      · intro v hv
        rw [(parse_eq_ok_iff_toExpr (i := ⟨v, none⟩) h).2 hv] at hcause
        cases hcause
      · intro v e he
        rw [(parse_eq_ok_iff_toExpr (i := ⟨v, some e⟩) h).2 he] at hcause
        cases hcause
    · rintro ⟨hplain, hcoalesced⟩
      cases hi : parse src with
      | error cause => exact ⟨cause, rfl⟩
      | ok i =>
          have he := (parse_eq_ok_iff_toExpr h).1 hi
          obtain ⟨v, fallback⟩ := i
          cases fallback with
          | none => exact absurd he (hplain v)
          | some e => exact absurd he (hcoalesced v e)
  value i hi := ⟨i.toExpr, (parse_eq_ok_iff_toExpr h).1 hi, fun now lookup =>
    (eval_toExpr now lookup i).symm⟩

def nestedFallback : Text := " $rows[ 'a ?? b' ].0 ?? $x ?? 'none' ".toList

theorem readsAsExpr_nestedFallback :
    (Text.trim nestedFallback).head? = some '$' ∧ ReadsAsExpr nestedFallback := by
  have hstart : (Text.trim nestedFallback).head? = some '$' := by decide
  exact ⟨hstart, readsAsExpr hstart⟩

end Interpolation

end Stencil
