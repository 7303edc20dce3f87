import Stencil.Proofs.Expr.Alike
import Stencil.Proofs.Expr.Completeness

/-!
# Expressions of alike texts

A derivation asks of a string or a variable only that it is one.  So token
lists that resemble are derived alike, and of alike texts either both are
expressions or neither is.
-/

namespace Stencil

namespace Token.Resembles

theorem eq_of_ne {token token' : Token} (h : Resembles token token') (hvar : ∀ v, token ≠ .var v)
    (hstring : ∀ t, token ≠ .string t) : token' = token := by
  cases h with
  | var v w => exact absurd rfl (hvar v)
  | string t u => exact absurd rfl (hstring t)
  | same => rfl

theorem eq_of_opAt? {token token' : Token} {level : Nat} {op : BinaryOp}
    (h : Resembles token token') (hop : token.opAt? level = some op) : token' = token := by
  apply h.eq_of_ne
  · rintro v rfl
    cases hop
  · rintro t rfl
    cases hop

end Token.Resembles

open Token (Resembles)

namespace Expr

theorem resembles_append {before after tokens : List Token}
    (h : List.Forall₂ Resembles (before ++ after) tokens) :
    ∃ before' after', tokens = before' ++ after' ∧ List.Forall₂ Resembles before before' ∧
      List.Forall₂ Resembles after after' := by
  induction before generalizing tokens with
  | nil => exact ⟨[], tokens, rfl, .nil, h⟩
  | cons token before ih =>
      obtain ⟨token', tokens', htoken, hrest, rfl⟩ := List.forall₂_cons_left_iff.1 h
      obtain ⟨before', after', rfl, hbefore, hafter⟩ := ih hrest
      exact ⟨token' :: before', after', rfl, .cons htoken hbefore, hafter⟩

theorem resembles_cons {token : Token} {after tokens : List Token}
    (h : List.Forall₂ Resembles (token :: after) tokens) (hvar : ∀ v, token ≠ .var v)
    (hstring : ∀ t, token ≠ .string t) :
    ∃ after', tokens = token :: after' ∧ List.Forall₂ Resembles after after' := by
  obtain ⟨token', after', htoken, hafter, rfl⟩ := List.forall₂_cons_left_iff.1 h
  obtain rfl := htoken.eq_of_ne hvar hstring
  exact ⟨after', rfl, hafter⟩

theorem resembles_op {token : Token} {after tokens : List Token} {level : Nat} {op : BinaryOp}
    (h : List.Forall₂ Resembles (token :: after) tokens) (hop : token.opAt? level = some op) :
    ∃ after', tokens = token :: after' ∧ List.Forall₂ Resembles after after' := by
  obtain ⟨token', after', htoken, hafter, rfl⟩ := List.forall₂_cons_left_iff.1 h
  obtain rfl := htoken.eq_of_opAt? hop
  exact ⟨after', rfl, hafter⟩

theorem resembles_closed {inner tokens : List Token}
    (h : List.Forall₂ Resembles (inner ++ [Token.rightParen]) tokens) :
    ∃ inner', tokens = inner' ++ [Token.rightParen] ∧ List.Forall₂ Resembles inner inner' := by
  obtain ⟨inner', last, rfl, hinner, hlast⟩ := resembles_append h
  obtain ⟨after, rfl, hafter⟩ := resembles_cons hlast (by simp) (by simp)
  obtain rfl := List.forall₂_nil_left_iff.1 hafter
  exact ⟨inner', rfl, hinner⟩

mutual

theorem IsExpr.transfer {tokens : List Token} {e : Expr} : IsExpr tokens e →
    ∀ {tokens' : List Token}, List.Forall₂ Resembles tokens tokens' →
      ∃ e', IsExpr tokens' e' ∧ e'.isVar = e.isVar
  | .single h, tokens', hall => by
      obtain ⟨e', he', hvar⟩ := h.transfer hall
      exact ⟨e', .single he', hvar⟩
  | .coalesce hl hr, tokens', hall => by
      obtain ⟨before, mid, rfl, hbefore, hmid⟩ := resembles_append hall
      obtain ⟨after, rfl, hafter⟩ := resembles_cons hmid (by simp) (by simp)
      obtain ⟨left, hleft, -⟩ := hl.transfer hbefore
      obtain ⟨right, hright, -⟩ := hr.transfer hafter
      exact ⟨_, .coalesce hleft hright, rfl⟩

theorem IsLevel.transfer {level : Nat} {tokens : List Token} {e : Expr} :
    IsLevel level tokens e → ∀ {tokens' : List Token}, List.Forall₂ Resembles tokens tokens' →
      ∃ e', IsLevel level tokens' e' ∧ e'.isVar = e.isVar
  | .signed h, tokens', hall => by
      obtain ⟨e', he', hvar⟩ := h.transfer hall
      exact ⟨e', .signed he', hvar⟩
  | .inner h, tokens', hall => by
      obtain ⟨e', he', hvar⟩ := h.transfer hall
      exact ⟨e', .inner he', hvar⟩
  | .chained hc hl ho hr, tokens', hall => by
      obtain ⟨before, mid, rfl, hbefore, hmid⟩ := resembles_append hall
      obtain ⟨after, rfl, hafter⟩ := resembles_op hmid ho
      obtain ⟨left, hleft, -⟩ := hl.transfer hbefore
      obtain ⟨right, hright, -⟩ := hr.transfer hafter
      exact ⟨_, .chained hc hleft ho hright, rfl⟩
  | .unchained hc hl ho hr, tokens', hall => by
      obtain ⟨before, mid, rfl, hbefore, hmid⟩ := resembles_append hall
      obtain ⟨after, rfl, hafter⟩ := resembles_op hmid ho
      obtain ⟨left, hleft, -⟩ := hl.transfer hbefore
      obtain ⟨right, hright, -⟩ := hr.transfer hafter
      exact ⟨_, .unchained hc hleft ho hright, rfl⟩

theorem IsSigned.transfer {tokens : List Token} {e : Expr} : IsSigned tokens e →
    ∀ {tokens' : List Token}, List.Forall₂ Resembles tokens tokens' →
      ∃ e', IsSigned tokens' e' ∧ e'.isVar = e.isVar
  | .not h, tokens', hall => by
      obtain ⟨after, rfl, hafter⟩ := resembles_cons hall (by simp) (by simp)
      obtain ⟨e', he', -⟩ := h.transfer hafter
      exact ⟨_, .not he', rfl⟩
  | .neg h, tokens', hall => by
      obtain ⟨after, rfl, hafter⟩ := resembles_cons hall (by simp) (by simp)
      obtain ⟨e', he', -⟩ := h.transfer hafter
      exact ⟨_, .neg he', rfl⟩
  | .operand h, tokens', hall => by
      obtain ⟨e', he', hvar⟩ := h.transfer hall
      exact ⟨e', .operand he', hvar⟩

theorem IsOperand.transfer {tokens : List Token} {e : Expr} : IsOperand tokens e →
    ∀ {tokens' : List Token}, List.Forall₂ Resembles tokens tokens' →
      ∃ e', IsOperand tokens' e' ∧ e'.isVar = e.isVar
  | .var v, tokens', hall => by
      obtain ⟨token, after, htoken, hafter, rfl⟩ := List.forall₂_cons_left_iff.1 hall
      obtain rfl := List.forall₂_nil_left_iff.1 hafter
      cases htoken with
      | var _ w => exact ⟨_, .var w, rfl⟩
      | same => exact ⟨_, .var v, rfl⟩
  | .string t, tokens', hall => by
      obtain ⟨token, after, htoken, hafter, rfl⟩ := List.forall₂_cons_left_iff.1 hall
      obtain rfl := List.forall₂_nil_left_iff.1 hafter
      cases htoken with
      | string _ u => exact ⟨_, .string u, rfl⟩
      | same => exact ⟨_, .string t, rfl⟩
  | .number value, tokens', hall => by
      obtain ⟨after, rfl, hafter⟩ := resembles_cons hall (by simp) (by simp)
      obtain rfl := List.forall₂_nil_left_iff.1 hafter
      exact ⟨_, .number value, rfl⟩
  | .constant h, tokens', hall => by
      obtain ⟨after, rfl, hafter⟩ := resembles_cons hall (by simp) (by simp)
      obtain rfl := List.forall₂_nil_left_iff.1 hafter
      exact ⟨_, .constant h, rfl⟩
  | .group h, tokens', hall => by
      obtain ⟨after, rfl, hafter⟩ := resembles_cons hall (by simp) (by simp)
      obtain ⟨inner, rfl, hinner⟩ := resembles_closed hafter
      obtain ⟨e', he', hvar⟩ := h.transfer hinner
      exact ⟨e', .group he', hvar⟩
  | .call h haccepts hisset, tokens', hall => by
      obtain ⟨mid, rfl, hmid⟩ := resembles_cons hall (by simp) (by simp)
      obtain ⟨after, rfl, hafter⟩ := resembles_cons hmid (by simp) (by simp)
      obtain ⟨inner, rfl, hinner⟩ := resembles_closed hafter
      obtain ⟨args, hargs, hvars⟩ := h.transfer hinner
      have hlength := congrArg List.length hvars
      have hall : ∀ args : List Expr, args.all isVar = (args.map isVar).all id := by simp
      rw [List.length_map, List.length_map] at hlength
      rw [← hlength] at haccepts
      rw [hall, ← hvars, ← hall] at hisset
      exact ⟨_, .call hargs haccepts hisset, rfl⟩

theorem AreArguments.transfer {tokens : List Token} {args : List Expr} :
    AreArguments tokens args → ∀ {tokens' : List Token}, List.Forall₂ Resembles tokens tokens' →
      ∃ args', AreArguments tokens' args' ∧ args'.map isVar = args.map isVar
  | .none, tokens', hall => by
      obtain rfl := List.forall₂_nil_left_iff.1 hall
      exact ⟨[], .none, rfl⟩
  | .last h, tokens', hall => by
      obtain ⟨e', he', hvar⟩ := h.transfer hall
      exact ⟨[e'], .last he', by simp [hvar]⟩
  | .more h hs, tokens', hall => by
      obtain ⟨before, mid, rfl, hbefore, hmid⟩ := resembles_append hall
      obtain ⟨after, rfl, hafter⟩ := resembles_cons hmid (by simp) (by simp)
      obtain ⟨e', he', hvar⟩ := h.transfer hbefore
      obtain ⟨rest, hrest, hvars⟩ := hs.transfer hafter
      cases rest with
      | nil => cases hvars
      | cons next args' => exact ⟨_, .more he' hrest, by rw [List.map_cons, hvar, hvars]; rfl⟩

end

theorem parse_eq_ok_iff {t : Text} {e : Expr} :
    parse t = .ok e ↔ ∃ tokens, Token.lex t = .ok tokens ∧ IsExpr tokens e := by
  unfold parse
  constructor
  · intro h
    split at h
    · cases h
    · next tokens ht => exact ⟨tokens, ht, isExpr_of_ofTokens h⟩
  · rintro ⟨tokens, ht, he⟩
    rw [ht]
    exact ofTokens_of_isExpr he

theorem parse_of_alike {t u : Text} {e : Expr} (h : Template.Alike t u) (ht : parse t = .ok e) :
    ∃ e', parse u = .ok e' := by
  obtain ⟨tokens, hlex, he⟩ := parse_eq_ok_iff.1 ht
  obtain ⟨tokens', hlex', hall⟩ := Token.lex_of_alike h hlex
  obtain ⟨e', he', -⟩ := he.transfer hall
  exact ⟨e', parse_eq_ok_iff.2 ⟨tokens', hlex', he'⟩⟩

end Expr

end Stencil
