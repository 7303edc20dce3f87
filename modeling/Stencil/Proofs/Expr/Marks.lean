import Stencil.Proofs.Expr.Interpolation
import Stencil.Proofs.Expr.Starters
import Stencil.Proofs.Expr.Transfer
import Stencil.Proofs.Template.Closed

/-!
# Question marks in arguments

Outside of literals an accepted argument has question marks in pairs only, and
none of the pairs is followed by `>`.  So the mark that ends an instruction does
not stand in it, nor does the one that starts an instruction.
-/

namespace Stencil.Token

inductive IsFirst (c : Char) (t : Text) : Token → Text → Prop
  | var {v : Variable} {rest : Text} (hc : c = '$')
      (h : Variable.scan? (c :: t) = some (v, rest)) : IsFirst c t (.var v) rest
  | string {text rest : Text} (hc : Quoted.isQuote c = true)
      (h : Quoted.read? (c :: t) = some (text, rest)) : IsFirst c t (.string text) rest
  | number (hc : c.isDigit = true) :
      IsFirst c t (.number (literal (numeral (c :: t)).1)) (numeral (c :: t)).2
  | leftParen (hc : c = '(') : IsFirst c t .leftParen t
  | rightParen (hc : c = ')') : IsFirst c t .rightParen t
  | comma (hc : c = ',') : IsFirst c t .comma t
  | word {name rest : Text} (h : identifier? (c :: t) = some (name, rest)) :
      IsFirst c t (.word name) rest
  | symbol {s : Symbol} {rest : Text} (h : Symbol.scan? (c :: t) = some (s, rest)) :
      IsFirst c t (.symbol s) rest

theorem isFirst_of_scan? {c : Char} {t rest : Text} {token : Token}
    (h : scan? c t = .ok (token, rest)) : IsFirst c t token rest := by
  unfold scan? at h
  split at h
  · next hc =>
    split at h
    · next v r hv =>
      cases h
      exact .var hc hv
    · cases h
  split at h
  · next hc =>
    split at h
    · next text r hr =>
      cases h
      exact .string hc hr
    · cases h
  split at h
  · next hc =>
    cases h
    exact .number hc
  split at h
  · next hc =>
    cases h
    exact .leftParen hc
  split at h
  · next hc =>
    cases h
    exact .rightParen hc
  split at h
  · next hc =>
    cases h
    exact .comma hc
  split at h
  · next name r hi =>
    cases h
    exact .word hi
  · split at h
    · next s r hs =>
      cases h
      exact .symbol hs
    · cases h

end Stencil.Token

namespace Stencil.Template

open Quoting

/-! ## Pairs -/

inductive Paired : Text → Prop
  | nil : Paired []
  | cons {c : Char} {t : Text} (hc : c ≠ '?') (h : Paired t) : Paired (c :: t)
  | pair {t : Text} (h : Paired t) (hn : t.head? ≠ some '>') : Paired ('?' :: '?' :: t)

namespace Paired

theorem append {o t : Text} (ho : '?' ∉ o) (h : Paired t) : Paired (o ++ t) := by
  induction o with
  | nil => exact h
  | cons c o ih =>
      rw [List.mem_cons, not_or] at ho
      exact .cons (Ne.symm ho.1) (ih ho.2)

theorem append_tail {t u : Text} (h : Paired t) (hu : '?' ∉ u) (hn : u.head? ≠ some '>') :
    Paired (t ++ u) := by
  induction h with
  | nil => simpa using append hu .nil
  | cons hc _ ih => exact .cons hc ih
  | @pair t _ hhead ih =>
      refine .pair ih ?_
      cases t with
      | nil => exact hn
      | cons c t => exact hhead

theorem not_alone {t a b : Text} {x y : Char} (h : Paired t) (ht : t = a ++ x :: '?' :: y :: b)
    (hx : x ≠ '?') (hy : y ≠ '?') : False := by
  induction h generalizing a with
  | nil => simp at ht
  | @cons c t hc ht' ih =>
      cases a with
      | nil =>
          simp only [List.nil_append, List.cons.injEq] at ht
          rw [ht.2] at ht'
          cases ht' with
          | cons hq _ => exact hq rfl
          | pair _ _ => exact hy rfl
      | cons d a =>
          simp only [List.cons_append, List.cons.injEq] at ht
          exact ih ht.2
  | @pair t _ _ ih =>
      cases a with
      | nil =>
          simp only [List.nil_append, List.cons.injEq] at ht
          exact hx ht.1.symm
      | cons d a =>
          simp only [List.cons_append, List.cons.injEq] at ht
          cases a with
          | nil =>
              simp only [List.nil_append, List.cons.injEq] at ht
              exact hx ht.2.1.symm
          | cons d' a =>
              simp only [List.cons_append, List.cons.injEq] at ht
              exact ih ht.2.2

theorem silent {t : Text} (h : Paired t) : ¬ ['?', '>'] <:+: t := by
  induction h with
  | nil => simp
  | cons hc _ ih =>
      rw [List.infix_cons_iff, List.cons_prefix_cons, not_or]
      exact ⟨fun h => hc h.1.symm, ih⟩
  | @pair t _ hn ih =>
      rw [List.infix_cons_iff, List.infix_cons_iff, not_or, not_or]
      refine ⟨by simp, ?_, ih⟩
      intro h
      obtain ⟨u, rfl⟩ := (List.cons_prefix_cons.1 h).2
      exact hn rfl

end Paired

/-! ## What scans take -/

/-- What was taken from the start of a text has no question mark outside of its literals. -/
def Skips (t rest : Text) : Prop :=
  ∃ o, '?' ∉ o ∧ outside.outline t = o ++ outside.outline rest

namespace Skips

theorem refl (t : Text) : Skips t t := ⟨[], by simp, rfl⟩

theorem trans {t mid rest : Text} (h : Skips t mid) (h' : Skips mid rest) : Skips t rest := by
  obtain ⟨o, ho, hout⟩ := h
  obtain ⟨o', ho', hout'⟩ := h'
  refine ⟨o ++ o', ?_, by rw [hout, hout', List.append_assoc]⟩
  rw [List.mem_append, not_or]
  exact ⟨ho, ho'⟩

theorem paired {t rest : Text} (h : Skips t rest) (hrest : Paired (outside.outline rest)) :
    Paired (outside.outline t) := by
  obtain ⟨o, ho, hout⟩ := h
  rw [hout]
  exact hrest.append ho

theorem of_append (lead rest : Text) (hlead : ∀ c ∈ lead, Quoted.isQuote c = false ∧ c ≠ '?') :
    Skips (lead ++ rest) rest := by
  have hq : ∀ c ∈ lead, Quoted.isQuote c = false := fun c hc => (hlead c hc).1
  refine ⟨lead, fun hmem => (hlead '?' hmem).2 rfl, ?_⟩
  rw [outline_append, outline_outside_of_isPlain hq, run_outside_of_isPlain hq]

theorem of_char {c : Char} (hq : Quoted.isQuote c = false) (hne : c ≠ '?') (t : Text) :
    Skips (c :: t) t :=
  of_append [c] t (by simp [hq, hne])

theorem of_after? {mark t rest : Text} (h : Text.after? mark t = some rest)
    (hm : ∀ c ∈ mark, Quoted.isQuote c = false ∧ c ≠ '?') : Skips t rest := by
  rw [Text.after?_eq_some_iff.1 h]
  exact of_append mark rest hm

theorem of_span (t : Text) {p : Char → Bool} (hsingle : p '\'' = false) (hdouble : p '"' = false)
    (hmark : p '?' = false) : Skips t (t.dropWhile p) := by
  have htake : ∀ c ∈ t.takeWhile p, Quoted.isQuote c = false ∧ c ≠ '?' := by
    intro c hc
    have hp := List.mem_takeWhile_imp hc
    refine ⟨Alike.isQuote_of_class hsingle hdouble hp, ?_⟩
    rintro rfl
    rw [hmark] at hp
    cases hp
  have h := of_append (t.takeWhile p) (t.dropWhile p) htake
  rwa [List.takeWhile_append_dropWhile] at h

theorem of_trimStart (t : Text) : Skips t (Text.trimStart t) :=
  of_span t (by decide) (by decide) (by decide)

theorem of_digits (t : Text) : Skips t (t.dropWhile Char.isDigit) :=
  of_span t (by decide) (by decide) (by decide)

theorem of_read? {t text rest : Text} (h : Quoted.read? t = some (text, rest)) : Skips t rest := by
  obtain ⟨quote, hq, hout⟩ := outline_of_read? h
  refine ⟨quote :: (if text = [] then [] else [filler]) ++ [quote], ?_, by simp [hout]⟩
  have hne : quote ≠ '?' := by
    rintro rfl
    cases hq
  split <;> simp [filler, hne.symm]

theorem of_identifier? {t name rest : Text} (h : identifier? t = some (name, rest)) :
    Skips t rest := by
  cases t with
  | nil => cases h
  | cons c t =>
      rw [identifier?] at h
      split at h
      · next hc =>
        cases h
        have hq := Alike.isQuote_of_class (p := isIdentStart) (by decide) (by decide) hc
        have hne : c ≠ '?' := by
          rintro rfl
          cases hc
        have hfirst : Skips (c :: t) t := of_char hq hne t
        exact hfirst.trans (of_span t (by decide) (by decide) (by decide))
      · cases h

theorem of_position? {t rest : Text} {a : Accessor}
    (h : ((position? (t.takeWhile Char.isDigit)).map fun n =>
      (Accessor.index n, t.dropWhile Char.isDigit)) = some (a, rest)) : Skips t rest := by
  obtain ⟨n, -, he⟩ := Option.map_eq_some_iff.1 h
  cases he
  exact of_digits t

theorem of_inner? {t rest : Text} {a : Accessor}
    (h : Accessor.bracketed?.inner? t = some (a, rest)) : Skips t rest := by
  unfold Accessor.bracketed?.inner? at h
  split at h
  · next name r hr =>
    cases h
    exact of_read? hr
  · exact of_position? h

theorem of_scanAccessor {t rest : Text} {a : Accessor} (h : Accessor.scan? t = some (a, rest)) :
    Skips t rest := by
  unfold Accessor.scan? at h
  split at h
  · next t =>
    refine (of_char rfl (by decide) t).trans ?_
    unfold Accessor.dotted? at h
    split at h
    · next name r hi =>
      cases h
      exact of_identifier? hi
    · exact of_position? h
  · next t =>
    refine (of_char rfl (by decide) t).trans ?_
    unfold Accessor.bracketed? at h
    split at h
    · next accessor r hi =>
      obtain ⟨r', hr', he⟩ := Option.map_eq_some_iff.1 h
      cases he
      have hinner := (of_trimStart t).trans (of_inner? hi)
      exact (hinner.trans (of_trimStart r)).trans (of_after? hr' (by simp [Quoted.isQuote]))
    · cases h
  · cases h

theorem of_accessors (t : Text) : Skips t (Accessor.scanAll t).2 := by
  fun_induction Accessor.scanAll t with
  | case1 t => exact refl t
  | case2 t a rest h _ more rest' he ih =>
      rw [he] at ih
      exact (of_scanAccessor h).trans ih

theorem of_variable {t rest : Text} {v : Variable} (h : Variable.scan? t = some (v, rest)) :
    Skips t rest := by
  unfold Variable.scan? at h
  split at h
  · next t =>
    obtain ⟨⟨root, r⟩, hi, he⟩ := Option.map_eq_some_iff.1 h
    cases he
    have hname := (of_char (c := '$') rfl (by decide) t).trans (of_identifier? hi)
    exact hname.trans (of_accessors r)
  · cases h

theorem of_numeral (t : Text) : Skips t (Token.numeral t).2 := by
  have hwhole := of_digits t
  by_cases hpoint : ∃ rest, t.dropWhile Char.isDigit = '.' :: rest
  · obtain ⟨rest, ht⟩ := hpoint
    rw [ht] at hwhole
    rw [Alike.numeral_of_point ht]
    split
    · exact hwhole
    · have hfraction : Skips ('.' :: rest) rest := of_char rfl (by decide) rest
      exact (hwhole.trans hfraction).trans (of_digits rest)
  · rw [Alike.numeral_of_ne fun rest he => hpoint ⟨rest, he⟩]
    exact hwhole

theorem of_symbol {t rest : Text} {s : Symbol} (h : Symbol.scan? t = some (s, rest))
    (hs : s ≠ .coalesce) : Skips t rest := by
  rw [Symbol.eq_of_scan? h]
  apply of_append
  cases s <;> first | exact absurd rfl hs | simp [Symbol.spelling, Quoted.isQuote]

theorem of_token {c : Char} {t rest : Text} {token : Token}
    (h : Token.scan? c t = .ok (token, rest)) (htoken : token ≠ .symbol .coalesce) :
    Skips (c :: t) rest := by
  cases Token.isFirst_of_scan? h with
  | var _ hv => exact of_variable hv
  | string _ hr => exact of_read? hr
  | number _ => exact of_numeral (c :: t)
  | leftParen hc | rightParen hc | comma hc =>
      rw [hc]
      exact of_char rfl (by decide) _
  | word hi => exact of_identifier? hi
  | symbol hs => exact of_symbol hs fun he => htoken (by rw [he])

end Skips

/-! ## Expressions -/

theorem eq_of_scan?_coalesce {c : Char} {t rest : Text}
    (h : Token.scan? c t = .ok (.symbol .coalesce, rest)) : c :: t = '?' :: '?' :: rest := by
  cases Token.isFirst_of_scan? h with
  | symbol hs => exact Symbol.eq_of_scan? hs

theorem not_starts_of_scan? {t rest : Text} {token : Token}
    (h : Token.scan? '>' t = .ok (token, rest)) : token.starts = false := by
  cases Token.isFirst_of_scan? h with
  | var hc _ | string hc _ | number hc | leftParen hc => cases hc
  | rightParen _ | comma _ => rfl
  | word hi => cases hi
  | @symbol s _ hs =>
      have hspelling := Symbol.eq_of_scan? hs
      cases s <;> first | rfl | (simp [Symbol.spelling] at hspelling)

theorem head?_ne_of_isStarted {t : Text} {tokens : List Token} (h : Token.lex t = .ok tokens)
    (hs : Expr.IsStarted tokens) : t.head? ≠ some '>' := by
  intro hhead
  cases t with
  | nil => cases hhead
  | cons c t =>
      obtain rfl : c = '>' := by simpa using hhead
      obtain ⟨token, rest, more, hscan, -, rfl⟩ := Token.lex_cons_eq_ok rfl h
      obtain ⟨first, others, he, hstarts⟩ := hs
      cases he
      rw [not_starts_of_scan? hscan] at hstarts
      cases hstarts

theorem head?_outline (t : Text) : (outside.outline t).head? = t.head? := by
  cases t with
  | nil => rfl
  | cons c t => rfl

theorem paired_of_lex {t : Text} {tokens : List Token} (h : Token.lex t = .ok tokens)
    (hs : Expr.IsSpaced tokens) : Paired (outside.outline t) := by
  fun_induction Token.lex t generalizing tokens with
  | case1 => exact .nil
  | case2 c t hc ih =>
      have hlead : Skips (c :: t) t := by
        have hq := Alike.isQuote_of_class (p := Text.isWhite) (by decide) (by decide) hc
        have hne : c ≠ '?' := by
          rintro rfl
          cases hc
        exact Skips.of_char hq hne t
      exact hlead.paired (ih h hs)
  | case3 c t hc fault hf => cases h
  | case4 c t hc token rest hscan _ ih =>
      cases hmore : Token.lex rest with
      | error fault =>
          rw [hmore] at h
          cases h
      | ok more =>
          rw [hmore] at h
          cases h
          have hrest := ih hmore hs.2
          by_cases htoken : token = .symbol .coalesce
          · subst htoken
            have hhead := head?_ne_of_isStarted hmore (hs.1 rfl)
            rw [eq_of_scan?_coalesce hscan]
            rw [← head?_outline] at hhead
            exact .pair hrest hhead
          · exact (Skips.of_token hscan htoken).paired hrest

end Stencil.Template
