import Mathlib.Data.List.Forall2
import Stencil.Proofs.Template.Quoting
import Stencil.Expr.Token

/-!
# Scanning alike texts

Texts that differ in what stands between quotes at most are scanned alike: the
same scans succeed, what they find resembles, and what they leave is alike.  So
the tokens of alike texts differ in strings and in variables only.
-/

namespace Stencil.Template.Alike

open Quoting

section

variable {α β : Type} {related : α → β → Prop} {s : Option (α × Text)} {s' : Option (β × Text)}

theorem Scans.of_some (h : Scans related s s') {a : α} {rest : Text} (hs : s = some (a, rest)) :
    ∃ b rest', s' = some (b, rest') ∧ related a b ∧ Alike rest rest' := by
  subst hs
  cases s' with
  | none => exact h.elim
  | some pair => exact ⟨pair.1, pair.2, rfl, h.1, h.2⟩

theorem Scans.of_rel {x y : Option Text} (h : Option.Rel Alike x y) {a : α} {b : β}
    (hab : related a b) :
    Scans related (x.map fun rest => (a, rest)) (y.map fun rest => (b, rest)) := by
  cases h with
  | none => trivial
  | some h => exact ⟨hab, h⟩

theorem Scans.of_none (h : Scans related s s') (hs : s = none) : s' = none := by
  subst hs
  cases s' with
  | none => rfl
  | some pair => exact h.elim

end

theorem isQuote_of_class {p : Char → Bool} (hsingle : p '\'' = false) (hdouble : p '"' = false)
    {c : Char} (hc : p c = true) : Quoted.isQuote c = false := by
  cases hq : Quoted.isQuote c with
  | false => rfl
  | true =>
      simp only [Quoted.isQuote, Bool.or_eq_true, beq_iff_eq] at hq
      rcases hq with rfl | rfl
      · rw [hsingle] at hc
        cases hc
      · rw [hdouble] at hc
        cases hc

theorem span {t u : Text} (h : Alike t u) {p : Char → Bool}
    (hsingle : p '\'' = false) (hdouble : p '"' = false) :
    t.takeWhile p = u.takeWhile p ∧ Alike (t.dropWhile p) (u.dropWhile p) := by
  induction t generalizing u with
  | nil =>
      obtain rfl := h.nil_left
      exact ⟨rfl, h⟩
  | cons c t ih =>
      obtain ⟨u, rfl, hn⟩ := h.cons_left
      cases hc : p c with
      | false => simpa [hc] using h
      | true =>
          have hq := isQuote_of_class hsingle hdouble hc
          have htail := ih (cons_iff hq |>.1 h)
          simpa [hc] using htail

theorem trimStart {t u : Text} (h : Alike t u) : Alike (Text.trimStart t) (Text.trimStart u) :=
  (h.span (by decide) (by decide)).2

theorem after? {t u : Text} (h : Alike t u) {mark : Text}
    (hm : ∀ c ∈ mark, Quoted.isQuote c = false) :
    Option.Rel Alike (Text.after? mark t) (Text.after? mark u) := by
  induction mark generalizing t u with
  | nil => exact .some h
  | cons p mark ih =>
      cases t with
      | nil =>
          obtain rfl := h.nil_left
          exact .none
      | cons c t =>
          obtain ⟨u, rfl, hn⟩ := h.cons_left
          by_cases hp : p = c
          · subst hp
            have hq := hm p List.mem_cons_self
            simpa [Text.after?] using ih (cons_iff hq |>.1 h) fun d hd =>
              hm d (List.mem_cons_of_mem _ hd)
          · simp [Text.after?, hp]

theorem identifier? {t u : Text} (h : Alike t u) :
    Scans Eq (Stencil.identifier? t) (Stencil.identifier? u) := by
  cases t with
  | nil =>
      obtain rfl := h.nil_left
      trivial
  | cons c t =>
      obtain ⟨u, rfl, hn⟩ := h.cons_left
      unfold Stencil.identifier?
      by_cases hc : isIdentStart c = true
      · have hq := isQuote_of_class (p := isIdentStart) (by decide) (by decide) hc
        obtain ⟨htake, hdrop⟩ :=
          (cons_iff hq |>.1 h).span (p := isIdentPart) (by decide) (by decide)
        simp only [hc, if_true]
        exact ⟨by rw [htake], hdrop⟩
      · simp [hc, Scans]

theorem digits {t u : Text} (h : Alike t u) :
    t.takeWhile Char.isDigit = u.takeWhile Char.isDigit ∧
      Alike (t.dropWhile Char.isDigit) (u.dropWhile Char.isDigit) :=
  h.span (by decide) (by decide)

/-! ## Variables -/

theorem position? {t u : Text} (h : Alike t u) :
    Scans (fun (_ _ : Accessor) => True)
      ((Stencil.position? (t.takeWhile Char.isDigit)).map fun n =>
        (.index n, t.dropWhile Char.isDigit))
      ((Stencil.position? (u.takeWhile Char.isDigit)).map fun n =>
        (.index n, u.dropWhile Char.isDigit)) := by
  obtain ⟨htake, hdrop⟩ := h.digits
  rw [htake]
  cases Stencil.position? (u.takeWhile Char.isDigit) with
  | none => trivial
  | some n => exact ⟨trivial, hdrop⟩

theorem dotted? {t u : Text} (h : Alike t u) :
    Scans (fun _ _ => True) (Accessor.dotted? t) (Accessor.dotted? u) := by
  unfold Accessor.dotted?
  cases ht : Stencil.identifier? t with
  | none =>
      rw [h.identifier?.of_none ht]
      exact h.position?
  | some pair =>
      obtain ⟨name, rest, hu, -, hrest⟩ := h.identifier?.of_some ht
      rw [hu]
      exact ⟨trivial, hrest⟩

theorem inner? {t u : Text} (h : Alike t u) :
    Scans (fun _ _ => True) (Accessor.bracketed?.inner? t) (Accessor.bracketed?.inner? u) := by
  unfold Accessor.bracketed?.inner?
  cases ht : Quoted.read? t with
  | none =>
      rw [h.read?.of_none ht]
      exact h.position?
  | some pair =>
      obtain ⟨key, rest, hu, -, hrest⟩ := h.read?.of_some ht
      rw [hu]
      exact ⟨trivial, hrest⟩

theorem bracketed? {t u : Text} (h : Alike t u) :
    Scans (fun _ _ => True) (Accessor.bracketed? t) (Accessor.bracketed? u) := by
  unfold Accessor.bracketed?
  cases ht : Accessor.bracketed?.inner? (Text.trimStart t) with
  | none =>
      rw [h.trimStart.inner?.of_none ht]
      trivial
  | some pair =>
      obtain ⟨accessor, rest, hu, -, hrest⟩ := h.trimStart.inner?.of_some ht
      rw [hu]
      dsimp only
      exact .of_rel (hrest.trimStart.after? (by simp [Quoted.isQuote])) trivial

theorem scanAccessor {t u : Text} (h : Alike t u) :
    Scans (fun _ _ => True) (Accessor.scan? t) (Accessor.scan? u) := by
  cases t with
  | nil =>
      obtain rfl := h.nil_left
      trivial
  | cons c t =>
      obtain ⟨u, rfl, hn⟩ := h.cons_left
      by_cases hdot : c = '.'
      · subst hdot
        exact (cons_iff rfl |>.1 h).dotted?
      · by_cases hbracket : c = '['
        · subst hbracket
          exact (cons_iff rfl |>.1 h).bracketed?
        · have hnone : ∀ t, Accessor.scan? (c :: t) = none := by
            intro t
            unfold Accessor.scan?
            split
            · next he => exact absurd (List.cons.inj he).1 hdot
            · next he => exact absurd (List.cons.inj he).1 hbracket
            · rfl
          rw [hnone, hnone]
          trivial

theorem accessors {t u : Text} (h : Alike t u) :
    (Accessor.scanAll t).1.isEmpty = (Accessor.scanAll u).1.isEmpty ∧
      Alike (Accessor.scanAll t).2 (Accessor.scanAll u).2 := by
  fun_induction Accessor.scanAll t generalizing u with
  | case1 t ht =>
      have hu := h.scanAccessor.of_none ht
      rw [Accessor.scanAll]
      split
      · exact ⟨rfl, h⟩
      · next a rest hs =>
        rw [hu] at hs
        cases hs
  | case2 t a rest ht _ more rest' he ih =>
      obtain ⟨b, restU, hu, -, hrest⟩ := h.scanAccessor.of_some ht
      have htail := ih hrest
      rw [he] at htail
      rw [Accessor.scanAll]
      split
      · next hs =>
        rw [hu] at hs
        cases hs
      · next a' rest'' hs =>
        rw [hu] at hs
        cases hs
        exact ⟨rfl, htail.2⟩

theorem scanVariable {t u : Text} (h : Alike t u) :
    Scans (fun v w => v.root = w.root ∧ v.isPlain = w.isPlain) (Variable.scan? t)
      (Variable.scan? u) := by
  cases t with
  | nil =>
      obtain rfl := h.nil_left
      trivial
  | cons c t =>
      obtain ⟨u, rfl, hn⟩ := h.cons_left
      by_cases hdollar : c = '$'
      · subst hdollar
        have ht := cons_iff rfl |>.1 h
        cases hi : Stencil.identifier? t with
        | none =>
            simp only [Variable.scan?, hi, ht.identifier?.of_none hi, Option.map_none]
            trivial
        | some pair =>
            obtain ⟨root, rest, hu, hroot, hrest⟩ := ht.identifier?.of_some hi
            obtain ⟨hempty, halike⟩ := hrest.accessors
            simp only [Variable.scan?, hi, hu, Option.map_some]
            exact ⟨⟨hroot, hempty⟩, halike⟩
      · have hnone : ∀ t, Variable.scan? (c :: t) = none := by
          intro t
          unfold Variable.scan?
          split
          · next he => exact absurd (List.cons.inj he).1 hdollar
          · rfl
        rw [hnone, hnone]
        trivial

/-! ## Tokens -/

theorem numeral_of_point {t rest : Text} (h : t.dropWhile Char.isDigit = '.' :: rest) :
    Token.numeral t =
      if rest.takeWhile Char.isDigit = [] then (t.takeWhile Char.isDigit, '.' :: rest)
      else (t.takeWhile Char.isDigit ++ '.' :: rest.takeWhile Char.isDigit,
        rest.dropWhile Char.isDigit) := by
  unfold Token.numeral
  rw [h]
  rfl

theorem numeral_of_ne {t : Text} (h : ∀ rest, t.dropWhile Char.isDigit ≠ '.' :: rest) :
    Token.numeral t = (t.takeWhile Char.isDigit, t.dropWhile Char.isDigit) := by
  unfold Token.numeral
  split
  · next rest hr => exact absurd hr (h rest)
  · rfl

theorem numeral {t u : Text} (h : Alike t u) :
    (Token.numeral t).1 = (Token.numeral u).1 ∧ Alike (Token.numeral t).2 (Token.numeral u).2 := by
  obtain ⟨htake, hdrop⟩ := h.digits
  by_cases hpoint : ∃ rest, t.dropWhile Char.isDigit = '.' :: rest
  · obtain ⟨rest, ht⟩ := hpoint
    rw [ht] at hdrop
    obtain ⟨rest', hu, -⟩ := hdrop.cons_left
    rw [hu] at hdrop
    have hrest := cons_iff rfl |>.1 hdrop
    obtain ⟨hfraction, hafter⟩ := hrest.digits
    rw [numeral_of_point ht, numeral_of_point hu, ← htake, ← hfraction]
    split
    · exact ⟨rfl, hdrop⟩
    · exact ⟨rfl, hafter⟩
  · have ht : ∀ rest, t.dropWhile Char.isDigit ≠ '.' :: rest := fun rest he => hpoint ⟨rest, he⟩
    have hu : ∀ rest, u.dropWhile Char.isDigit ≠ '.' :: rest := by
      intro rest he
      rw [he] at hdrop
      obtain ⟨rest', he', -⟩ := hdrop.symm.cons_left
      exact ht rest' he'
    rw [numeral_of_ne ht, numeral_of_ne hu]
    exact ⟨htake, hdrop⟩

theorem symbol? {t u : Text} (h : Alike t u) : Scans Eq (Symbol.scan? t) (Symbol.scan? u) := by
  have hall : ∀ symbols : List Symbol, Scans Eq
      (symbols.findSome? fun s => (Text.after? s.spelling t).map fun rest => (s, rest))
      (symbols.findSome? fun s => (Text.after? s.spelling u).map fun rest => (s, rest)) := by
    intro symbols
    induction symbols with
    | nil => trivial
    | cons s symbols ih =>
        have hs : ∀ c ∈ s.spelling, Quoted.isQuote c = false := by
          cases s <;> simp [Symbol.spelling, Quoted.isQuote]
        have hafter := h.after? hs
        rw [List.findSome?_cons, List.findSome?_cons]
        revert hafter
        cases Text.after? s.spelling t <;> cases Text.after? s.spelling u <;> rintro ⟨⟩
        · exact ih
        · exact ⟨rfl, ‹_›⟩
  exact hall _

end Stencil.Template.Alike

namespace Stencil.Token

open Template Template.Alike

/-- Tokens that differ at most in what a literal holds or in a variable. -/
inductive Resembles : Token → Token → Prop
  | var (v w : Variable) : Resembles (.var v) (.var w)
  | string (t u : Text) : Resembles (.string t) (.string u)
  | same (token : Token) : Resembles token token

theorem scan?_of_alike {c : Char} {t u rest : Text} {token : Token} (h : Alike (c :: t) (c :: u))
    (ht : scan? c t = .ok (token, rest)) :
    ∃ token' rest', scan? c u = .ok (token', rest') ∧ Resembles token token' ∧
      Alike rest rest' := by
  unfold scan? at ht ⊢
  by_cases hdollar : c = '$'
  · rw [if_pos hdollar] at ht ⊢
    split at ht
    · next v r hv =>
      cases ht
      obtain ⟨w, rest', hw, -, hrest⟩ := h.scanVariable.of_some hv
      rw [hw]
      exact ⟨_, _, rfl, .var .., hrest⟩
    · cases ht
  rw [if_neg hdollar] at ht ⊢
  by_cases hquote : Quoted.isQuote c = true
  · rw [if_pos hquote] at ht ⊢
    split at ht
    · next text r hr =>
      cases ht
      obtain ⟨text', rest', hr', -, hrest⟩ := h.read?.of_some hr
      rw [hr']
      exact ⟨_, _, rfl, .string .., hrest⟩
    · cases ht
  rw [if_neg hquote] at ht ⊢
  rw [Bool.not_eq_true] at hquote
  have htail : Alike t u := (cons_iff hquote).1 h
  by_cases hdigit : c.isDigit = true
  · rw [if_pos hdigit] at ht ⊢
    cases ht
    obtain ⟨hdigits, hrest⟩ := h.numeral
    have hsame : Resembles (.number (literal (numeral (c :: t)).1))
        (.number (literal (numeral (c :: u)).1)) := by
      rw [hdigits]
      exact .same _
    exact ⟨_, _, rfl, hsame, hrest⟩
  rw [if_neg hdigit] at ht ⊢
  by_cases hopen : c = '('
  · rw [if_pos hopen] at ht ⊢
    cases ht
    exact ⟨_, _, rfl, .same _, htail⟩
  rw [if_neg hopen] at ht ⊢
  by_cases hclose : c = ')'
  · rw [if_pos hclose] at ht ⊢
    cases ht
    exact ⟨_, _, rfl, .same _, htail⟩
  rw [if_neg hclose] at ht ⊢
  by_cases hcomma : c = ','
  · rw [if_pos hcomma] at ht ⊢
    cases ht
    exact ⟨_, _, rfl, .same _, htail⟩
  rw [if_neg hcomma] at ht ⊢
  split at ht
  · next name r hi =>
    cases ht
    obtain ⟨name', rest', hi', rfl, hrest⟩ := h.identifier?.of_some hi
    rw [hi']
    exact ⟨_, _, rfl, .same _, hrest⟩
  · next hi =>
    rw [h.identifier?.of_none hi]
    split at ht
    · next s r hs =>
      cases ht
      obtain ⟨s', rest', hs', rfl, hrest⟩ := h.symbol?.of_some hs
      rw [hs']
      exact ⟨_, _, rfl, .same _, hrest⟩
    · cases ht

theorem lex_nil : lex [] = .ok [] := by
  rw [lex.eq_def]

theorem lex_cons (c : Char) (t : Text) :
    lex (c :: t) = if Text.isWhite c then lex t
      else match scan? c t with
        | .error fault => .error ⟨fault, c :: t⟩
        | .ok (token, rest) => (lex rest).map (token :: ·) := by
  rw [lex.eq_def]
  dsimp only
  split
  · rfl
  · split <;> rename_i hs <;> rw [hs]

theorem lex_cons_of_isWhite {c : Char} (hc : Text.isWhite c = true) (t : Text) :
    lex (c :: t) = lex t := by
  rw [lex_cons, if_pos hc]

theorem lex_cons_of_scan? {c : Char} {t rest : Text} {token : Token}
    (hc : Text.isWhite c = false) (h : scan? c t = .ok (token, rest)) :
    lex (c :: t) = (lex rest).map (token :: ·) := by
  rw [lex_cons, if_neg (by simp [hc]), h]

theorem lex_cons_eq_ok {c : Char} {t : Text} {tokens : List Token} (hc : Text.isWhite c = false)
    (h : lex (c :: t) = .ok tokens) : ∃ token rest more, scan? c t = .ok (token, rest) ∧
      lex rest = .ok more ∧ tokens = token :: more := by
  rw [lex_cons, if_neg (by simp [hc])] at h
  split at h
  · cases h
  · next token rest hs =>
    cases hmore : lex rest with
    | error fault =>
        rw [hmore] at h
        cases h
    | ok more =>
        rw [hmore] at h
        cases h
        exact ⟨token, rest, more, hs, hmore, rfl⟩

theorem lex_of_alike {t u : Text} {tokens : List Token} (h : Alike t u)
    (ht : lex t = .ok tokens) :
    ∃ tokens', lex u = .ok tokens' ∧ List.Forall₂ Resembles tokens tokens' := by
  fun_induction lex t generalizing u tokens with
  | case1 =>
      cases ht
      obtain rfl := h.nil_left
      exact ⟨[], by rw [lex.eq_def], .nil⟩
  | case2 c t hc ih =>
      obtain ⟨u, rfl, -⟩ := h.cons_left
      have hq := isQuote_of_class (p := Text.isWhite) (by decide) (by decide) hc
      rw [lex_cons_of_isWhite hc]
      exact ih ((cons_iff hq).1 h) ht
  | case3 c t hc fault hs => cases ht
  | case4 c t hc token rest hs _ ih =>
      obtain ⟨u, rfl, -⟩ := h.cons_left
      obtain ⟨token', rest', hs', hlike, hrest⟩ := scan?_of_alike h hs
      rw [Bool.not_eq_true] at hc
      cases hmore : lex rest with
      | error fault =>
          rw [hmore] at ht
          cases ht
      | ok more =>
          rw [hmore] at ht
          cases ht
          obtain ⟨more', hmore', hall⟩ := ih hrest hmore
          refine ⟨token' :: more', ?_, .cons hlike hall⟩
          rw [lex_cons_of_scan? hc hs', hmore']
          rfl

end Stencil.Token
