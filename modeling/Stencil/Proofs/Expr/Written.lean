import Stencil.Expr.Printer
import Stencil.Proofs.Expr.Fallback
import Stencil.Proofs.Text.Numerals

/-!
# Written expressions are read back

Every token that can be written is scanned back where white space or nothing
follows it, so the tokens of a written expression are its own.  The grammar
derives the expression from them, since every operand that is made of parts
stands in parentheses.
-/

namespace Stencil

/-! ## What can be written -/

def isIdentifier : Text → Bool
  | [] => false
  | c :: t => isIdentStart c && t.all isIdentPart

/-- Positions have 64 bits; any text is a key. -/
def Accessor.isWritable : Accessor → Bool
  | .key _ => true
  | .index n => decide (n < 0x10000000000000000)

def Variable.isWritable (v : Variable) : Bool :=
  isIdentifier v.root && v.accessors.all Accessor.isWritable

/-- Literals have no sign, and whole ones have 63 bits. -/
def Number.hasLiteral : Number → Bool
  | .int n => decide (0 ≤ n ∧ n < 0x8000000000000000)
  | .float _ => false

def Value.hasLiteral : Value → Bool
  | .null | .bool _ | .string _ => true
  | .number n => n.hasLiteral
  | .array _ | .object _ => false

def Token.isWritable : Token → Bool
  | .var v => v.isWritable
  | .word name => isIdentifier name
  | .number (.number n) => n.hasLiteral
  | .number _ => false
  | .string _ | .symbol _ | .leftParen | .rightParen | .comma => true

namespace Expr

mutual

def isWritable : Expr → Bool
  | .literal value => value.hasLiteral
  | .var v => v.isWritable
  | .not e => isWritable e
  | .neg e => isWritable e
  | .binary _ left right => isWritable left && isWritable right
  | .coalesce left right => isWritable left && isWritable right
  | .call f args =>
    areWritable args && f.accepts args.length && (f != .isset || args.all isVar)

def areWritable : List Expr → Bool
  | [] => true
  | e :: es => isWritable e && areWritable es

end

end Expr

/-! ## Tokens are scanned back -/

def Text.IsCut (rest : Text) : Prop := ∀ c ∈ rest.head?, isWhite c = true

namespace Text.IsCut

variable {rest : Text}

theorem eq_false_of_head? (h : IsCut rest) {p : Char → Bool}
    (hp : ∀ c, p c = true → isWhite c = false) : ∀ c ∈ rest.head?, p c = false := by
  intro c hc
  rw [Bool.eq_false_iff]
  intro hpc
  have hw := h c hc
  rw [hp c hpc] at hw
  cases hw

theorem ne_of_head? (h : IsCut rest) (mark : Char) (hmark : isWhite mark = false) :
    ∀ c ∈ rest.head?, c ≠ mark := by
  rintro c hc rfl
  have hw := h c hc
  rw [hmark] at hw
  cases hw

end Text.IsCut

open Text (IsCut)

theorem identifier?_append_of_isIdentifier {name rest : Text} (h : isIdentifier name = true)
    (hrest : ∀ c ∈ rest.head?, isIdentPart c = false) :
    identifier? (name ++ rest) = some (name, rest) := by
  cases name with
  | nil => cases h
  | cons c t =>
      simp only [isIdentifier, Bool.and_eq_true, List.all_eq_true] at h
      obtain ⟨htake, hdrop⟩ := Text.span_append_of_head? h.2 hrest
      rw [List.cons_append, identifier?, if_pos h.1, htake, hdrop]

namespace Accessor

theorem scan?_writeAccessor_append {a : Accessor} (h : a.isWritable = true) (rest : Text) :
    scan? (Variable.writeAccessor a ++ rest) = some (a, rest) := by
  cases a with
  | key name =>
      have hquote : Variable.writeAccessor (.key name) ++ rest =
          '[' :: (Quoted.quote name ++ ']' :: rest) := by simp [Variable.writeAccessor]
      have htrim : Text.trimStart (Quoted.quote name ++ ']' :: rest) =
          Quoted.quote name ++ ']' :: rest := rfl
      rw [hquote, scan?, bracketed?, htrim, bracketed?.inner?, Quoted.read?_quote_append]
      rfl
  | index n =>
      have hdigits : Variable.writeAccessor (.index n) ++ rest =
          '[' :: (Text.ofNat n ++ ']' :: rest) := by simp [Variable.writeAccessor]
      obtain ⟨c, t, hc⟩ := List.exists_cons_of_ne_nil (Text.ofNat_ne_nil n)
      have hdigit := Text.isDigit_of_mem_ofNat (n := n) (c := c) (by simp [hc])
      have htrim : Text.trimStart (Text.ofNat n ++ ']' :: rest) =
          Text.ofNat n ++ ']' :: rest := by
        simp [hc, Text.trimStart, not_isWhite_of_isDigit hdigit]
      have hquote := Template.Alike.isQuote_of_class (p := Char.isDigit) rfl rfl hdigit
      have hread : Quoted.read? (Text.ofNat n ++ ']' :: rest) = none := by
        simp [hc, Quoted.read?, hquote]
      have hend : ∀ d ∈ (']' :: rest).head?, d.isDigit = false := by simp
      obtain ⟨htake, hdrop⟩ := Text.digits_ofNat_append n hend
      rw [hdigits, scan?, bracketed?, htrim, bracketed?.inner?, hread]
      dsimp only
      rw [htake, hdrop, position?_ofNat (of_decide_eq_true h)]
      rfl

theorem scanAll_of_scan? {t rest : Text} {a : Accessor} (h : scan? t = some (a, rest)) :
    scanAll t = (a :: (scanAll rest).1, (scanAll rest).2) := by
  rw [scanAll]
  split
  · next hs =>
    rw [hs] at h
    cases h
  · next hs =>
    rw [hs] at h
    cases h
    rfl

theorem scanAll_of_scan?_eq_none {t : Text} (h : scan? t = none) : scanAll t = ([], t) := by
  rw [scanAll]
  split
  · rfl
  · next hs =>
    rw [hs] at h
    cases h

theorem scanAll_flatMap_append {as : List Accessor} (h : as.all isWritable = true) {rest : Text}
    (hrest : scan? rest = none) :
    scanAll (as.flatMap Variable.writeAccessor ++ rest) = (as, rest) := by
  induction as with
  | nil => exact scanAll_of_scan?_eq_none hrest
  | cons a as ih =>
      simp only [List.all_cons, Bool.and_eq_true] at h
      rw [List.flatMap_cons, List.append_assoc,
        scanAll_of_scan? (scan?_writeAccessor_append h.1 _), ih h.2]

end Accessor

theorem Variable.scan?_write_append {v : Variable} (h : v.isWritable = true) {rest : Text}
    (hpart : ∀ c ∈ rest.head?, isIdentPart c = false) (hrest : Accessor.scan? rest = none) :
    scan? (v.write ++ rest) = some (v, rest) := by
  obtain ⟨root, accessors⟩ := v
  simp only [isWritable, Bool.and_eq_true] at h
  have hnext : ∀ c ∈ (accessors.flatMap writeAccessor ++ rest).head?, isIdentPart c = false := by
    cases accessors with
    | nil => exact hpart
    | cons a accessors =>
        have hbracket : ∀ c ∈ ['['], isIdentPart c = false := by
          intro c hc
          rw [List.mem_singleton.1 hc]
          rfl
        cases a <;> simpa [writeAccessor] using hbracket
  rw [write, List.cons_append, List.cons_append, List.append_assoc, scan?,
    identifier?_append_of_isIdentifier h.1 hnext, Option.map_some]
  dsimp only
  rw [Accessor.scanAll_flatMap_append h.2 hrest]

theorem Accessor.scan?_of_isCut {rest : Text} (h : IsCut rest) : scan? rest = none := by
  unfold scan?
  split
  · exact absurd (h '.' rfl) (by decide)
  · exact absurd (h '[' rfl) (by decide)
  · rfl

theorem Symbol.scan?_spelling_append (s : Symbol) {rest : Text} (h : IsCut rest) :
    scan? (s.spelling ++ rest) = some (s, rest) := by
  -- a longer symbol goes on with an equals sign
  have hequals := h.ne_of_head? '=' (by decide)
  cases rest with
  | nil => cases s <;> rfl
  | cons c rest =>
      have hne : '=' ≠ c := Ne.symm (hequals c rfl)
      cases s <;> simp [scan?, all, spelling, Text.after?, hne]

namespace Token

theorem ne_of_class {p : Char → Bool} {c : Char} (mark : Char) (hmark : p mark = false)
    (hc : p c = true) : c ≠ mark := by
  rintro rfl
  rw [hmark] at hc
  cases hc

theorem not_isDigit_of_isIdentStart {c : Char} (h : isIdentStart c = true) :
    c.isDigit = false := by
  rw [isIdentStart_iff, isAlpha_iff] at h
  rw [Bool.eq_false_iff, ne_eq, Char.isDigit_iff_toNat]
  rcases h with h | rfl
  · simp
    omega
  · simp

theorem scan?_of_isDigit {c : Char} (h : c.isDigit = true) (t : Text) :
    scan? c t = .ok (.number (literal (numeral (c :: t)).1), (numeral (c :: t)).2) := by
  have hdollar := ne_of_class (p := Char.isDigit) '$' rfl h
  have hquote := Template.Alike.isQuote_of_class (p := Char.isDigit) rfl rfl h
  rw [scan?, if_neg hdollar, if_neg (by simp [hquote]), if_pos h]

theorem scan?_of_identifier? {c : Char} {t name rest : Text}
    (h : identifier? (c :: t) = some (name, rest)) : scan? c t = .ok (.word name, rest) := by
  have hc : isIdentStart c = true := by
    by_contra hn
    rw [identifier?, if_neg hn] at h
    cases h
  have hdollar := ne_of_class (p := isIdentStart) '$' rfl hc
  have hquote := Template.Alike.isQuote_of_class (p := isIdentStart) rfl rfl hc
  have hdigit := not_isDigit_of_isIdentStart hc
  have hleft := ne_of_class (p := isIdentStart) '(' rfl hc
  have hright := ne_of_class (p := isIdentStart) ')' rfl hc
  have hcomma := ne_of_class (p := isIdentStart) ',' rfl hc
  rw [scan?, if_neg hdollar, if_neg (by simp [hquote]), if_neg (by simp [hdigit]), if_neg hleft,
    if_neg hright, if_neg hcomma, h]

theorem scan?_symbol {s : Symbol} {c : Char} {t rest : Text} (h : s.spelling = c :: t)
    (hrest : IsCut rest) : scan? c (t ++ rest) = .ok (.symbol s, rest) := by
  have hs := s.scan?_spelling_append hrest
  rw [h, List.cons_append] at hs
  generalize t ++ rest = u at hs ⊢
  have hname : identifier? (c :: u) = none := by
    cases s <;> cases h <;> rfl
  have hother : c ≠ '$' ∧ Quoted.isQuote c = false ∧ c.isDigit = false ∧ c ≠ '(' ∧ c ≠ ')' ∧
      c ≠ ',' := by
    cases s <;> cases h <;> decide
  obtain ⟨hdollar, hquote, hdigit, hleft, hright, hcomma⟩ := hother
  rw [scan?, if_neg hdollar, if_neg (by simp [hquote]), if_neg (by simp [hdigit]), if_neg hleft,
    if_neg hright, if_neg hcomma, hname, hs]

theorem exists_nat_of_isWritable {value : Value} (h : isWritable (.number value) = true) :
    ∃ n : Nat, n < 0x8000000000000000 ∧ value = .ofInt n := by
  cases value with
  | number x =>
      cases x with
      | int n =>
          obtain ⟨hzero, hlt⟩ := of_decide_eq_true h
          obtain ⟨n, rfl⟩ := Int.eq_ofNat_of_zero_le hzero
          exact ⟨n, by omega, rfl⟩
      | float x => cases h
  | null | bool | string | array | object => cases h

theorem lex_write_append {token : Token} (h : token.isWritable = true) {rest : Text}
    (hrest : IsCut rest) : lex (token.write ++ rest) = (lex rest).map (token :: ·) := by
  have hpart := hrest.eq_false_of_head? fun _ => not_isWhite_of_isIdentPart
  cases token with
  | var v =>
      have hv := Variable.scan?_write_append h hpart (Accessor.scan?_of_isCut hrest)
      change lex (v.write ++ rest) = _
      rw [Variable.write, List.cons_append, List.cons_append] at hv ⊢
      refine lex_cons_of_scan? rfl ?_
      rw [scan?, if_pos rfl, hv]
  | word name =>
      have hname := identifier?_append_of_isIdentifier h hpart
      cases name with
      | nil => cases h
      | cons c t =>
          simp only [isWritable, isIdentifier, Bool.and_eq_true] at h
          exact lex_cons_of_scan? (not_isWhite_of_isIdentPart (isIdentPart_of_isIdentStart h.1))
            (scan?_of_identifier? hname)
  | string t =>
      have ht := Quoted.read?_quote_append t rest
      change lex (Quoted.quote t ++ rest) = _
      rw [Quoted.quote, List.cons_append, List.cons_append] at ht ⊢
      refine lex_cons_of_scan? rfl ?_
      rw [scan?, if_neg (by decide), if_pos (by decide), ht]
  | number value =>
      obtain ⟨n, hn, rfl⟩ := exists_nat_of_isWritable h
      have hdigit := hrest.eq_false_of_head? fun _ => not_isWhite_of_isDigit
      have hpoint := hrest.ne_of_head? '.' rfl
      have hnumeral := numeral_ofNat_append n fun c hc => ⟨hdigit c hc, hpoint c hc⟩
      obtain ⟨c, t, hc⟩ := List.exists_cons_of_ne_nil (Text.ofNat_ne_nil n)
      have hfirst := Text.isDigit_of_mem_ofNat (n := n) (c := c) (by simp [hc])
      change lex (Text.ofNat n ++ rest) = _
      rw [hc, List.cons_append] at hnumeral ⊢
      rw [lex_cons_of_scan? (not_isWhite_of_isDigit hfirst) (scan?_of_isDigit hfirst _), hnumeral,
        ← hc, literal_ofNat hn]
  | symbol s =>
      obtain ⟨c, t, hs⟩ := List.exists_cons_of_ne_nil s.spelling_ne_nil
      have hwhite : Text.isWhite c = false := by
        cases s <;> cases hs <;> rfl
      rw [write, hs, List.cons_append]
      exact lex_cons_of_scan? hwhite (scan?_symbol hs hrest)
  | leftParen => exact lex_cons_of_scan? rfl rfl
  | rightParen => exact lex_cons_of_scan? rfl rfl
  | comma => exact lex_cons_of_scan? rfl rfl

theorem lex_join_write {tokens : List Token} (h : tokens.all isWritable = true) :
    lex (Text.join [' '] (tokens.map write)) = .ok tokens := by
  induction tokens with
  | nil => exact lex_nil
  | cons token tokens ih =>
      rw [List.all_cons, Bool.and_eq_true] at h
      obtain ⟨hfirst, hmore⟩ := h
      cases tokens with
      | nil =>
          have hcut : IsCut [] := by simp [IsCut]
          have hlast := lex_write_append hfirst hcut
          rw [List.append_nil, lex_nil] at hlast
          exact hlast
      | cons next tokens =>
          have hspace : IsCut (' ' :: Text.join [' '] ((next :: tokens).map write)) := by
            simp [IsCut, Text.isWhite]
          rw [List.map_cons, List.map_cons, Text.join, List.append_assoc, List.singleton_append,
            ← List.map_cons, lex_write_append hfirst hspace, lex_cons_of_isWhite rfl, ih hmore]
          · rfl
          · simp

end Token

/-! ## The tokens of an expression -/

namespace Expr

theorem isWritable_token {value : Value} (h : value.hasLiteral = true) :
    value.token.isWritable = true := by
  cases value with
  | null => rfl
  | bool b => cases b <;> rfl
  | number n => exact h
  | string t => rfl
  | array | object => cases h

theorem isOperand_token {value : Value} (h : value.hasLiteral = true) :
    IsOperand [value.token] (.literal value) := by
  cases value with
  | null => exact .constant rfl
  | bool b => cases b <;> exact .constant rfl
  | number n => exact .number _
  | string t => exact .string t
  | array | object => cases h

@[simp] theorem all_isWritable_grouped (compound : Bool) (tokens : List Token) :
    (grouped compound tokens).all Token.isWritable = tokens.all Token.isWritable := by
  cases compound with
  | false => rfl
  | true => simp [grouped, Token.isWritable]

theorem IsLevel.mono {inner level : Nat} {tokens : List Token} {e : Expr}
    (h : IsLevel inner tokens e) (hle : inner ≤ level) : IsLevel level tokens e := by
  induction hle with
  | refl => exact h
  | step _ ih => exact .inner ih

theorem IsOperand.joined {op : BinaryOp} {before after : List Token} {left right : Expr}
    (hl : IsOperand before left) (hr : IsOperand after right) :
    IsExpr (before ++ .symbol op.symbol :: after) (.binary op left right) := by
  obtain ⟨inner, hinner⟩ : ∃ inner, op.level = inner + 1 := by
    cases op <;> exact ⟨_, rfl⟩
  have hop : Token.opAt? (inner + 1) (.symbol op.symbol) = some op := by
    simp [Token.opAt?, Token.binaryOp?, hinner]
  have hlevel : IsLevel (inner + 1) (before ++ .symbol op.symbol :: after)
      (.binary op left right) := by
    cases hc : BinaryOp.chains (inner + 1) with
    | true => exact .chained hc (hl.isLevel _) hop (hr.isLevel _)
    | false => exact .unchained hc (hl.isLevel _) hop (hr.isLevel _)
  have hle : inner + 1 ≤ BinaryOp.outermost := by
    rw [← hinner]
    cases op <;> decide
  exact .single (hlevel.mono hle)

theorem IsOperand.coalesced {before after : List Token} {left right : Expr}
    (hl : IsOperand before left) (hr : IsOperand after right) :
    IsExpr (before ++ .symbol .coalesce :: after) (.coalesce left right) :=
  .coalesce (hl.isLevel _) hr.isExpr

theorem IsOperand.signed {tokens : List Token} {e : Expr} (h : IsOperand tokens e) :
    IsExpr (.symbol .not :: tokens) (.not e) ∧ IsExpr (.symbol .minus :: tokens) (.neg e) := by
  have hsigned : IsSigned tokens e := .operand h
  have hlevel := Nat.zero_le BinaryOp.outermost
  exact ⟨.single (IsLevel.mono (.signed (.not hsigned)) hlevel),
    .single (IsLevel.mono (.signed (.neg hsigned)) hlevel)⟩

theorem IsExpr.isOperand {tokens : List Token} {e : Expr} (he : e.isCompound = false)
    (h : IsExpr tokens e) : IsOperand tokens e := by
  have hjoined : e.isUnjoined = true := by
    cases e with
    | literal | var | call => rfl
    | not | neg | binary | coalesce => cases he
  cases h with
  | single h => exact h.isOperand hjoined
  | coalesce => cases he

theorem IsExpr.isOperand_grouped {e : Expr} (h : IsExpr e.tokens e) :
    IsOperand (grouped e.isCompound e.tokens) e := by
  cases he : e.isCompound with
  | true => exact .group h
  | false => exact h.isOperand he

mutual

theorem all_isWritable_tokens {e : Expr} (h : e.isWritable = true) :
    e.tokens.all Token.isWritable = true := by
  cases e with
  | literal value => simpa [tokens] using isWritable_token h
  | var v => simpa [tokens, Token.isWritable, isWritable] using h
  | not e => simpa [tokens, Token.isWritable] using all_isWritable_tokens (e := e) h
  | neg e => simpa [tokens, Token.isWritable] using all_isWritable_tokens (e := e) h
  | binary op left right =>
      simp only [isWritable, Bool.and_eq_true] at h
      simp [tokens, Token.isWritable, all_isWritable_tokens h.1, all_isWritable_tokens h.2]
  | coalesce left right =>
      simp only [isWritable, Bool.and_eq_true] at h
      simp [tokens, Token.isWritable, all_isWritable_tokens h.1, all_isWritable_tokens h.2]
  | call f args =>
      simp only [isWritable, Bool.and_eq_true] at h
      have hname : isIdentifier f.spelling = true := by
        cases f <;> decide
      simp [tokens, Token.isWritable, hname, all_isWritable_argumentTokens h.1.1]

theorem all_isWritable_argumentTokens {args : List Expr} (h : areWritable args = true) :
    (argumentTokens args).all Token.isWritable = true := by
  cases args with
  | nil => rfl
  | cons e es =>
      simp only [areWritable, Bool.and_eq_true] at h
      have hfirst := all_isWritable_tokens h.1
      have hmore := all_isWritable_argumentTokens h.2
      cases es with
      | nil => exact hfirst
      | cons next es => simp [argumentTokens, Token.isWritable, hfirst, hmore]

end

mutual

theorem isExpr_tokens {e : Expr} (h : e.isWritable = true) : IsExpr e.tokens e := by
  cases e with
  | literal value => exact (isOperand_token h).isExpr
  | var v => exact (IsOperand.var v).isExpr
  | not e => exact (isExpr_tokens (e := e) h).isOperand_grouped.signed.1
  | neg e => exact (isExpr_tokens (e := e) h).isOperand_grouped.signed.2
  | binary op left right =>
      simp only [isWritable, Bool.and_eq_true] at h
      exact (isExpr_tokens h.1).isOperand_grouped.joined (isExpr_tokens h.2).isOperand_grouped
  | coalesce left right =>
      simp only [isWritable, Bool.and_eq_true] at h
      exact (isExpr_tokens h.1).isOperand_grouped.coalesced (isExpr_tokens h.2).isOperand_grouped
  | call f args =>
      simp only [isWritable, Bool.and_eq_true, Bool.or_eq_true, bne_iff_ne] at h
      obtain ⟨⟨hargs, hcount⟩, hvars⟩ := h
      have hisset : f = .isset → args.all isVar = true := fun hf =>
        hvars.resolve_left fun hne => hne hf
      exact (IsOperand.call (areArguments_argumentTokens hargs) hcount hisset).isExpr

theorem areArguments_argumentTokens {args : List Expr} (h : areWritable args = true) :
    AreArguments (argumentTokens args) args := by
  cases args with
  | nil => exact .none
  | cons e es =>
      simp only [areWritable, Bool.and_eq_true] at h
      have hfirst := isExpr_tokens h.1
      have hmore := areArguments_argumentTokens h.2
      cases es with
      | nil => exact .last hfirst
      | cons next es => exact .more hfirst hmore

end

theorem parse_write {e : Expr} (h : e.isWritable = true) : parse e.write = .ok e :=
  parse_eq_ok_iff.2 ⟨e.tokens, Token.lex_join_write (all_isWritable_tokens h), isExpr_tokens h⟩

def nestedWritten : Expr :=
  .coalesce
    (.binary .lt
      (.binary .sub (.literal (.ofInt 9223372036854775807))
        (.neg (.var ⟨"x".toList, [.key "it's\\".toList, .index 18446744073709551615]⟩)))
      (.call .implode [.literal (.string ", ".toList), .var ⟨"_y2".toList, []⟩]))
    (.not (.binary .or (.literal .null) (.call .isset [.var ⟨"z".toList, []⟩])))

theorem parse_write_nestedWritten :
    nestedWritten.isWritable = true ∧
      nestedWritten.write =
        ("( ( 9223372036854775807 - ( - $x['it\\'s\\\\'][18446744073709551615] ) ) < " ++
          "implode ( ', ' , $_y2 ) ) ?? ( ! ( null || isset ( $z ) ) )").toList ∧
      parse nestedWritten.write = .ok nestedWritten := by
  have h : nestedWritten.isWritable = true := by decide
  exact ⟨h, by decide +kernel, parse_write h⟩

end Expr

end Stencil
