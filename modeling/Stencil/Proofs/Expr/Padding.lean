import Stencil.Proofs.Expr.Transfer
import Stencil.Proofs.Template.Closed

/-!
# White space behind a text

White space that comes last in a text ends no token and starts none.  A scan of
the text with it behind finds what a scan of the text without it finds, and
leaves what that leaves with the white space behind it.
-/

namespace Stencil

theorem isUpper_iff {c : Char} : c.isUpper = true ↔ 65 ≤ c.toNat ∧ c.toNat ≤ 90 :=
  decide_eq_true_iff

theorem isLower_iff {c : Char} : c.isLower = true ↔ 97 ≤ c.toNat ∧ c.toNat ≤ 122 :=
  Bool.and_eq_true_iff.trans (and_congr decide_eq_true_iff decide_eq_true_iff)

theorem isAlpha_iff {c : Char} : c.isAlpha = true ↔
    (65 ≤ c.toNat ∧ c.toNat ≤ 90) ∨ (97 ≤ c.toNat ∧ c.toNat ≤ 122) :=
  Bool.or_eq_true_iff.trans (or_congr isUpper_iff isLower_iff)

theorem isIdentStart_iff {c : Char} : isIdentStart c = true ↔ c.isAlpha = true ∨ c = '_' := by
  rw [isIdentStart, Bool.or_eq_true, beq_iff_eq]

theorem isIdentPart_iff {c : Char} : isIdentPart c = true ↔
    (c.isAlpha = true ∨ c.isDigit = true) ∨ c = '_' := by
  rw [isIdentPart, Bool.or_eq_true, beq_iff_eq]
  exact or_congr_left Bool.or_eq_true_iff

theorem not_isWhite_of_isIdentPart {c : Char} (h : isIdentPart c = true) :
    Text.isWhite c = false := by
  rw [isIdentPart_iff, isAlpha_iff, Char.isDigit_iff_toNat] at h
  rw [Bool.eq_false_iff]
  intro hw
  simp only [Text.isWhite, Bool.or_eq_true, Bool.and_eq_true, decide_eq_true_eq, beq_iff_eq] at hw
  rcases h with h | rfl
  · simp at h
    omega
  · simp at hw

theorem not_isWhite_of_isDigit {c : Char} (h : c.isDigit = true) : Text.isWhite c = false :=
  not_isWhite_of_isIdentPart (isIdentPart_iff.2 (Or.inl (Or.inr h)))

theorem isIdentPart_of_isIdentStart {c : Char} (h : isIdentStart c = true) :
    isIdentPart c = true := by
  rw [isIdentStart_iff] at h
  exact isIdentPart_iff.2 (h.imp_left Or.inl)

def behind {α : Type} (tail : Text) (found : α × Text) : α × Text := (found.1, found.2 ++ tail)

variable {tail : Text}

namespace Text

theorem span_append {p : Char → Bool} (hp : ∀ c, p c = true → isWhite c = false)
    (htail : IsBlank tail) (t : Text) :
    (t ++ tail).takeWhile p = t.takeWhile p ∧
      (t ++ tail).dropWhile p = t.dropWhile p ++ tail := by
  induction t with
  | nil =>
      cases tail with
      | nil => exact ⟨rfl, rfl⟩
      | cons c tail =>
          have hw := htail c List.mem_cons_self
          have hc : p c = false := by
            rw [Bool.eq_false_iff]
            intro hc
            rw [hp c hc] at hw
            cases hw
          simp [hc]
  | cons c t ih =>
      cases hc : p c with
      | false => simp [hc]
      | true => simpa [hc] using ih

theorem digits_append (htail : IsBlank tail) (t : Text) :
    (t ++ tail).takeWhile Char.isDigit = t.takeWhile Char.isDigit ∧
      (t ++ tail).dropWhile Char.isDigit = t.dropWhile Char.isDigit ++ tail :=
  span_append (fun _ => not_isWhite_of_isDigit) htail t

theorem trimStart_append_of_ne_nil {t : Text} (h : trimStart t ≠ []) :
    trimStart (t ++ tail) = trimStart t ++ tail := by
  rw [trimStart, List.dropWhile_append, if_neg (by simpa [trimStart] using h), trimStart]

theorem trimStart_append_eq_nil_iff (htail : IsBlank tail) {t : Text} :
    trimStart (t ++ tail) = [] ↔ trimStart t = [] := by
  constructor
  · intro h
    by_contra hne
    rw [trimStart_append_of_ne_nil hne, List.append_eq_nil_iff] at h
    exact hne h.1
  · intro h
    rw [trimStart, List.dropWhile_eq_nil_iff] at h ⊢
    intro c hc
    rcases List.mem_append.1 hc with hc | hc
    · exact h c hc
    · exact htail c hc

theorem after?_append_of_isBlank (htail : IsBlank tail) {mark : Text}
    (hm : ∀ c ∈ mark, isWhite c = false) (t : Text) :
    after? mark (t ++ tail) = (after? mark t).map (· ++ tail) := by
  induction mark generalizing t with
  | nil => simp [after?]
  | cons p mark ih =>
      have hp := hm p List.mem_cons_self
      cases t with
      | nil =>
          cases tail with
          | nil => rfl
          | cons c tail =>
              have hw := htail c List.mem_cons_self
              have hne : p ≠ c := by
                rintro rfl
                rw [hp] at hw
                cases hw
              simp [after?, hne]
      | cons c t =>
          by_cases hc : p = c
          · simpa [after?, hc] using ih (fun d hd => hm d (List.mem_cons_of_mem _ hd)) t
          · simp [after?, hc]

end Text

open Text (IsBlank)
open Template.Alike (numeral_of_point numeral_of_ne)

/-! ## Names and literals -/

theorem identifier?_append (htail : IsBlank tail) (t : Text) :
    identifier? (t ++ tail) = (identifier? t).map (behind tail) := by
  cases t with
  | nil =>
      cases tail with
      | nil => rfl
      | cons c tail =>
          have hc : isIdentStart c ≠ true := by
            intro hc
            have hw := htail c List.mem_cons_self
            rw [not_isWhite_of_isIdentPart (isIdentPart_of_isIdentStart hc)] at hw
            cases hw
          simp [identifier?, hc]
  | cons c t =>
      obtain ⟨htake, hdrop⟩ := Text.span_append (fun _ => not_isWhite_of_isIdentPart) htail t
      by_cases hc : isIdentStart c = true
      · simp [identifier?, hc, htake, hdrop, behind]
      · simp [identifier?, hc]

namespace Quoted

theorem readBody?_of_isBlank {quote : Char} (hq : isQuote quote = true) (htail : IsBlank tail) :
    readBody? quote tail = none := by
  have hquote := Template.Quoting.isPlain_of_isBlank htail
  fun_induction readBody? quote tail with
  | case1 => rfl
  | case2 c rest ih => exact absurd rfl (hquote '\\' List.mem_cons_self).2
  | case3 rest =>
      rw [(hquote quote List.mem_cons_self).1] at hq
      cases hq
  | case4 c rest _ _ ih =>
      rw [ih (fun d hd => htail d (List.mem_cons_of_mem _ hd))
        fun d hd => hquote d (List.mem_cons_of_mem _ hd)]
      rfl

theorem readBody?_append {quote : Char} (hq : isQuote quote = true) (htail : IsBlank tail)
    (t : Text) : readBody? quote (t ++ tail) = (readBody? quote t).map (behind tail) := by
  have hb := Template.Quoting.ne_backslash_of_isQuote hq
  fun_induction readBody? quote t with
  | case1 => exact readBody?_of_isBlank hq htail
  | case2 c rest ih =>
      rw [List.cons_append, List.cons_append, readBody?, ih]
      cases readBody? quote rest <;> rfl
  | case3 rest =>
      rw [List.cons_append, readBody?, if_pos rfl]
      · rfl
      · rintro d r rfl
        exact absurd rfl hb
  | case4 c rest hshape hc ih =>
      by_cases hend : c = '\\' ∧ rest = []
      · obtain ⟨rfl, rfl⟩ := hend
        cases tail with
        | nil => simp [readBody?, hc]
        | cons d tail =>
            have hrest := readBody?_of_isBlank hq fun d hd => htail d (List.mem_cons_of_mem _ hd)
            simp [readBody?, hrest]
      · rw [List.cons_append, readBody?, if_neg hc, ih]
        · cases readBody? quote rest <;> rfl
        · rintro d r rfl he
          cases rest with
          | nil => exact hend ⟨rfl, rfl⟩
          | cons d' r' => exact hshape d' r' rfl rfl

theorem read?_append (htail : IsBlank tail) (t : Text) :
    read? (t ++ tail) = (read? t).map (behind tail) := by
  cases t with
  | nil =>
      cases tail with
      | nil => rfl
      | cons c tail =>
          have hc := (Template.Quoting.isPlain_of_isBlank htail c List.mem_cons_self).1
          simp [read?, hc]
  | cons c t =>
      by_cases hc : isQuote c = true
      · simpa [read?, hc] using readBody?_append hc htail t
      · simp [read?, hc]

end Quoted

/-! ## Variables -/

namespace Accessor

theorem index_append (htail : IsBlank tail) (t : Text) :
    ((position? ((t ++ tail).takeWhile Char.isDigit)).map fun n =>
        (index n, (t ++ tail).dropWhile Char.isDigit)) =
      ((position? (t.takeWhile Char.isDigit)).map fun n =>
        (index n, t.dropWhile Char.isDigit)).map (behind tail) := by
  obtain ⟨htake, hdrop⟩ := Text.digits_append htail t
  rw [htake, hdrop, Option.map_map]
  rfl

theorem dotted?_append (htail : IsBlank tail) (t : Text) :
    dotted? (t ++ tail) = (dotted? t).map (behind tail) := by
  unfold dotted?
  rw [identifier?_append htail]
  cases identifier? t with
  | none => exact index_append htail t
  | some found => rfl

theorem inner?_append (htail : IsBlank tail) (t : Text) :
    bracketed?.inner? (t ++ tail) = (bracketed?.inner? t).map (behind tail) := by
  unfold bracketed?.inner?
  rw [Quoted.read?_append htail]
  cases Quoted.read? t with
  | none => exact index_append htail t
  | some found => rfl

theorem bracketed?_append (htail : IsBlank tail) (t : Text) :
    bracketed? (t ++ tail) = (bracketed? t).map (behind tail) := by
  unfold bracketed?
  by_cases ht : Text.trimStart t = []
  · rw [ht, (Text.trimStart_append_eq_nil_iff htail).2 ht]
    rfl
  · rw [Text.trimStart_append_of_ne_nil ht, inner?_append htail]
    cases bracketed?.inner? (Text.trimStart t) with
    | none => rfl
    | some found =>
        obtain ⟨accessor, rest⟩ := found
        dsimp only [Option.map_some, behind]
        by_cases hrest : Text.trimStart rest = []
        · rw [hrest, (Text.trimStart_append_eq_nil_iff htail).2 hrest]
          rfl
        · have hmark : ∀ c ∈ [']'], Text.isWhite c = false := by
            intro c hc
            rw [List.mem_singleton.1 hc]
            rfl
          rw [Text.trimStart_append_of_ne_nil hrest, Text.after?_append_of_isBlank htail hmark,
            Option.map_map, Option.map_map]
          rfl

theorem scan?_append (htail : IsBlank tail) (t : Text) :
    scan? (t ++ tail) = (scan? t).map (behind tail) := by
  cases t with
  | nil =>
      cases tail with
      | nil => rfl
      | cons c tail =>
          have hw := htail c List.mem_cons_self
          unfold scan?
          split
          · next he =>
            cases he
            cases hw
          · next he =>
            cases he
            cases hw
          · rfl
  | cons c t =>
      by_cases hdot : c = '.'
      · subst hdot
        exact dotted?_append htail t
      by_cases hbracket : c = '['
      · subst hbracket
        exact bracketed?_append htail t
      · simp [scan?, hdot, hbracket]

theorem scanAll_append (htail : IsBlank tail) (t : Text) :
    scanAll (t ++ tail) = behind tail (scanAll t) := by
  fun_induction scanAll t with
  | case1 t ht =>
      have hnone := scan?_append htail t
      rw [ht] at hnone
      rw [scanAll]
      split
      · rfl
      · next hs =>
        rw [hnone] at hs
        cases hs
  | case2 t a rest ht _ more rest' he ih =>
      have hsome := scan?_append htail t
      rw [ht] at hsome
      rw [he] at ih
      rw [scanAll]
      split
      · next hs =>
        rw [hsome] at hs
        cases hs
      · next hs =>
        rw [hsome] at hs
        cases hs
        rw [ih]
        rfl

end Accessor

theorem Variable.scan?_append (htail : IsBlank tail) (t : Text) :
    scan? (t ++ tail) = (scan? t).map (behind tail) := by
  cases t with
  | nil =>
      cases tail with
      | nil => rfl
      | cons c tail =>
          have hw := htail c List.mem_cons_self
          unfold scan?
          split
          · next he =>
            cases he
            cases hw
          · rfl
  | cons c t =>
      by_cases hdollar : c = '$'
      · subst hdollar
        rw [List.cons_append, scan?, scan?, identifier?_append htail, Option.map_map,
          Option.map_map]
        congr 1
        funext found
        simp [behind, Accessor.scanAll_append htail]
      · simp [scan?, hdollar]

/-! ## Tokens -/

theorem Symbol.scan?_append (htail : IsBlank tail) (t : Text) :
    scan? (t ++ tail) = (scan? t).map (behind tail) := by
  have hall (s : Symbol) : (s.spelling.all fun c => !Text.isWhite c) = true := by
    cases s <;> rfl
  have hwhite (s : Symbol) : ∀ c ∈ s.spelling, Text.isWhite c = false := by
    simpa using hall s
  unfold scan?
  induction all with
  | nil => rfl
  | cons s symbols ih =>
      rw [List.findSome?_cons, List.findSome?_cons, ih,
        Text.after?_append_of_isBlank htail (hwhite s)]
      cases Text.after? s.spelling t <;> rfl

namespace Token

theorem numeral_append (htail : IsBlank tail) (t : Text) :
    numeral (t ++ tail) = behind tail (numeral t) := by
  obtain ⟨htake, hdrop⟩ := Text.digits_append htail t
  by_cases hpoint : ∃ rest, t.dropWhile Char.isDigit = '.' :: rest
  · obtain ⟨rest, ht⟩ := hpoint
    rw [ht, List.cons_append] at hdrop
    obtain ⟨hfraction, hafter⟩ := Text.digits_append htail rest
    rw [numeral_of_point ht, numeral_of_point hdrop, htake, hfraction, hafter]
    split <;> rfl
  · have ht : ∀ rest, t.dropWhile Char.isDigit ≠ '.' :: rest := fun rest he => hpoint ⟨rest, he⟩
    have hnext : ∀ rest, (t ++ tail).dropWhile Char.isDigit ≠ '.' :: rest := by
      intro rest he
      rw [hdrop] at he
      cases hd : t.dropWhile Char.isDigit with
      | nil =>
          rw [hd, List.nil_append] at he
          have hw := htail '.' (by simp [he])
          cases hw
      | cons c more =>
          rw [hd] at he
          cases he
          exact ht more hd
    rw [numeral_of_ne ht, numeral_of_ne hnext, htake, hdrop]
    rfl

theorem scan?_append (htail : IsBlank tail) (c : Char) (t : Text) :
    scan? c (t ++ tail) = (scan? c t).map (behind tail) := by
  have hvar := Variable.scan?_append htail (c :: t)
  have hliteral := Quoted.read?_append htail (c :: t)
  have hnumeral := numeral_append htail (c :: t)
  have hword := identifier?_append htail (c :: t)
  have hsymbol := Symbol.scan?_append htail (c :: t)
  rw [List.cons_append] at hvar hliteral hnumeral hword hsymbol
  unfold scan?
  rw [hvar, hliteral, hnumeral, hword, hsymbol]
  split
  · cases Variable.scan? (c :: t) <;> rfl
  split
  · cases Quoted.read? (c :: t) <;> rfl
  split
  · rfl
  split
  · rfl
  split
  · rfl
  split
  · rfl
  cases identifier? (c :: t) with
  | some found => rfl
  | none => cases Symbol.scan? (c :: t) <;> rfl

theorem lex_of_isBlank (htail : IsBlank tail) : lex tail = .ok [] := by
  induction tail with
  | nil => exact lex_nil
  | cons c tail ih =>
      rw [lex_cons_of_isWhite (htail c List.mem_cons_self)]
      exact ih fun d hd => htail d (List.mem_cons_of_mem _ hd)

theorem lex_append_eq_ok_iff (htail : IsBlank tail) {t : Text} {tokens : List Token} :
    lex (t ++ tail) = .ok tokens ↔ lex t = .ok tokens := by
  fun_induction lex t generalizing tokens with
  | case1 => rw [List.nil_append, lex_of_isBlank htail]
  | case2 c t hc ih => rw [List.cons_append, lex_cons_of_isWhite hc, ih]
  | case3 c t hc fault hscan =>
      have hpadded := scan?_append htail c t
      rw [hscan] at hpadded
      rw [List.cons_append, lex_cons, if_neg hc, hpadded]
      constructor <;> rintro ⟨⟩
  | case4 c t hc token rest hscan _ ih =>
      have hpadded := scan?_append htail c t
      rw [hscan] at hpadded
      rw [List.cons_append, lex_cons_of_scan? (by simpa using hc) hpadded]
      change (lex (rest ++ tail)).map (token :: ·) = .ok tokens ↔ _
      cases hrest : lex rest with
      | ok more =>
          rw [ih.2 hrest]
      | error fault =>
          cases hnext : lex (rest ++ tail) with
          | ok more =>
              rw [ih.1 hnext] at hrest
              cases hrest
          | error fault' => constructor <;> rintro ⟨⟩

theorem lex_append_of_isBlank {lead : Text} (hlead : IsBlank lead) (t : Text) :
    lex (lead ++ t) = lex t := by
  induction lead with
  | nil => rfl
  | cons c lead ih =>
      rw [List.cons_append, lex_cons_of_isWhite (hlead c List.mem_cons_self)]
      exact ih fun d hd => hlead d (List.mem_cons_of_mem _ hd)

theorem lex_trimStart (t : Text) : lex (Text.trimStart t) = lex t := by
  obtain ⟨lead, hlead, ht⟩ := Text.exists_eq_trimStart t
  rw [ht, lex_append_of_isBlank hlead, ← ht]

theorem lex_trim_eq_ok_iff {t : Text} {tokens : List Token} :
    lex (Text.trim t) = .ok tokens ↔ lex t = .ok tokens := by
  obtain ⟨lead, tail, hlead, htail, ht⟩ := Text.exists_eq_trim t
  rw [ht, lex_append_eq_ok_iff htail, lex_append_of_isBlank hlead, ← ht]

end Token

theorem Expr.parse_trim_eq_ok_iff {t : Text} {e : Expr} :
    parse (Text.trim t) = .ok e ↔ parse t = .ok e := by
  simp only [parse_eq_ok_iff, Token.lex_trim_eq_ok_iff]

end Stencil
