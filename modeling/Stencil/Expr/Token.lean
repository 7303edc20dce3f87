import Stencil.Expr.Variable
import Stencil.Value.Coercion

/-!
# Expression tokens

The words that an expression is made of.  Symbols are matched longest first,
so that no symbol hides a longer one.
-/

namespace Stencil

/-! ## Symbols -/

inductive Symbol where
  | strictEq
  | strictNe
  | coalesce
  | or
  | and
  | eq
  | ne
  | le
  | ge
  | lt
  | gt
  | not
  | plus
  | minus
  | star
  | slash
  | percent
deriving DecidableEq, Repr

namespace Symbol

def spelling : Symbol → Text
  | .strictEq => ['=', '=', '=']
  | .strictNe => ['!', '=', '=']
  | .coalesce => ['?', '?']
  | .or => ['|', '|']
  | .and => ['&', '&']
  | .eq => ['=', '=']
  | .ne => ['!', '=']
  | .le => ['<', '=']
  | .ge => ['>', '=']
  | .lt => ['<']
  | .gt => ['>']
  | .not => ['!']
  | .plus => ['+']
  | .minus => ['-']
  | .star => ['*']
  | .slash => ['/']
  | .percent => ['%']

/-- All symbols, longer ones first. -/
def all : List Symbol :=
  [.strictEq, .strictNe, .coalesce, .or, .and, .eq, .ne, .le, .ge, .lt, .gt, .not, .plus,
    .minus, .star, .slash, .percent]

def scan? (t : Text) : Option (Symbol × Text) :=
  all.findSome? fun s => (Text.after? s.spelling t).map fun rest => (s, rest)

theorem spelling_ne_nil (s : Symbol) : s.spelling ≠ [] := by
  cases s <;> simp [spelling]

theorem eq_of_scan? {t rest : Text} {s : Symbol} (h : scan? t = some (s, rest)) :
    t = s.spelling ++ rest := by
  obtain ⟨s', -, h⟩ := List.exists_of_findSome?_eq_some h
  obtain ⟨r, hr, h⟩ := Option.map_eq_some_iff.1 h
  simp only [Prod.mk.injEq] at h
  obtain ⟨rfl, rfl⟩ := h
  exact Text.after?_eq_some_iff.1 hr

end Symbol

/-! ## Tokens -/

inductive Token where
  | var (v : Variable)
  | word (name : Text)
  | string (t : Text)
  | number (literal : Value)
  | symbol (s : Symbol)
  | leftParen
  | rightParen
  | comma

inductive LexFault where
  | invalidVariable
  | unterminatedString
  | unexpectedCharacter (c : Char)
deriving DecidableEq, Repr

namespace Token

def describe : Token → Text
  | .var v => "variable ".toList ++ Text.ticked ('$' :: v.root)
  | .word name => Text.ticked name
  | .string _ => "string".toList
  | .number literal => "number ".toList ++ Text.ticked literal.json
  | .symbol s => Text.ticked s.spelling
  | .leftParen => "`(`".toList
  | .rightParen => "`)`".toList
  | .comma => "`,`".toList

def numeral (t : Text) : Text × Text :=
  let whole := t.takeWhile Char.isDigit
  match t.dropWhile Char.isDigit with
  | '.' :: rest =>
    let fraction := rest.takeWhile Char.isDigit
    if fraction = [] then (whole, '.' :: rest)
    else (whole ++ '.' :: fraction, rest.dropWhile Char.isDigit)
  | rest => (whole, rest)

/-- Whole numerals of 64 bits are whole numbers; all others are floats. -/
def literal (numeral : Text) : Value :=
  match (Text.int? numeral).filter fitsInt64 with
  | some n => .ofInt n
  | none => .ofFloat ((Binary64.read? numeral).getD 0)

def scan? (c : Char) (t : Text) : Except LexFault (Token × Text) :=
  if c = '$' then
    match Variable.scan? (c :: t) with
    | some (v, rest) => .ok (.var v, rest)
    | none => .error .invalidVariable
  else if Quoted.isQuote c then
    match Quoted.read? (c :: t) with
    | some (text, rest) => .ok (.string text, rest)
    | none => .error .unterminatedString
  else if c.isDigit then
    let (digits, rest) := numeral (c :: t)
    .ok (.number (literal digits), rest)
  else if c = '(' then .ok (.leftParen, t)
  else if c = ')' then .ok (.rightParen, t)
  else if c = ',' then .ok (.comma, t)
  else
    match identifier? (c :: t) with
    | some (name, rest) => .ok (.word name, rest)
    | none =>
      match Symbol.scan? (c :: t) with
      | some (s, rest) => .ok (.symbol s, rest)
      | none => .error (.unexpectedCharacter c)

end Token

/-! ## Scanning makes progress -/

theorem Accessor.length_scanAll_le (t : Text) : (scanAll t).2.length ≤ t.length := by
  fun_induction scanAll t with
  | case1 => simp
  | case2 t a rest h _ more rest' he ih =>
    rw [he] at ih
    have := length_of_scan? h
    simp only at ih ⊢
    omega

theorem length_of_identifier? {t name rest : Text} (h : identifier? t = some (name, rest)) :
    rest.length < t.length := by
  cases t with
  | nil => simp [identifier?] at h
  | cons c t =>
    simp only [identifier?] at h
    split at h
    · simp only [Option.some.injEq, Prod.mk.injEq] at h
      obtain ⟨-, rfl⟩ := h
      exact Nat.lt_succ_of_le (Text.length_dropWhile_le _ _)
    · simp at h

theorem Variable.length_of_scan? {t rest : Text} {v : Variable}
    (h : scan? t = some (v, rest)) : rest.length < t.length := by
  unfold scan? at h
  split at h
  · obtain ⟨⟨root, r⟩, hi, h⟩ := Option.map_eq_some_iff.1 h
    simp only [Prod.mk.injEq] at h
    obtain ⟨-, rfl⟩ := h
    have := length_of_identifier? hi
    have := Accessor.length_scanAll_le r
    simp only [List.length_cons]
    omega
  · simp at h

theorem Symbol.length_of_scan? {t rest : Text} {s : Symbol}
    (h : scan? t = some (s, rest)) : rest.length < t.length := by
  have := List.length_pos_iff.2 s.spelling_ne_nil
  rw [eq_of_scan? h, List.length_append]
  omega

namespace Token

theorem length_numeral_le (t : Text) :
    (numeral t).2.length ≤ (t.dropWhile Char.isDigit).length := by
  unfold numeral
  split
  · next rest hr =>
    rw [hr]
    dsimp only
    split
    · simp
    · have := Text.length_dropWhile_le Char.isDigit rest
      simp only [List.length_cons]
      omega
  · next hr => simp

theorem length_of_scan? {c : Char} {t rest : Text} {token : Token}
    (h : scan? c t = .ok (token, rest)) : rest.length ≤ t.length := by
  unfold scan? at h
  split at h
  · split at h
    · next v r hv =>
      simp only [Except.ok.injEq, Prod.mk.injEq] at h
      obtain ⟨-, rfl⟩ := h
      exact Nat.le_of_lt_succ (Variable.length_of_scan? hv)
    · simp at h
  split at h
  · split at h
    · next s r hs =>
      simp only [Except.ok.injEq, Prod.mk.injEq] at h
      obtain ⟨-, rfl⟩ := h
      exact Nat.le_of_lt_succ (Quoted.length_of_read? hs)
    · simp at h
  split at h
  · next hd =>
    simp only [Except.ok.injEq, Prod.mk.injEq] at h
    obtain ⟨-, rfl⟩ := h
    have := length_numeral_le (c :: t)
    rw [List.dropWhile_cons_of_pos hd] at this
    exact Nat.le_trans this (Text.length_dropWhile_le _ _)
  split at h
  · simp only [Except.ok.injEq, Prod.mk.injEq] at h
    simp [h.2]
  split at h
  · simp only [Except.ok.injEq, Prod.mk.injEq] at h
    simp [h.2]
  split at h
  · simp only [Except.ok.injEq, Prod.mk.injEq] at h
    simp [h.2]
  split at h
  · next name r hi =>
    simp only [Except.ok.injEq, Prod.mk.injEq] at h
    obtain ⟨-, rfl⟩ := h
    exact Nat.le_of_lt_succ (length_of_identifier? hi)
  split at h
  · next s r hs =>
    simp only [Except.ok.injEq, Prod.mk.injEq] at h
    obtain ⟨-, rfl⟩ := h
    exact Nat.le_of_lt_succ (Symbol.length_of_scan? hs)
  · simp at h

end Token

/-! ## Token lists -/

structure LexError where
  fault : LexFault
  rest : Text
deriving DecidableEq, Repr

def Token.lex : Text → Except LexError (List Token)
  | [] => .ok []
  | c :: t =>
    if Text.isWhite c then lex t
    else
      match h : scan? c t with
      | .error fault => .error ⟨fault, c :: t⟩
      | .ok (token, rest) =>
        have : rest.length < (c :: t).length := Nat.lt_succ_of_le (length_of_scan? h)
        (lex rest).map (token :: ·)
termination_by t => t.length
decreasing_by
  · exact Nat.lt_succ_self _
  · exact this

end Stencil
