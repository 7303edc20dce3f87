import Stencil.Text.Basic

/-!
# Quoted literals

A literal stands between two equal quotes, single or double.  A backslash
before a backslash or a quote gives that character, `\n` and `\t` give a line
feed and a tab, and any other backslash stands for itself.
-/

namespace Stencil.Quoted

def isQuote (c : Char) : Bool := c == '\'' || c == '"'

def escaped (c : Char) : Text :=
  if c = '\\' ∨ isQuote c then [c]
  else if c = 'n' then ['\n']
  else if c = 't' then ['\t']
  else ['\\', c]

/-- Reads up to the closing quote; gives the text that is meant and what follows the quote. -/
def readBody? (quote : Char) : Text → Option (Text × Text)
  | [] => none
  | '\\' :: c :: rest =>
    (readBody? quote rest).map fun (text, rest) => (escaped c ++ text, rest)
  | c :: rest =>
    if c = quote then some ([], rest)
    else (readBody? quote rest).map fun (text, rest) => (c :: text, rest)

def read? : Text → Option (Text × Text)
  | q :: rest => if isQuote q then readBody? q rest else none
  | [] => none

theorem length_of_readBody? {quote : Char} {t text rest : Text}
    (h : readBody? quote t = some (text, rest)) : rest.length < t.length := by
  fun_induction readBody? quote t generalizing text with
  | case1 => simp at h
  | case2 c r ih =>
    obtain ⟨⟨x, y⟩, hxy, he⟩ := Option.map_eq_some_iff.1 h
    simp only [Prod.mk.injEq] at he
    obtain ⟨-, rfl⟩ := he
    have := ih hxy
    simp only [List.length_cons]
    omega
  | case3 r =>
    simp only [Option.some.injEq, Prod.mk.injEq] at h
    obtain ⟨-, rfl⟩ := h
    simp
  | case4 c r _ _ ih =>
    obtain ⟨⟨x, y⟩, hxy, he⟩ := Option.map_eq_some_iff.1 h
    simp only [Prod.mk.injEq] at he
    obtain ⟨-, rfl⟩ := he
    have := ih hxy
    simp only [List.length_cons]
    omega

theorem length_of_read? {t text rest : Text} (h : read? t = some (text, rest)) :
    rest.length < t.length := by
  cases t with
  | nil => simp [read?] at h
  | cons q t =>
    simp only [read?] at h
    split at h
    · have := length_of_readBody? h
      simp only [List.length_cons]
      omega
    · simp at h

/-! ## Writing -/

def quoteChar (c : Char) : Text := if c = '\\' ∨ c = '\'' then ['\\', c] else [c]

def quote (t : Text) : Text := '\'' :: t.flatMap quoteChar ++ ['\'']

theorem readBody?_flatMap_quoteChar (t rest : Text) :
    readBody? '\'' (t.flatMap quoteChar ++ '\'' :: rest) = some (t, rest) := by
  induction t with
  | nil => simp [readBody?]
  | cons c t ih =>
    by_cases hb : c = '\\'
    · subst hb
      simp [quoteChar, readBody?, ih, escaped]
    · by_cases hq : c = '\''
      · subst hq
        simp [quoteChar, readBody?, ih, escaped, isQuote]
      · simp [quoteChar, hb, hq, readBody?, ih]

@[simp] theorem read?_quote_append (t rest : Text) : read? (quote t ++ rest) = some (t, rest) := by
  simp [quote, read?, isQuote, readBody?_flatMap_quoteChar]

/-! ## Lists -/

def items? (t : Text) : Option (List Text) :=
  match h : read? t with
  | none => none
  | some (item, rest) =>
    match h' : Text.trimStart rest with
    | [] => some [item]
    | ',' :: more =>
      have : (Text.trimStart more).length < t.length := by
        have h₁ := length_of_read? h
        have h₂ := Text.length_trimStart_le rest
        have h₃ := Text.length_trimStart_le more
        simp only [h', List.length_cons] at h₂
        omega
      (items? (Text.trimStart more)).map (item :: ·)
    | _ => none
termination_by t.length

/-- Literals separated by commas; white space may stand around each of them. -/
def list? (t : Text) : Option (List Text) :=
  if Text.trimStart t = [] then some [] else items? (Text.trimStart t)

end Stencil.Quoted
