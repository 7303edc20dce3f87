import Stencil.Text.Basic

/-!
# HTML text

Escaping replaces the five characters that have a meaning in markup by
entities; decoding reads those five entities back in one pass.  Decoding an
escaped text gives the text.
-/

namespace Stencil.Html

def entity? : Char → Option Text
  | '&' => some ['&', 'a', 'm', 'p', ';']
  | '<' => some ['&', 'l', 't', ';']
  | '>' => some ['&', 'g', 't', ';']
  | '"' => some ['&', 'q', 'u', 'o', 't', ';']
  | '\'' => some ['&', '#', '0', '3', '9', ';']
  | _ => none

def escapeChar (c : Char) : Text := (entity? c).getD [c]

/-- What is looked for before anything is written. -/
def special : List Char := ['&', '<', '>', '"', '\'']

def escape (t : Text) : Text := if t.any special.contains then t.flatMap escapeChar else t

theorem escapeChar_of_notMem {c : Char} (h : c ∉ special) : escapeChar c = [c] := by
  unfold escapeChar entity?
  split
  iterate 5 exact absurd (by decide) h
  · rfl

theorem flatMap_escapeChar_of_notMem {t : Text} (h : ∀ c ∈ t, c ∉ special) :
    t.flatMap escapeChar = t := by
  induction t with
  | nil => rfl
  | cons c t ih =>
    rw [List.flatMap_cons, escapeChar_of_notMem (h c List.mem_cons_self),
      ih fun d hd => h d (List.mem_cons_of_mem c hd), List.singleton_append]

theorem escape_eq_flatMap (t : Text) : escape t = t.flatMap escapeChar := by
  unfold escape
  split
  · rfl
  · next h =>
    have hplain : ∀ c ∈ t, c ∉ special := by simpa using h
    exact (flatMap_escapeChar_of_notMem hplain).symm

@[simp] theorem escape_nil : escape [] = [] := rfl

@[simp] theorem escape_cons (c : Char) (t : Text) :
    escape (c :: t) = escapeChar c ++ escape t := by
  simp only [escape_eq_flatMap, List.flatMap_cons]

@[simp] theorem escape_append (s t : Text) : escape (s ++ t) = escape s ++ escape t := by
  simp only [escape_eq_flatMap, List.flatMap_append]

/-- Reads the five entities from left to right; any other ampersand stands for itself. -/
def unescape : Text → Text
  | '&' :: 'a' :: 'm' :: 'p' :: ';' :: t => '&' :: unescape t
  | '&' :: 'l' :: 't' :: ';' :: t => '<' :: unescape t
  | '&' :: 'g' :: 't' :: ';' :: t => '>' :: unescape t
  | '&' :: 'q' :: 'u' :: 'o' :: 't' :: ';' :: t => '"' :: unescape t
  | '&' :: '#' :: '0' :: '3' :: '9' :: ';' :: t => '\'' :: unescape t
  | c :: t => c :: unescape t
  | [] => []

end Stencil.Html
