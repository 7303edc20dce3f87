import Stencil.Proofs.Template.Quoting
import Stencil.Proofs.Text.Measure
import Stencil.Proofs.Text.Trim

/-!
# Literals are read back

What a literal looks like is a relation between what is written and what is
meant.  Reading finds the literal that a text starts with and nothing else, and
what comes next plays no role in it.  So what has been quoted is read back in
front of any text, and in a list with white space around its commas.
-/

namespace Stencil.Quoted

open Text (IsBlank)
open Template.Quoting (ne_backslash_of_isQuote read?_cons)

/-! ## Literals -/

theorem isQuote_iff {c : Char} : isQuote c = true ↔ c = '\'' ∨ c = '"' := by
  rw [isQuote, Bool.or_eq_true, beq_iff_eq, beq_iff_eq]

theorem not_isWhite_of_isQuote {c : Char} (h : isQuote c = true) : Text.isWhite c = false := by
  rcases isQuote_iff.1 h with rfl | rfl <;> rfl

/-- A literal behind the quote that opens it, and the text that it stands for. -/
inductive IsBody (quote : Char) : Text → Text → Prop
  | closed : IsBody quote [quote] []
  | escape (c : Char) {body text : Text} (h : IsBody quote body text) :
      IsBody quote ('\\' :: c :: body) (escaped c ++ text)
  | plain {c : Char} {body text : Text} (hb : c ≠ '\\') (hc : c ≠ quote)
      (h : IsBody quote body text) : IsBody quote (c :: body) (c :: text)

inductive IsLiteral : Text → Text → Prop
  | quoted {quote : Char} {body text : Text} (hq : isQuote quote = true)
      (h : IsBody quote body text) : IsLiteral (quote :: body) text

theorem readBody?_cons_of_ne {quote c : Char} (hb : c ≠ '\\') (t : Text) :
    readBody? quote (c :: t) =
      if c = quote then some ([], t)
      else (readBody? quote t).map fun (text, rest) => (c :: text, rest) := by
  rw [readBody?]
  rintro d r rfl
  exact absurd rfl hb

section

variable {quote : Char} {t text rest : Text}

theorem IsBody.readBody? {body : Text} (hq : isQuote quote = true) (h : IsBody quote body text)
    (rest : Text) : readBody? quote (body ++ rest) = some (text, rest) := by
  have hne := ne_backslash_of_isQuote hq
  induction h with
  | closed => rw [List.singleton_append, readBody?_cons_of_ne hne, if_pos rfl]
  | escape c h ih =>
      rw [List.cons_append, List.cons_append, Quoted.readBody?, ih]
      rfl
  | plain hb hc h ih =>
      rw [List.cons_append, readBody?_cons_of_ne hb, if_neg hc, ih]
      rfl

theorem exists_isBody (h : readBody? quote t = some (text, rest)) :
    ∃ body, t = body ++ rest ∧ IsBody quote body text := by
  fun_induction readBody? quote t generalizing text with
  | case1 => cases h
  | case2 c r ih =>
      obtain ⟨⟨more, left⟩, hr, he⟩ := Option.map_eq_some_iff.1 h
      obtain ⟨rfl, rfl⟩ := Prod.mk.inj he
      obtain ⟨body, rfl, hbody⟩ := ih hr
      exact ⟨'\\' :: c :: body, rfl, hbody.escape c⟩
  | case3 r =>
      cases h
      exact ⟨[quote], rfl, .closed⟩
  | case4 c r hshape hc ih =>
      obtain ⟨⟨more, left⟩, hr, he⟩ := Option.map_eq_some_iff.1 h
      obtain ⟨rfl, rfl⟩ := Prod.mk.inj he
      -- a backslash with nothing behind it does not belong to a literal
      have hb : c ≠ '\\' := by
        rintro rfl
        cases r with
        | nil => cases hr
        | cons d r => exact hshape d r rfl rfl
      obtain ⟨body, rfl, hbody⟩ := ih hr
      exact ⟨c :: body, rfl, hbody.plain hb hc⟩

theorem read?_eq_some_iff :
    read? t = some (text, rest) ↔ ∃ literal, t = literal ++ rest ∧ IsLiteral literal text := by
  constructor
  · intro h
    cases t with
    | nil => cases h
    | cons quote t =>
        rw [read?_cons] at h
        split at h
        · next hq =>
          obtain ⟨body, rfl, hbody⟩ := exists_isBody h
          exact ⟨quote :: body, rfl, .quoted hq hbody⟩
        · cases h
  · rintro ⟨_, rfl, @⟨quote, body, _, hq, h⟩⟩
    rw [List.cons_append, read?_cons, if_pos hq, h.readBody? hq]

theorem suffix_of_read? (h : read? t = some (text, rest)) : rest <:+ t := by
  obtain ⟨literal, rfl, -⟩ := read?_eq_some_iff.1 h
  exact List.suffix_append literal rest

end

/-! ## Lists -/

theorem items?_eq_some_iff {t : Text} {items : List Text} :
    items? t = some items ↔ ∃ item rest, read? t = some (item, rest) ∧
      (Text.trimStart rest = [] ∧ items = [item] ∨
        ∃ more others, Text.trimStart rest = ',' :: more ∧
          items? (Text.trimStart more) = some others ∧ items = item :: others) := by
  constructor
  · intro h
    rw [items?] at h
    split at h
    · cases h
    · next item rest hr =>
      refine ⟨item, rest, hr, ?_⟩
      split at h
      · next hrest =>
        cases h
        exact Or.inl ⟨hrest, rfl⟩
      · next more hrest =>
        obtain ⟨others, ho, he⟩ := Option.map_eq_some_iff.1 h
        exact Or.inr ⟨more, others, hrest, ho, he.symm⟩
      · cases h
  · rintro ⟨item, rest, hr, hmid⟩
    rw [items?]
    split
    · next hn =>
      rw [hr] at hn
      cases hn
    · next item' rest' hr' =>
      rw [hr] at hr'
      cases hr'
      rcases hmid with ⟨hrest, rfl⟩ | ⟨more, others, hrest, ho, rfl⟩
      · split
        · rfl
        · next hc =>
          rw [hrest] at hc
          cases hc
        · next hne _ => exact absurd hrest hne
      · split
        · next hc =>
          rw [hrest] at hc
          cases hc
        · next more' hc =>
          rw [hrest] at hc
          cases hc
          rw [ho]
          rfl
        · next hne => exact absurd hrest (hne more)

structure Entry where
  before : Text
  text : Text
  after : Text
  isBlank_before : IsBlank before
  isBlank_after : IsBlank after

namespace Entry

def write (e : Entry) : Text := e.before ++ quote e.text ++ e.after

theorem trimStart_write_append (e : Entry) (rest : Text) :
    Text.trimStart (e.write ++ rest) = quote e.text ++ (e.after ++ rest) := by
  rw [write, List.append_assoc, List.append_assoc,
    Text.trimStart_of_isBlank_append e.isBlank_before]
  rfl

theorem trimStart_after (e : Entry) {rest : Text} (h : ∀ c ∈ rest.head?, Text.isWhite c = false) :
    Text.trimStart (e.after ++ rest) = rest := by
  rw [Text.trimStart_of_isBlank_append e.isBlank_after]
  exact Text.dropWhile_eq_self h

end Entry

theorem items?_join_write (e : Entry) (entries : List Entry) :
    items? (Text.trimStart (Text.join [','] ((e :: entries).map Entry.write))) =
      some ((e :: entries).map Entry.text) := by
  induction entries generalizing e with
  | nil =>
      have hstart := e.trimStart_write_append []
      rw [List.append_nil] at hstart
      rw [List.map_cons, List.map_nil, Text.join, hstart]
      exact items?_eq_some_iff.2 ⟨e.text, _, read?_quote_append e.text _,
        Or.inl ⟨e.trimStart_after (by simp), rfl⟩⟩
  | cons next entries ih =>
      have hcomma : Text.isWhite ',' = false := by decide
      rw [List.map_cons, List.map_cons, Text.join, ← List.map_cons, List.append_assoc,
        e.trimStart_write_append]
      · refine items?_eq_some_iff.2 ⟨e.text, _, read?_quote_append e.text _,
          Or.inr ⟨_, _, ?_, ih next, rfl⟩⟩
        exact e.trimStart_after (by simpa using hcomma)
      · simp

theorem list?_of_isBlank {t : Text} (h : IsBlank t) : list? t = some [] := by
  have hnil : Text.trimStart t = [] := List.dropWhile_eq_nil_iff.2 h
  rw [list?, if_pos hnil]

theorem list?_join_write {lead : Text} (hlead : IsBlank lead) (entries : List Entry) :
    list? (lead ++ Text.join [','] (entries.map Entry.write)) = some (entries.map Entry.text) := by
  cases entries with
  | nil =>
      rw [List.map_nil, Text.join, List.append_nil]
      exact list?_of_isBlank hlead
  | cons e entries =>
      have hitems := items?_join_write e entries
      have hne : Text.trimStart (Text.join [','] ((e :: entries).map Entry.write)) ≠ [] := by
        intro hnil
        rw [hnil] at hitems
        obtain ⟨item, rest, hread, -⟩ := items?_eq_some_iff.1 hitems
        cases hread
      rw [list?, Text.trimStart_of_isBlank_append hlead, if_neg hne, hitems]

/-- Quoting is undone: one text is read from in front of any other, with as many bytes as its
literal has, and texts are read from a list. -/
theorem quoted_reads_back (t rest : Text) {lead : Text} (hlead : IsBlank lead)
    (entries : List Entry) :
    read? (quote t ++ rest) = some (t, rest) ∧
      Text.measure? read? (quote t ++ rest) = some (t, Text.utf8Length (quote t)) ∧
      list? (lead ++ Text.join [','] (entries.map Entry.write)) =
        some (entries.map Entry.text) :=
  ⟨read?_quote_append t rest, Text.measure?_append (read?_quote_append t rest),
    list?_join_write hlead entries⟩

def awkwardEntries : List Entry := [
  ⟨"\t".toList, "it's \\' \\n \\".toList, "".toList, by decide, by decide⟩,
  ⟨" ".toList, "".toList, "\n ".toList, by decide, by decide⟩,
  ⟨"".toList, "é, \"b\"".toList, " ".toList, by decide, by decide⟩]

theorem quoted_reads_back_awkwardEntries :
    IsBlank [' '] ∧
      read? "'it\\'s \\\\\\' é'', 'x'".toList =
        some ("it's \\' é".toList, "', 'x'".toList) ∧
      Text.measure? read? "'it\\'s \\\\\\' é'', 'x'".toList = some ("it's \\' é".toList, 15) ∧
      list? " \t'it\\'s \\\\\\' \\\\n \\\\', ''\n ,'é, \"b\"' ".toList =
        some ["it's \\' \\n \\".toList, [], "é, \"b\"".toList] := by
  have hlead : IsBlank [' '] := by decide
  have h := quoted_reads_back "it's \\' é".toList "', 'x'".toList hlead awkwardEntries
  have hwritten : quote "it's \\' é".toList ++ "', 'x'".toList =
      "'it\\'s \\\\\\' é'', 'x'".toList := by decide +kernel
  have hlength : Text.utf8Length (quote "it's \\' é".toList) = 15 := by decide +kernel
  have hlist : [' '] ++ Text.join [','] (awkwardEntries.map Entry.write) =
      " \t'it\\'s \\\\\\' \\\\n \\\\', ''\n ,'é, \"b\"' ".toList := by decide +kernel
  rw [hwritten, hlength, hlist] at h
  exact ⟨hlead, h⟩

end Stencil.Quoted
