import Stencil.Proofs.Template.Bytes
import Stencil.Proofs.Template.Recognition

/-!
# Literals are passed as a whole

Where a scan comes to a quote outside of literals, it goes on behind the literal
that starts there, as deep in parentheses as before, and if none starts there it
finds nothing.  So no mark and no parenthesis in a literal ends what the marks
of an instruction, an echo or a directive enclose.
-/

namespace Stencil.Template

open Quoted (IsBody IsLiteral)
open Text (bytes utf8Length)

namespace Closer

variable {k : Closer} {depth : Nat} {s : Quoting} {lead rest : Text}

/-! ## How far a scan gets -/

/-- Where a scan stands behind `lead`, with `rest` to come, if it does not stop before. -/
def reach? (k : Closer) (rest : Text) : Nat → Quoting → Text → Option (Nat × Quoting)
  | depth, s, [] => some (depth, s)
  | depth, s, c :: lead =>
    match k.hit? depth s (c :: (lead ++ rest)) with
    | some _ => none
    | none => k.reach? rest (k.depthAfter depth s c) (s.next c) lead

@[simp] theorem reach?_nil : k.reach? rest depth s [] = some (depth, s) := by
  rw [reach?]

theorem reach?_cons (c : Char) :
    k.reach? rest depth s (c :: lead) =
      match k.hit? depth s (c :: (lead ++ rest)) with
      | some _ => none
      | none => k.reach? rest (k.depthAfter depth s c) (s.next c) lead := by
  rw [reach?]

theorem reach?_cons_of_ne_outside (hs : s ≠ .outside) (c : Char) :
    k.reach? rest depth s (c :: lead) = k.reach? rest depth (s.next c) lead := by
  rw [reach?_cons, hit?_of_ne_outside k depth hs, depthAfter_of_ne_outside k depth hs]

theorem reach?_append (more : Text) :
    k.reach? rest depth s (lead ++ more) =
      (k.reach? (more ++ rest) depth s lead).bind fun found =>
        k.reach? rest found.1 found.2 more := by
  induction lead generalizing depth s with
  | nil => rfl
  | cons c lead ih =>
      rw [List.cons_append, reach?_cons, reach?_cons, List.append_assoc]
      cases k.hit? depth s (c :: (lead ++ (more ++ rest))) with
      | some _ => rfl
      | none => exact ih

theorem split?_of_reach? {depth' : Nat} {s' : Quoting}
    (h : k.reach? rest depth s lead = some (depth', s')) :
    k.split? depth s (lead ++ rest) = prepend lead (k.split? depth' s' rest) := by
  induction lead generalizing depth s with
  | nil =>
      cases h
      rw [List.nil_append, prepend_nil]
  | cons c lead ih =>
      rw [reach?_cons] at h
      rw [List.cons_append, split?_cons]
      cases hhit : k.hit? depth s (c :: (lead ++ rest)) with
      | some _ =>
          rw [hhit] at h
          cases h
      | none =>
          rw [hhit] at h
          dsimp only at h ⊢
          rw [ih h, prepend_prepend, List.singleton_append]

/-! ## Literals -/

theorem reach?_body {quote : Char} {body text : Text} (hq : Quoted.isQuote quote = true)
    (h : IsBody quote body text) (rest : Text) :
    k.reach? rest depth (.inside quote) body = some (depth, .outside) := by
  induction h with
  | closed =>
      rw [reach?_cons_of_ne_outside (by simp), Quoting.next, Quoting.within_self hq, reach?_nil]
  | escape c h ih =>
      rw [reach?_cons_of_ne_outside (by simp), Quoting.next, Quoting.within_backslash,
        reach?_cons_of_ne_outside (by simp)]
      exact ih
  | plain hb hc h ih =>
      rw [reach?_cons_of_ne_outside (by simp), Quoting.next, Quoting.within, if_neg hb, if_neg hc]
      exact ih

theorem reach?_quote (hk : k.HasAsciiMark) {quote : Char} (hq : Quoted.isQuote quote = true) :
    k.reach? rest depth .outside (quote :: lead) = k.reach? rest depth (.opened quote) lead := by
  obtain ⟨hhit, hdepth⟩ := hit?_of_isQuote hk depth hq (lead ++ rest)
  rw [reach?_cons, hhit, hdepth, Quoting.next, if_pos hq]

theorem reach?_literal (hk : k.HasAsciiMark) {literal text : Text} (h : IsLiteral literal text)
    (rest : Text) : k.reach? rest depth .outside literal = some (depth, .outside) := by
  obtain @⟨quote, body, _, hq, hbody⟩ := h
  have hinside : k.reach? rest depth (.inside quote) body = some (depth, .outside) :=
    reach?_body hq hbody rest
  rw [reach?_quote hk hq]
  cases hbody with
  | closed | escape | plain =>
      rw [reach?_cons_of_ne_outside (by simp)] at hinside ⊢
      exact hinside

theorem split?_inside_of_readBody? {quote : Char} {t : Text}
    (h : Quoted.readBody? quote t = none) : k.split? depth (.inside quote) t = none := by
  fun_induction Quoted.readBody? quote t with
  | case1 => simp
  | case2 c t ih =>
      rw [split?_cons_of_ne_outside k depth (by simp), Quoting.next, Quoting.within_backslash,
        split?_cons_of_ne_outside k depth (by simp), Quoting.next,
        ih (Option.map_eq_none_iff.1 h)]
      rfl
  | case3 t => cases h
  | case4 c t hshape hc ih =>
      rw [split?_cons_of_ne_outside k depth (by simp), Quoting.next, Quoting.within]
      by_cases hb : c = '\\'
      · cases t with
        | nil => simp [hb, prepend]
        | cons d t => exact (hshape d t hb rfl).elim
      · rw [if_neg hb, if_neg hc, ih (Option.map_eq_none_iff.1 h)]
        rfl

theorem split?_of_read?_eq_none (hk : k.HasAsciiMark) {quote : Char} {t : Text}
    (hq : Quoted.isQuote quote = true) (h : Quoted.read? (quote :: t) = none) :
    k.split? depth .outside (quote :: t) = none := by
  rw [Quoting.read?_cons, if_pos hq] at h
  have hreach : k.reach? t depth .outside [quote] = some (depth, .opened quote) := by
    rw [reach?_quote hk hq, reach?_nil]
  rw [← List.singleton_append, split?_of_reach? hreach, split?_opened,
    split?_inside_of_readBody? h]
  rfl

variable {literal text : Text} {i : Nat}

theorem split?_literal (hk : k.HasAsciiMark) (h : IsLiteral literal text) (rest : Text) :
    k.split? depth .outside (literal ++ rest) =
      prepend literal (k.split? depth .outside rest) :=
  split?_of_reach? (reach?_literal hk h rest)

theorem stop?_literal (hk : k.HasAsciiMark) (h : IsLiteral literal text) (rest : Text) :
    k.stop? depth none i (bytes (literal ++ rest)) =
      k.stop? depth none (i + utf8Length literal) (bytes rest) := by
  rw [stop?_bytes hk, stop?_bytes hk, split?_literal hk h]
  cases k.split? depth .outside rest with
  | none => rfl
  | some found => simp [prepend, Nat.add_assoc]

theorem stop?_of_read?_eq_none (hk : k.HasAsciiMark) {quote : Char} {t : Text}
    (hq : Quoted.isQuote quote = true) (h : Quoted.read? (quote :: t) = none) :
    k.stop? depth none i (bytes (quote :: t)) = none := by
  rw [stop?_bytes hk, split?_of_read?_eq_none hk hq h]
  rfl

def marks : List Text := [echoClose, instructionClose]

theorem hasAsciiMark_ofMark {mark : Text} (h : mark ∈ marks) : (ofMark mark).HasAsciiMark := by
  simp only [marks, List.mem_cons, List.not_mem_nil, or_false] at h
  rcases h with rfl | rfl
  · exact ⟨sharp_echoClose, by simp [ofMark, echoClose, Text.IsAscii]⟩
  · exact ⟨sharp_instructionClose, by simp [ofMark, instructionClose, Text.IsAscii]⟩

theorem hasAsciiMark_paren : paren.HasAsciiMark :=
  ⟨⟨')', [], rfl, rfl⟩, by simp [paren, Text.IsAscii]⟩

theorem splitUnquoted?_eq {mark : Text} (h : mark ∈ marks) (t : Text) :
    splitUnquoted? mark none t = (ofMark mark).split? 0 .outside t :=
  splitUnquoted?_eq_split? (hasAsciiMark_ofMark h).sharp none (by simp) t

theorem splitParen?_eq (depth : Nat) (t : Text) :
    splitParen? depth none t = paren.split? depth .outside t :=
  splitParen?_eq_split? depth none (by simp) t

end Closer

/-! ## What marks enclose -/

theorem isSome_read?_of_run {quote : Char} {t : Text} (hq : Quoted.isQuote quote = true)
    (h : Quoting.outside.run (quote :: t) = .outside) :
    (Quoted.read? (quote :: t)).isSome = true := by
  rw [Quoting.run_cons, Quoting.next, if_pos hq] at h
  rw [Quoting.read?_cons, if_pos hq]
  cases t with
  | nil => cases h
  | cons c t =>
      have hinside : (Quoting.inside quote).run (c :: t) = .outside := h
      have hlast := Quoting.getLast?_outline hinside
      rw [Quoting.outline_inside hq] at hlast
      cases hread : Quoted.readBody? quote (c :: t) with
      | some found => rfl
      | none =>
          rw [hread] at hlast
          cases List.getLast?_eq_none_iff.1 hlast.symm

namespace Fragment

/-- What stands between the marks of an instruction, of an echo or of the arguments of a
directive. -/
inductive Encloses (f : Fragment) (inner : Text) : Prop
  | instruction (hkind : f.kind = .instruction inner)
  | echo (d : Directive) (hkind : f.kind = .directive d)
      (hraw : f.raw = echoOpen ++ inner ++ echoClose)
  | call (d : Directive) (k : Keyword) (gap : Text) (hkind : f.kind = .directive d)
      (hgap : ∀ c ∈ gap, isGap c = true)
      (hraw : f.raw = '@' :: k.spelling ++ gap ++ '(' :: inner ++ [')'])

theorem Encloses.kind_ne_text {f : Fragment} {inner : Text} (h : f.Encloses inner) :
    f.kind ≠ .text := by
  intro htext
  cases h with
  | instruction hkind =>
      rw [hkind] at htext
      cases htext
  | echo d hkind =>
      rw [hkind] at htext
      cases htext
  | call d k gap hkind =>
      rw [hkind] at htext
      cases htext

theorem paren_notMem_spelling (k : Keyword) : '(' ∉ k.spelling := by
  intro h
  cases isAlpha_of_spelling k '(' h

theorem dropWhile_call {k : Keyword} {gap : Text} (hgap : ∀ c ∈ gap, isGap c = true) (t : Text) :
    (k.spelling ++ gap ++ '(' :: t).dropWhile (· != '(') = '(' :: t := by
  rw [List.dropWhile_append_of_pos]
  · rfl
  · intro c hc
    rw [bne_iff_ne]
    rintro rfl
    rcases List.mem_append.1 hc with hword | hspace
    · exact paren_notMem_spelling k hword
    · cases hgap '(' hspace

theorem eq_of_call_eq {k k' : Keyword} {gap gap' arguments arguments' : Text}
    (hgap : ∀ c ∈ gap, isGap c = true) (hgap' : ∀ c ∈ gap', isGap c = true)
    (h : k.spelling ++ gap ++ '(' :: (arguments ++ [')']) =
      k'.spelling ++ gap' ++ '(' :: (arguments' ++ [')'])) : arguments = arguments' := by
  have hbehind := congrArg (List.dropWhile (· != '(')) h
  rw [dropWhile_call hgap, dropWhile_call hgap'] at hbehind
  exact List.append_cancel_right (List.cons.inj hbehind).2

theorem Encloses.run {f : Fragment} {inner : Text} (h : f.Encloses inner) (hf : f.IsFound) :
    Quoting.outside.run inner = .outside := by
  cases hf with
  | instruction hc hends =>
      cases h with
      | instruction hkind =>
          cases hkind
          exact hends.run (by simp [Closer.ofMark, instructionClose])
      | echo d hkind => cases hkind
      | call d k gap hkind => cases hkind
  | comment body =>
      cases h with
      | instruction hkind => cases hkind
      | echo d hkind => cases hkind
      | call d k gap hkind => cases hkind
  | echo hd hends =>
      cases h with
      | instruction hkind => cases hkind
      | echo d hkind hraw =>
          obtain rfl := List.append_cancel_left (List.append_cancel_right hraw)
          exact hends.run (by simp [Closer.ofMark, echoClose])
      | call d k gap hkind hgap hraw => cases hraw
  | call hcall =>
      cases hcall with
      | @closed k gap arguments rest d hk hgap hd hends =>
          cases h with
          | instruction hkind => cases hkind
          | echo d hkind hraw => cases hraw
          | call d' k' gap' hkind hgap' hraw =>
              obtain rfl := eq_of_call_eq hgap hgap' (by simpa using hraw)
              exact hends.run (by simp [Closer.paren])
      | @bare k rest d hk hd hrest =>
          cases h with
          | instruction hkind => cases hkind
          | echo d hkind hraw => cases hraw
          | call d' k' gap' hkind hgap' hraw =>
              have hopen : '(' ∈ k.spelling := by
                rw [(List.cons.inj hraw).2]
                simp
              exact absurd hopen (paren_notMem_spelling k)

theorem Encloses.isSome_read? {f : Fragment} {inner lead t : Text} {quote : Char}
    (h : f.Encloses inner) (hf : f.IsFound) (hinner : inner = lead ++ quote :: t)
    (hlead : Quoting.outside.run lead = .outside) (hq : Quoted.isQuote quote = true) :
    (Quoted.read? (quote :: t)).isSome = true := by
  have hrun := h.run hf
  rw [hinner, Quoting.run_append, hlead] at hrun
  exact isSome_read?_of_run hq hrun

end Fragment

/-! ## All scanners agree -/

open Closer (marks)

/-- A literal in front of `rest`, as the scanners take it: what they find behind it is what they
find at all, in characters and in bytes, and parentheses in front of it stay open. -/
structure IsPassed (literal rest : Text) : Prop where
  unquoted : ∀ mark ∈ marks, splitUnquoted? mark none (literal ++ rest) =
    prepend literal (splitUnquoted? mark none rest)
  reached : ∀ lead depth, Closer.paren.reach? (literal ++ rest) 0 .outside lead =
      some (depth, .outside) →
    Closer.paren.reach? rest 0 .outside (lead ++ literal) = some (depth, .outside)
  nested : ∀ lead depth, Closer.paren.reach? (literal ++ rest) 0 .outside lead =
      some (depth, .outside) →
    splitParen? 0 none (lead ++ (literal ++ rest)) =
      prepend (lead ++ literal) (splitParen? depth none rest)
  unquotedBytes : ∀ mark ∈ marks, ∀ i,
    (Closer.ofMark mark).stop? 0 none i (bytes (literal ++ rest)) =
      (Closer.ofMark mark).stop? 0 none (i + utf8Length literal) (bytes rest)
  nestedBytes : ∀ depth i, Closer.paren.stop? depth none i (bytes (literal ++ rest)) =
    Closer.paren.stop? depth none (i + utf8Length literal) (bytes rest)

theorem isPassed_of_isLiteral {literal text : Text} (h : IsLiteral literal text) (rest : Text) :
    IsPassed literal rest where
  unquoted mark hmark := by
    rw [Closer.splitUnquoted?_eq hmark, Closer.splitUnquoted?_eq hmark]
    exact Closer.split?_literal (Closer.hasAsciiMark_ofMark hmark) h rest
  reached lead depth hreach := by
    rw [Closer.reach?_append, hreach, Option.bind_some]
    exact Closer.reach?_literal Closer.hasAsciiMark_paren h rest
  nested lead depth hreach := by
    rw [Closer.splitParen?_eq, Closer.split?_of_reach? hreach, Closer.splitParen?_eq,
      Closer.split?_literal Closer.hasAsciiMark_paren h, Closer.prepend_prepend]
  unquotedBytes mark hmark i := Closer.stop?_literal (Closer.hasAsciiMark_ofMark hmark) h rest
  nestedBytes depth i := Closer.stop?_literal Closer.hasAsciiMark_paren h rest

structure IsHidden (t : Text) : Prop where
  unquoted : ∀ mark ∈ marks, splitUnquoted? mark none t = none
  nested : ∀ lead depth, Closer.paren.reach? t 0 .outside lead = some (depth, .outside) →
    splitParen? 0 none (lead ++ t) = none
  unquotedBytes : ∀ mark ∈ marks, ∀ i, (Closer.ofMark mark).stop? 0 none i (bytes t) = none
  nestedBytes : ∀ depth i, Closer.paren.stop? depth none i (bytes t) = none

theorem isHidden_of_read? {quote : Char} {t : Text} (hq : Quoted.isQuote quote = true)
    (h : Quoted.read? (quote :: t) = none) : IsHidden (quote :: t) where
  unquoted mark hmark := by
    rw [Closer.splitUnquoted?_eq hmark]
    exact Closer.split?_of_read?_eq_none (Closer.hasAsciiMark_ofMark hmark) hq h
  nested lead depth hreach := by
    rw [Closer.splitParen?_eq, Closer.split?_of_reach? hreach,
      Closer.split?_of_read?_eq_none Closer.hasAsciiMark_paren hq h]
    rfl
  unquotedBytes mark hmark i :=
    Closer.stop?_of_read?_eq_none (Closer.hasAsciiMark_ofMark hmark) hq h
  nestedBytes depth i := Closer.stop?_of_read?_eq_none Closer.hasAsciiMark_paren hq h

structure AgreeOnLiterals (t : Text) : Prop where
  unquotedBytes : ∀ mark ∈ marks, ∀ i, (Closer.ofMark mark).stop? 0 none i (bytes t) =
    (splitUnquoted? mark none t).map fun found => i + utf8Length found.1
  nestedBytes : ∀ depth i, Closer.paren.stop? depth none i (bytes t) =
    (splitParen? depth none t).map fun found => i + utf8Length found.1
  passed : ∀ text n, Text.measure? Quoted.read? t = some (text, n) →
    ∃ literal rest, t = literal ++ rest ∧ utf8Length literal = n ∧ IsPassed literal rest
  hidden : Text.measure? Quoted.read? t = none → IsHidden t
  whole : ∀ source, ∀ f ∈ Fragment.ofText source, ∀ inner lead, f.Encloses inner →
    inner = lead ++ t → Quoting.outside.run lead = .outside →
      ∃ text n, Text.measure? Quoted.read? t = some (text, n)

theorem agreeOnLiterals {quote : Char} (hq : Quoted.isQuote quote = true) (t : Text) :
    AgreeOnLiterals (quote :: t) where
  unquotedBytes mark hmark i := by
    rw [Closer.splitUnquoted?_eq hmark]
    exact Closer.stop?_bytes (Closer.hasAsciiMark_ofMark hmark) (quote :: t)
  nestedBytes depth i := by
    rw [Closer.splitParen?_eq]
    exact Closer.stop?_bytes Closer.hasAsciiMark_paren (quote :: t)
  passed text n h := by
    obtain ⟨literal, rest, ht, hn, hread⟩ :=
      Text.exists_of_measure? (fun _ _ => Quoted.suffix_of_read?) h
    obtain ⟨literal', hliteral, hspelled⟩ := Quoted.read?_eq_some_iff.1 hread
    rw [ht] at hliteral
    obtain rfl := List.append_cancel_right hliteral
    exact ⟨literal, rest, ht, hn.symm, isPassed_of_isLiteral hspelled rest⟩
  hidden h := isHidden_of_read? hq (Text.measure?_eq_none_iff.1 h)
  whole source f hf inner lead hencloses hinner hlead := by
    have hfound := (Fragment.isFound_of_mem hf).resolve_left hencloses.kind_ne_text
    have hsome := hencloses.isSome_read? hfound hinner hlead hq
    obtain ⟨⟨text, rest⟩, hread⟩ := Option.isSome_iff_exists.1 hsome
    exact ⟨text, _, by rw [Text.measure?, hread, Option.map_some]⟩

/-- Marks and parentheses in a literal, which has an escaped quote and a wide character behind a
backslash, and once more behind it; then a quote that is not closed. -/
def marksWithin : Text := "\x7d\x7d ?> ) \\'\\é' ) \x7d\x7d ?> \" )".toList

theorem agreeOnLiterals_marksWithin :
    Quoted.isQuote '\'' = true ∧ AgreeOnLiterals ('\'' :: marksWithin) ∧
      Text.measure? Quoted.read? ('\'' :: marksWithin) = some ("\x7d\x7d ?> ) '\\é".toList, 15) ∧
      splitUnquoted? echoClose none ('\'' :: marksWithin) =
        some ("'\x7d\x7d ?> ) \\'\\é' ) ".toList, " ?> \" )".toList) ∧
      splitParen? 0 none ('\'' :: marksWithin) =
        some ("'\x7d\x7d ?> ) \\'\\é' ".toList, " \x7d\x7d ?> \" )".toList) ∧
      Quoted.isQuote '"' = true ∧ AgreeOnLiterals ['"', ' ', ')'] ∧
      Text.measure? Quoted.read? ['"', ' ', ')'] = none := by
  have hsingle : Quoted.isQuote '\'' = true := by decide
  have hdouble : Quoted.isQuote '"' = true := by decide
  exact ⟨hsingle, agreeOnLiterals hsingle marksWithin, by decide +kernel, by decide +kernel,
    by decide +kernel, hdouble, agreeOnLiterals hdouble [' ', ')'], by decide +kernel⟩

end Stencil.Template
