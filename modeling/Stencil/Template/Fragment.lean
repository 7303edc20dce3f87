import Stencil.Template.Directive
import Stencil.Template.Scan

/-!
# Fragments

A text is cut into fragments at its directives, comments and instructions.
Whatever is not well formed stays literal text, and the fragments of a text,
written one after the other, are that text.
-/

namespace Stencil.Template

/-! ## Marks -/

def instructionOpen : Text := ['<', '?', 'e', 'l', 'l', 'e']

def instructionClose : Text := ['?', '>']

def commentOpen : Text := ['{', '{', '-', '-']

def commentClose : Text := ['-', '-', '}', '}']

def echoOpen : Text := ['{', '{']

def echoClose : Text := ['}', '}']

/-! ## Fragments -/

inductive FragmentKind where
  | text
  | comment
  | instruction (body : Text)
  | directive (d : Directive)
deriving DecidableEq, Repr

structure Fragment where
  kind : FragmentKind
  raw : Text
deriving DecidableEq, Repr

namespace Fragment

def directive? (f : Fragment) : Option Directive :=
  match f.kind with
  | .directive d => some d
  | _ => none

def isBlank (f : Fragment) : Bool := f.kind == .text && f.raw.all Text.isWhite

/-! ## Recognisers -/

/-- An instruction; white space must follow its opening mark. -/
def instruction? (t : Text) : Option (Fragment × Text) :=
  match Text.after? instructionOpen t with
  | some (c :: t) =>
    if Text.isWhite c then
      (splitUnquoted? instructionClose none (c :: t)).map fun (body, rest) =>
        (⟨.instruction body, instructionOpen ++ body ++ instructionClose⟩, rest)
    else none
  | _ => none

def comment? (t : Text) : Option (Fragment × Text) :=
  match Text.after? commentOpen t with
  | some t =>
    (Text.splitAt? commentClose t).map fun (body, rest) =>
      (⟨.comment, commentOpen ++ body ++ commentClose⟩, rest)
  | none => none

def echo? (t : Text) : Option (Fragment × Text) :=
  match Text.after? echoOpen t with
  | some t =>
    match splitUnquoted? echoClose none t with
    | some (body, rest) =>
      (Directive.echo? body).map fun d =>
        (⟨.directive d, echoOpen ++ body ++ echoClose⟩, rest)
    | none => none
  | none => none

/-- The word of letters at the start of a text, unless an identifier goes on after it. -/
def word? (t : Text) : Option (Text × Text) :=
  if (t.dropWhile Char.isAlpha).head?.any isIdentPart then none
  else some (t.takeWhile Char.isAlpha, t.dropWhile Char.isAlpha)

def isGap (c : Char) : Bool := c == ' ' || c == '\t'

def keyword? (t : Text) : Option (Fragment × Text) :=
  match word? t with
  | none => none
  | some (word, rest) =>
    match Keyword.ofWord? word with
    | none => none
    | some k =>
      if k.takesArguments then
        match rest.dropWhile isGap with
        | '(' :: t =>
          match splitParen? 0 none t with
          | some (arguments, after) =>
            (k.directive? arguments).map fun d =>
              (⟨.directive d,
                '@' :: word ++ rest.takeWhile isGap ++ '(' :: arguments ++ [')']⟩, after)
          | none => none
        | _ => none
      else (k.directive? []).map fun d => (⟨.directive d, '@' :: word⟩, rest)

def recognise? : Text → Option (Fragment × Text)
  | '<' :: t => instruction? ('<' :: t)
  | '{' :: t =>
    match comment? ('{' :: t) with
    | some comment => some comment
    | none => echo? ('{' :: t)
  | '@' :: t => keyword? t
  | _ => none

/-! ## Recognisers lose nothing -/

theorem eq_of_instruction? {t rest : Text} {f : Fragment}
    (h : instruction? t = some (f, rest)) : t = f.raw ++ rest := by
  unfold instruction? at h
  split at h
  · next c t' ht =>
    split at h
    · obtain ⟨⟨body, r⟩, hs, h⟩ := Option.map_eq_some_iff.1 h
      simp only [Prod.mk.injEq] at h
      obtain ⟨rfl, rfl⟩ := h
      simp [Text.after?_eq_some_iff.1 ht, eq_of_splitUnquoted? hs]
    · simp at h
  · simp at h

theorem eq_of_comment? {t rest : Text} {f : Fragment}
    (h : comment? t = some (f, rest)) : t = f.raw ++ rest := by
  unfold comment? at h
  split at h
  · next t' ht =>
    obtain ⟨⟨body, r⟩, hs, h⟩ := Option.map_eq_some_iff.1 h
    simp only [Prod.mk.injEq] at h
    obtain ⟨rfl, rfl⟩ := h
    simp [Text.after?_eq_some_iff.1 ht, Text.eq_of_splitAt? hs]
  · simp at h

theorem eq_of_echo? {t rest : Text} {f : Fragment}
    (h : echo? t = some (f, rest)) : t = f.raw ++ rest := by
  unfold echo? at h
  split at h
  · next t' ht =>
    split at h
    · next body r hs =>
      obtain ⟨d, -, h⟩ := Option.map_eq_some_iff.1 h
      simp only [Prod.mk.injEq] at h
      obtain ⟨rfl, rfl⟩ := h
      simp [Text.after?_eq_some_iff.1 ht, eq_of_splitUnquoted? hs]
    · simp at h
  · simp at h

theorem eq_of_word? {t word rest : Text} (h : word? t = some (word, rest)) :
    t = word ++ rest := by
  unfold word? at h
  split at h
  · simp at h
  · simp only [Option.some.injEq, Prod.mk.injEq] at h
    obtain ⟨rfl, rfl⟩ := h
    simp

theorem eq_of_keyword? {t rest : Text} {f : Fragment}
    (h : keyword? t = some (f, rest)) : '@' :: t = f.raw ++ rest := by
  unfold keyword? at h
  split at h
  · simp at h
  · next word r hw =>
    split at h
    · simp at h
    · next k hk =>
      split at h
      · split at h
        · next t' ht =>
          split at h
          · next arguments after hs =>
            obtain ⟨d, -, h⟩ := Option.map_eq_some_iff.1 h
            simp only [Prod.mk.injEq] at h
            obtain ⟨rfl, rfl⟩ := h
            have hr : r = r.takeWhile isGap ++ '(' :: t' := by
              rw [← ht, List.takeWhile_append_dropWhile]
            rw [eq_of_splitParen? hs] at hr
            simp [eq_of_word? hw, ← hr]
          · simp at h
        · simp at h
      · obtain ⟨d, -, h⟩ := Option.map_eq_some_iff.1 h
        simp only [Prod.mk.injEq] at h
        obtain ⟨rfl, rfl⟩ := h
        simp [eq_of_word? hw]

theorem eq_of_recognise? {t rest : Text} {f : Fragment}
    (h : recognise? t = some (f, rest)) : t = f.raw ++ rest := by
  unfold recognise? at h
  split at h
  · exact eq_of_instruction? h
  · split at h
    · next comment hc =>
      simp only [Option.some.injEq] at h
      exact eq_of_comment? (h ▸ hc)
    · exact eq_of_echo? h
  · exact eq_of_keyword? h
  · simp at h

theorem raw_ne_nil_of_instruction? {t rest : Text} {f : Fragment}
    (h : instruction? t = some (f, rest)) : f.raw ≠ [] := by
  unfold instruction? at h
  split at h
  · split at h
    · obtain ⟨⟨body, r⟩, -, h⟩ := Option.map_eq_some_iff.1 h
      simp only [Prod.mk.injEq] at h
      simp [← h.1, instructionOpen]
    · simp at h
  · simp at h

theorem raw_ne_nil_of_comment? {t rest : Text} {f : Fragment}
    (h : comment? t = some (f, rest)) : f.raw ≠ [] := by
  unfold comment? at h
  split at h
  · obtain ⟨⟨body, r⟩, -, h⟩ := Option.map_eq_some_iff.1 h
    simp only [Prod.mk.injEq] at h
    simp [← h.1, commentOpen]
  · simp at h

theorem raw_ne_nil_of_echo? {t rest : Text} {f : Fragment}
    (h : echo? t = some (f, rest)) : f.raw ≠ [] := by
  unfold echo? at h
  split at h
  · split at h
    · obtain ⟨d, -, h⟩ := Option.map_eq_some_iff.1 h
      simp only [Prod.mk.injEq] at h
      simp [← h.1, echoOpen]
    · simp at h
  · simp at h

theorem raw_ne_nil_of_keyword? {t rest : Text} {f : Fragment}
    (h : keyword? t = some (f, rest)) : f.raw ≠ [] := by
  unfold keyword? at h
  repeat' split at h
  all_goals first
    | (obtain ⟨d, -, h⟩ := Option.map_eq_some_iff.1 h
       simp only [Prod.mk.injEq] at h
       simp [← h.1])
    | simp at h

theorem raw_ne_nil_of_recognise? {t rest : Text} {f : Fragment}
    (h : recognise? t = some (f, rest)) : f.raw ≠ [] := by
  unfold recognise? at h
  split at h
  · exact raw_ne_nil_of_instruction? h
  · split at h
    · next comment hc =>
      simp only [Option.some.injEq] at h
      exact raw_ne_nil_of_comment? (h ▸ hc)
    · exact raw_ne_nil_of_echo? h
  · exact raw_ne_nil_of_keyword? h
  · simp at h

theorem length_of_recognise? {t rest : Text} {f : Fragment}
    (h : recognise? t = some (f, rest)) : rest.length < t.length := by
  have := List.length_pos_iff.2 (raw_ne_nil_of_recognise? h)
  rw [eq_of_recognise? h, List.length_append]
  omega

/-! ## Cutting a text -/

def consChar (c : Char) : List Fragment → List Fragment
  | ⟨.text, raw⟩ :: fragments => ⟨.text, c :: raw⟩ :: fragments
  | fragments => ⟨.text, [c]⟩ :: fragments

def ofText : Text → List Fragment
  | [] => []
  | c :: t =>
    match h : recognise? (c :: t) with
    | some (f, rest) =>
      have : rest.length < (c :: t).length := length_of_recognise? h
      f :: ofText rest
    | none => consChar c (ofText t)
termination_by t => t.length
decreasing_by
  · exact this
  · exact Nat.lt_succ_self _

def toText (fragments : List Fragment) : Text := fragments.flatMap raw

@[simp] theorem toText_nil : toText [] = [] := rfl

@[simp] theorem toText_cons (f : Fragment) (fragments : List Fragment) :
    toText (f :: fragments) = f.raw ++ toText fragments := by
  simp [toText]

@[simp] theorem toText_consChar (c : Char) (fragments : List Fragment) :
    toText (consChar c fragments) = c :: toText fragments := by
  unfold consChar
  split <;> simp

@[simp] theorem toText_ofText (t : Text) : toText (ofText t) = t := by
  fun_induction ofText t with
  | case1 => rfl
  | case2 c t f rest h _ ih => rw [toText_cons, ih, eq_of_recognise? h]
  | case3 c t h ih => rw [toText_consChar, ih]

end Fragment

end Stencil.Template
