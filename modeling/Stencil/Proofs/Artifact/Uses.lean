import Stencil.Artifact.Uses
import Stencil.Proofs.Template.Instruction

/-!
# The record of layouts read back

The record that an artifact starts with is read as the layouts that it was
written for, in their order, and what follows it is read as it would be alone.
-/

namespace Stencil.Artifact

open Stencil.Template

theorem isTrimmed_withArgument {c : Char} {word argument : Text} (hc : Text.isWhite c = false)
    (harg : Text.IsTrimmed argument) (hne : argument ≠ []) :
    Text.IsTrimmed (withArgument (c :: word) argument) := by
  constructor
  · intro d hd
    simp only [withArgument, List.cons_append, List.head?_cons, Option.mem_some_iff] at hd
    exact hd ▸ hc
  · intro d hd
    refine harg.2 d ?_
    cases argument with
    | nil => exact (hne rfl).elim
    | cons a argument =>
        rw [withArgument, List.getLast?_append] at hd
        simpa using hd

theorem trim_ofContent {content : Text} (h : Text.IsTrimmed content) :
    Text.trim (' ' :: content ++ [' ']) = content := by
  have hblank : Text.IsBlank [' '] := by
    intro c hc
    simp only [List.mem_singleton] at hc
    subst hc
    decide
  exact Text.trim_pad hblank h hblank

def usesContent (name : Text) : Text := withArgument usesWord (Quoted.quote name)

theorem isSealed_usesContent (name : Text) : IsSealed (usesContent name) :=
  isSealed_quote (by simp [usesWord, Quoted.isQuote]) name

theorem usedLayout?_ofContent {name : Text} (h : name ≠ []) :
    usedLayout? (Fragment.ofContent (usesContent name)) = some name := by
  have htrim : Text.trim (' ' :: usesContent name ++ [' ']) = usesContent name :=
    trim_ofContent
      (isTrimmed_withArgument (by decide) (isTrimmed_quote name) (by simp [Quoted.quote]))
  have hafter : Text.after? (usesWord ++ [' ']) (usesContent name) = some (Quoted.quote name) := by
    rw [Text.after?_eq_some_iff]
    simp [usesContent, withArgument]
  have hname : quotedName? (Quoted.quote name) = some name := by
    simp [quotedName?, Quoting.read?_quote, h]
  simp only [usedLayout?, Fragment.ofContent, htrim, hafter,
    Text.trim_eq_self (isTrimmed_quote name), hname]

theorem header_cons (name : Text) (names : List Text) :
    header (name :: names) = instructionText (usesContent name) ++ header names := by
  simp [header, usesContent]

theorem ofText_header_append (names : List Text) (rest : Text) :
    Fragment.ofText (header names ++ rest) =
      names.map (Fragment.ofContent ∘ usesContent) ++ Fragment.ofText rest := by
  induction names with
  | nil => simp [header]
  | cons name names ih =>
      have hfirst := Fragment.recognise?_instructionText (isSealed_usesContent name)
        (header names ++ rest)
      rw [header_cons, List.append_assoc, Fragment.ofText_of_recognise? hfirst, ih]
      rfl

theorem leadingLayouts_uses_append (names : List Text) (h : [] ∉ names)
    (fragments : List Fragment) :
    leadingLayouts (names.map (Fragment.ofContent ∘ usesContent) ++ fragments) =
      names ++ leadingLayouts fragments := by
  induction names with
  | nil => rfl
  | cons name names ih =>
      obtain ⟨hname, hnames⟩ := not_or.1 (List.mem_cons.not.1 h)
      rw [List.map_cons, List.cons_append, leadingLayouts, Function.comp_apply,
        usedLayout?_ofContent (Ne.symm hname)]
      exact congrArg (name :: ·) (ih hnames)

theorem dependencies_header_append (names : List Text) (h : [] ∉ names) (rest : Text) :
    dependencies (header names ++ rest) = names ++ dependencies rest := by
  rw [dependencies, ofText_header_append, leadingLayouts_uses_append names h]
  rfl

end Stencil.Artifact
