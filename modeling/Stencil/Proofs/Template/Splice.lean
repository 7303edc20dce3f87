import Stencil.Proofs.Template.Recognition

/-!
# Directives and their instructions

A directive and the instruction that is written for it have the same text in
them, with plain text on either side.  A source and its compiled text differ in
nothing but what stands on either side, directive by directive.
-/

namespace Stencil.Template

open Quoting

/-! ## Arguments -/

namespace Fragment

def argument (f : Fragment) : Text :=
  match f.kind with
  | .directive (.echo _) => (f.raw.drop 2).dropLast.dropLast
  | _ => ((f.raw.dropWhile (· != '(')).drop 1).dropLast

/-- No comment; and the name of an embedded template is written as `Quoted.quote` writes it. -/
def isCanonical (f : Fragment) : Bool :=
  match f.kind with
  | .comment => false
  | .directive (.embed name) => Text.trim f.argument == Quoted.quote name
  | _ => true

theorem isCanonical_of {f : Fragment} (hcomment : f.kind ≠ .comment)
    (hembed : ∀ name, f.kind = .directive (.embed name) →
      Text.trim f.argument = Quoted.quote name) : f.isCanonical = true := by
  unfold isCanonical
  split
  · next h => exact absurd h hcomment
  · next name h => rw [hembed name h, beq_self_eq_true]
  · rfl

theorem argument_echo (argument : Text) (a : Text) :
    (⟨.directive (.echo a), echoOpen ++ argument ++ echoClose⟩ : Fragment).argument = argument := by
  simp [Fragment.argument, echoOpen, echoClose]

theorem argument_closed {k : Keyword} {gap : Text} (arguments : Text) {d : Directive}
    (hd : ∀ a, d ≠ .echo a) (hgap : ∀ c ∈ gap, isGap c = true) :
    (⟨.directive d, '@' :: k.spelling ++ gap ++ '(' :: arguments ++ [')']⟩ : Fragment).argument =
      arguments := by
  have hword : ∀ c ∈ '@' :: k.spelling, (c != '(') = true := by
    cases k <;> simp [Keyword.spelling]
  have hlead : ∀ c ∈ '@' :: k.spelling ++ gap, (c != '(') = true := by
    intro c hc
    rcases List.mem_append.1 hc with hc | hc
    · exact hword c hc
    · have hc' := hgap c hc
      simp only [isGap, Bool.or_eq_true, beq_iff_eq] at hc'
      rcases hc' with rfl | rfl <;> rfl
  have hdrop : ('@' :: k.spelling ++ gap ++ '(' :: arguments ++ [')']).dropWhile (· != '(') =
      '(' :: arguments ++ [')'] := by
    rw [List.append_assoc _ _ [')'], List.dropWhile_append_of_pos hlead]
    rfl
  unfold Fragment.argument
  split
  · next a he =>
    cases he
    exact absurd rfl (hd a)
  · rw [hdrop]
    simp

end Fragment

theorem ne_echo_of_directive? {k : Keyword} {arguments : Text} {d : Directive}
    (h : k.directive? arguments = some d) (a : Text) : d ≠ .echo a := by
  rintro rfl
  cases Keyword.directive?_eq_some_iff.1 h

/-! ## Sealed content -/

def IsFront (front : Text) : Prop := ∀ c ∈ front, c.isAlpha = true ∨ c = ' '

theorem IsFront.ne {front : Text} (h : IsFront front) {c : Char} (hc : c ∈ front) :
    Quoted.isQuote c = false ∧ c ≠ '\\' ∧ c ≠ '?' ∧ c ≠ '-' := by
  have hclass : (fun c : Char => c.isAlpha || c == ' ') c = true := by
    rcases h c hc with hc | rfl
    · simp [hc]
    · rfl
  refine ⟨Alike.isQuote_of_class (p := fun c => c.isAlpha || c == ' ') (by decide) (by decide)
    hclass, ?_, ?_, ?_⟩
  all_goals
    rintro rfl
    cases hclass

theorem IsFront.isPlain {front : Text} (h : IsFront front) : IsPlain front :=
  fun _ hc => ⟨(h.ne hc).1, (h.ne hc).2.1⟩

theorem IsFront.isSealed {front body : Text} (h : IsFront front)
    (hrun : outside.run body = .outside) (hbody : Paired (outside.outline body)) :
    IsSealed (front ++ body) := by
  have hq : ∀ c ∈ front, Quoted.isQuote c = false := fun c hc => (h.ne hc).1
  have hmark : '?' ∉ front := fun hc => (h.ne hc).2.2.1 rfl
  have hfront := run_outside_of_isPlain hq
  constructor
  · rw [run_append, hfront, hrun]
  · rw [outline_append, hfront, outline_outside_of_isPlain hq]
    exact (hbody.append hmark).silent

/-- A directive, and the content of its instruction: plain text around one body. -/
inductive IsSpliced : Text → Text → Prop
  | mk {lead body tail front : Text} (hlead : IsPlain lead)
      (hhead : ∃ c rest, lead = c :: rest ∧ (c = '{' ∨ c = '@')) (htail : IsPlain tail)
      (hne : tail ≠ []) (hfront : IsFront front) (hsealed : IsSealed (front ++ body)) :
      IsSpliced (lead ++ (body ++ tail)) (front ++ body)

theorem IsSpliced.isSealed {raw content : Text} (h : IsSpliced raw content) : IsSealed content := by
  cases h
  assumption

theorem isSpliced_withArgument {opening closing arguments word : Text} (hopen : IsPlain opening)
    (hhead : ∃ c rest, opening = c :: rest ∧ (c = '{' ∨ c = '@')) (hclose : IsPlain closing)
    (hne : closing ≠ []) (hword : ∀ c ∈ word, c.isAlpha = true)
    (hrun : outside.run arguments = .outside)
    (hpaired : Paired (outside.outline (Text.trim arguments))) :
    IsSpliced (opening ++ (arguments ++ closing)) (withArgument word (Text.trim arguments)) := by
  obtain ⟨lead, tail, hlead, htail, harguments⟩ := Text.exists_eq_trim arguments
  have hfront : IsFront (word ++ [' ']) := by
    intro c hc
    rcases List.mem_append.1 hc with hc | hc
    · exact Or.inl (hword c hc)
    · exact Or.inr (List.mem_singleton.1 hc)
  have hhead' : ∃ c rest, opening ++ lead = c :: rest ∧ (c = '{' ∨ c = '@') := by
    obtain ⟨c, rest, rfl, hc⟩ := hhead
    exact ⟨c, rest ++ lead, rfl, hc⟩
  have hsplice := IsSpliced.mk (hopen.append (isPlain_of_isBlank hlead)) hhead'
    ((isPlain_of_isBlank htail).append hclose) (by simp [hne]) hfront
    (hfront.isSealed (run_trim hrun) hpaired)
  have hraw : opening ++ (arguments ++ closing) =
      opening ++ lead ++ (Text.trim arguments ++ (tail ++ closing)) := by
    have happend := congrArg (fun t => opening ++ (t ++ closing)) harguments
    simpa using happend
  rw [hraw, withArgument]
  simpa using hsplice

namespace Fragment

def content? (f : Fragment) : Option Text := f.directive?.bind Directive.content?

theorem compiled_of_content? {f : Fragment} {content : Text} (h : f.content? = some content) :
    f.compiled = instructionText content := by
  obtain ⟨kind, raw⟩ := f
  cases kind with
  | directive d =>
      have hd : d.content? = some content := h
      simp only [compiled, hd]
  | text | comment | instruction _ => cases h

theorem content?_of_directive? {k : Keyword} {arguments : Text} {d : Directive}
    (hk : k.takesArguments = true) (hd : k.directive? arguments = some d)
    (hjoin : d.isInheritance = false)
    (hembed : ∀ name, d = .embed name → Text.trim arguments = Quoted.quote name) :
    d.content? = some (withArgument k.spelling (Text.trim arguments)) ∧
      Paired (outside.outline (Text.trim arguments)) := by
  cases Keyword.directive?_eq_some_iff.1 hd with
  | ifStart he | elseIf he => exact ⟨rfl, paired_of_parse he⟩
  | loopStart hh => exact ⟨rfl, paired_trim_of_loopHead hh⟩
  | @embed name hn =>
      rw [hembed name rfl]
      exact ⟨rfl, paired_of_skips_nil (.of_read? (read?_quote name))⟩
  | inherit _ | sectionStart _ | slot _ => cases hjoin
  | otherwise | ifEnd | loopEnd | sectionEnd => cases hk

theorem isPlain_spelling (k : Keyword) : IsPlain k.spelling := by
  unfold IsPlain
  cases k <;> simp [Keyword.spelling, Quoted.isQuote]

theorem isPlain_of_isGap {gap : Text} (h : ∀ c ∈ gap, isGap c = true) : IsPlain gap := by
  intro c hc
  have hc' := h c hc
  simp only [isGap, Bool.or_eq_true, beq_iff_eq] at hc'
  rcases hc' with rfl | rfl <;> decide

theorem isSpliced_of_isCall {f : Fragment} {rest : Text} (h : IsCall f rest)
    (hkept : f.isKept = false) (hc : f.isCanonical = true) :
    ∃ content, IsSpliced f.raw content ∧ f.content? = some content := by
  have hat : IsPlain ['@'] := by simp [IsPlain, Quoted.isQuote]
  cases h with
  | @closed k gap arguments _ d hk hgap hd hends =>
      have hembed : ∀ name, d = .embed name → Text.trim arguments = Quoted.quote name := by
        rintro name rfl
        have harguments := argument_closed (k := k) arguments (ne_echo_of_directive? hd) hgap
        simp only [isCanonical, harguments, beq_iff_eq] at hc
        exact hc
      obtain ⟨hcontent, hpaired⟩ := content?_of_directive? hk hd hkept hembed
      have hopen : IsPlain (['@'] ++ k.spelling ++ gap ++ ['(']) :=
        ((hat.append (isPlain_spelling k)).append (isPlain_of_isGap hgap)).append
          (by simp [IsPlain, Quoted.isQuote])
      have hclose : IsPlain [')'] := by simp [IsPlain, Quoted.isQuote]
      have hsplice := isSpliced_withArgument hopen ⟨'@', _, rfl, Or.inr rfl⟩ hclose (by simp)
        (isAlpha_of_spelling k) (hends.run (by simp [Closer.paren])) hpaired
      refine ⟨_, ?_, hcontent⟩
      simpa using hsplice
  | @bare k _ d hk hd hrest =>
      have hcontent : d.content? = some (k.spelling ++ []) := by
        cases Keyword.directive?_eq_some_iff.1 hd with
        | otherwise | ifEnd | loopEnd => rfl
        | sectionEnd => cases hkept
        | ifStart _ | elseIf _ | loopStart _ | embed _ | inherit _ | sectionStart _ | slot _ =>
            cases hk
      have hfront : IsFront k.spelling := fun c hc => Or.inl (isAlpha_of_spelling k c hc)
      have hne : k.spelling ≠ [] := by cases k <;> simp [Keyword.spelling]
      have hsealed : IsSealed (k.spelling ++ []) := hfront.isSealed rfl Paired.nil
      have hsplice := IsSpliced.mk hat ⟨'@', [], rfl, Or.inr rfl⟩ (isPlain_spelling k) hne hfront
        hsealed
      exact ⟨_, hsplice, hcontent⟩

theorem isSpliced_of_isFound {f : Fragment} (h : f.IsFound) (hkept : f.isKept = false)
    (hc : f.isCanonical = true) :
    ∃ content, IsSpliced f.raw content ∧ f.content? = some content := by
  cases h with
  | instruction => cases hkept
  | comment => cases hc
  | @echo argument d hd hends =>
      obtain ⟨rfl, i, hi⟩ := Directive.echo?_eq_some_iff.1 hd
      have hopen : IsPlain echoOpen := by simp [IsPlain, echoOpen, Quoted.isQuote]
      have hclose : IsPlain echoClose := by simp [IsPlain, echoClose, Quoted.isQuote]
      have hrun := hends.run (by simp [Closer.ofMark, echoClose])
      have hword : ∀ c ∈ ['e', 'c', 'h', 'o'], c.isAlpha = true := by simp
      have hsplice := isSpliced_withArgument hopen ⟨'{', ['{'], rfl, Or.inl rfl⟩ hclose
        (by simp [echoClose]) hword hrun (paired_of_interpolation hi)
      refine ⟨_, ?_, rfl⟩
      simpa using hsplice
  | call hcall => exact isSpliced_of_isCall hcall hkept hc

end Fragment

end Stencil.Template
