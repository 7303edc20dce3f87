import Stencil.Proofs.Artifact.Uses
import Stencil.Proofs.Template.Recompiling

/-!
# Directives read back from an artifact

An artifact has a piece for every fragment of its source.  The instruction that
stands for a directive is read with the keyword and the argument of the
directive, and what is read from the argument is what the source says.
-/

namespace Stencil.Artifact

open Stencil.Template Quoting

/-! ## Pieces -/

def wordOf : Directive → Text
  | .echo _ => echoWord
  | .ifStart _ => Keyword.ifStart.spelling
  | .elseIf _ => Keyword.elseIf.spelling
  | .otherwise => Keyword.otherwise.spelling
  | .ifEnd => Keyword.ifEnd.spelling
  | .loopStart _ => Keyword.loopStart.spelling
  | .loopEnd => Keyword.loopEnd.spelling
  | .embed _ => Keyword.embed.spelling
  | .inherit _ => Keyword.inherit.spelling
  | .sectionStart _ _ => Keyword.sectionStart.spelling
  | .sectionEnd => Keyword.sectionEnd.spelling
  | .slot _ _ => Keyword.slot.spelling

theorem ofBody_eq {body word rest : Text} (hbody : Text.trim body = word ++ rest)
    (hword : ∀ c ∈ word, Text.isWhite c = false) (hrest : ∀ c ∈ rest.head?, Text.isWhite c = true) :
    Piece.ofBody body = .instruction word (Text.trim rest) := by
  have hkeep : ∀ c ∈ word, (!Text.isWhite c) = true := fun c hc => by rw [hword c hc]; rfl
  have hstop : rest.takeWhile (fun c => !Text.isWhite c) = [] ∧
      rest.dropWhile (fun c => !Text.isWhite c) = rest := by
    cases rest with
    | nil => exact ⟨rfl, rfl⟩
    | cons c rest => simp [hrest c rfl]
  have htake : (word ++ rest).takeWhile (fun c => !Text.isWhite c) = word := by
    rw [List.takeWhile_append_of_pos hkeep, hstop.1, List.append_nil]
  have hdrop : (word ++ rest).dropWhile (fun c => !Text.isWhite c) = rest := by
    rw [List.dropWhile_append_of_pos hkeep, hstop.2]
  simp only [Piece.ofBody, hbody, htake, hdrop]

theorem isBlank_space : Text.IsBlank [' '] := by
  intro c hc
  obtain rfl := List.mem_singleton.1 hc
  rfl

theorem isTrimmed_of_notWhite {word : Text} (hword : ∀ c ∈ word, Text.isWhite c = false) :
    Text.IsTrimmed word :=
  ⟨fun c hc => hword c (List.mem_of_mem_head? hc),
    fun c hc => hword c (List.mem_of_mem_getLast? hc)⟩

theorem ofFragment_withArgument {word argument : Text} (hne : word ≠ [])
    (hword : ∀ c ∈ word, Text.isWhite c = false) (harg : Text.IsTrimmed argument) :
    Piece.ofFragment (Fragment.ofContent (withArgument word argument)) =
      .instruction word argument := by
  by_cases hnil : argument = []
  · subst hnil
    have htrim : Text.trim (' ' :: (word ++ [' ']) ++ [' ']) = word ++ [] := by
      have hpad := Text.trim_pad isBlank_space (isTrimmed_of_notWhite hword)
        (isBlank_space.append isBlank_space)
      simpa using hpad
    exact ofBody_eq htrim hword (by simp)
  · obtain ⟨c, more, rfl⟩ := List.exists_cons_of_ne_nil hne
    have hc := hword c List.mem_cons_self
    have htrim : Text.trim (' ' :: withArgument (c :: more) argument ++ [' ']) =
        c :: more ++ ' ' :: argument :=
      trim_ofContent (isTrimmed_withArgument hc harg hnil)
    have hargument : Text.trim ([' '] ++ argument ++ []) = argument :=
      Text.trim_pad isBlank_space harg (by simp [Text.IsBlank])
    rw [List.append_nil, List.singleton_append] at hargument
    have hbody := ofBody_eq htrim hword (by simp [Text.isWhite])
    rw [hargument] at hbody
    exact hbody

theorem ofFragment_word {word : Text} (hword : ∀ c ∈ word, Text.isWhite c = false) :
    Piece.ofFragment (Fragment.ofContent word) = .instruction word [] := by
  have htrim : Text.trim (' ' :: word ++ [' ']) = word ++ [] := by
    rw [trim_ofContent (isTrimmed_of_notWhite hword), List.append_nil]
  exact ofBody_eq htrim hword (by simp)

/-! ## What directives say -/

inductive ReadsAs : Directive → Text → Item → Prop
  | echo {argument : Text} {i : Interpolation} (h : Interpolation.parse argument = .ok i) :
      ReadsAs (.echo (Text.trim argument)) argument (.echo i)
  | ifStart {argument : Text} {e : Expr} (h : Expr.parse (Text.trim argument) = .ok e) :
      ReadsAs (.ifStart (Text.trim argument)) argument (.ifStart e)
  | elseIf {argument : Text} {e : Expr} (h : Expr.parse (Text.trim argument) = .ok e) :
      ReadsAs (.elseIf (Text.trim argument)) argument (.elseIf e)
  | otherwise : ReadsAs .otherwise [] .otherwise
  | ifEnd : ReadsAs .ifEnd [] .ifEnd
  | loopStart {argument : Text} {head : LoopHead}
      (h : LoopHead.parse (Text.trim argument) = .ok head) :
      ReadsAs (.loopStart (Text.trim argument)) argument (.loopStart head)
  | loopEnd : ReadsAs .loopEnd [] .loopEnd
  | embed {argument name : Text} (h : Keyword.name? argument = some name) :
      ReadsAs (.embed name) argument (.embed name)

inductive Corresponds : Fragment → Fragment → Prop
  | kept {f : Fragment} (h : f.isKept = true) : Corresponds f f
  | written {f g : Fragment} {d : Directive} {body : Text} {item : Item}
      (hd : f.kind = .directive d) (hbody : g.kind = .instruction body)
      (hpiece : Piece.ofBody body = .instruction (wordOf d) (Text.trim f.argument))
      (hreads : ReadsAs d f.argument item) (hitem : (Piece.ofBody body).item = .ok item) :
      Corresponds f g

theorem parse_trim (t : Text) : Interpolation.parse (Text.trim t) = Interpolation.parse t := by
  rw [Interpolation.parse, Interpolation.parse, Text.trim_eq_self (Text.isTrimmed_trim t)]

theorem ne_nil_of_name? {argument name : Text} (h : Keyword.name? argument = some name) :
    name ≠ [] := by
  unfold Keyword.name? at h
  split at h
  · split at h
    · cases h
    · next hne =>
      cases h
      exact hne
  · cases h

theorem item_of_readsAs {d : Directive} {argument : Text} {item : Item}
    (h : ReadsAs d argument item)
    (hembed : ∀ name, d = .embed name → Text.trim argument = Quoted.quote name) :
    (Piece.instruction (wordOf d) (Text.trim argument)).item = .ok item := by
  cases h with
  | echo h => simp [wordOf, Piece.item, argumentOf, parse_trim, h, Except.map]
  | ifStart h | elseIf h | loopStart h =>
      simp [wordOf, Piece.item, echoWord, usesWord, argumentOf, h, Except.map, Keyword.spelling,
        Keyword.ofWord?, Keyword.all]
  | otherwise | ifEnd | loopEnd => rfl
  | @embed argument name h =>
      have hname : quotedName? (Quoted.quote name) = some name := by
        simp [quotedName?, read?_quote, ne_nil_of_name? h]
      rw [hembed name rfl]
      simp [wordOf, Piece.item, echoWord, usesWord, quotedName, hname, Except.map, Keyword.spelling,
        Keyword.ofWord?, Keyword.all]

/-! ## Fragments -/

theorem readsAs_of_directive? {k : Keyword} {argument : Text} {d : Directive}
    (hk : k.takesArguments = true) (hd : k.directive? argument = some d)
    (hjoin : d.isInheritance = false) :
    wordOf d = k.spelling ∧ ∃ item, ReadsAs d argument item := by
  cases Keyword.directive?_eq_some_iff.1 hd with
  | ifStart he => exact ⟨rfl, _, .ifStart he⟩
  | elseIf he => exact ⟨rfl, _, .elseIf he⟩
  | loopStart hh => exact ⟨rfl, _, .loopStart hh⟩
  | embed hn => exact ⟨rfl, _, .embed hn⟩
  | inherit _ | sectionStart _ | slot _ => cases hjoin
  | otherwise | ifEnd | loopEnd | sectionEnd => cases hk

theorem not_isWhite_spelling (k : Keyword) : ∀ c ∈ k.spelling, Text.isWhite c = false := by
  cases k <;> simp [Keyword.spelling, Text.isWhite]

theorem corresponds_of_readsAs {f : Fragment} {d : Directive} {content : Text} {item : Item}
    (hd : f.kind = .directive d) (hcontent : d.content? = some content)
    (hpiece : Piece.ofFragment (Fragment.ofContent content) =
      .instruction (wordOf d) (Text.trim f.argument)) (hreads : ReadsAs d f.argument item)
    (hembed : ∀ name, d = .embed name → Text.trim f.argument = Quoted.quote name) :
    Corresponds f f.carried := by
  have hcarried : f.carried = Fragment.ofContent content := by
    simp only [Fragment.carried, Fragment.content?, Fragment.directive?, hd, Option.bind_some,
      hcontent]
  have hitem := item_of_readsAs hreads hembed
  rw [← hpiece] at hitem
  rw [hcarried]
  exact .written hd rfl hpiece hreads hitem

theorem embed_of_isCanonical {f : Fragment} {name : Text} (hc : f.isCanonical = true)
    (hd : f.kind = .directive (.embed name)) : Text.trim f.argument = Quoted.quote name := by
  simpa only [Fragment.isCanonical, hd, beq_iff_eq] using hc

theorem corresponds_of_isCall {f : Fragment} {rest : Text} (h : Fragment.IsCall f rest)
    (hkept : f.isKept = false) (hc : f.isCanonical = true) : Corresponds f f.carried := by
  cases h with
  | @closed k gap arguments _ d hk hgap hd hends =>
      have harguments := Fragment.argument_closed (k := k) arguments (ne_echo_of_directive? hd) hgap
      obtain ⟨hword, item, hreads⟩ := readsAs_of_directive? hk hd hkept
      have hembed : ∀ name, d = .embed name → Text.trim arguments = Quoted.quote name := by
        rintro name rfl
        rw [← embed_of_isCanonical hc rfl, harguments]
      obtain ⟨hcontent, -⟩ := Fragment.content?_of_directive? hk hd hkept hembed
      have hne : k.spelling ≠ [] := by cases k <;> simp [Keyword.spelling]
      have hpiece := ofFragment_withArgument hne (not_isWhite_spelling k)
        (Text.isTrimmed_trim arguments)
      rw [← hword] at hpiece hcontent
      apply corresponds_of_readsAs rfl hcontent
      · rw [harguments]
        exact hpiece
      · rw [harguments]
        exact hreads
      · rw [harguments]
        exact hembed
  | @bare k _ d hk hd hrest =>
      have hpiece := ofFragment_word (not_isWhite_spelling k)
      cases Keyword.directive?_eq_some_iff.1 hd with
      | otherwise => exact corresponds_of_readsAs rfl rfl hpiece .otherwise (by simp)
      | ifEnd => exact corresponds_of_readsAs rfl rfl hpiece .ifEnd (by simp)
      | loopEnd => exact corresponds_of_readsAs rfl rfl hpiece .loopEnd (by simp)
      | sectionEnd => cases hkept
      | ifStart _ | elseIf _ | loopStart _ | embed _ | inherit _ | sectionStart _ | slot _ =>
          cases hk

theorem corresponds_carried {f : Fragment} (h : f.kind = .text ∨ f.IsFound)
    (hc : f.isCanonical = true) : Corresponds f f.carried := by
  cases hkept : f.isKept with
  | true =>
      rw [Fragment.carried_of_isKept hkept]
      exact .kept hkept
  | false =>
      rcases h with htext | hfound
      · rw [Fragment.isKept, htext] at hkept
        cases hkept
      · cases hfound with
        | instruction => cases hkept
        | comment => cases hc
        | @echo argument d hd hends =>
            obtain ⟨rfl, i, hi⟩ := Directive.echo?_eq_some_iff.1 hd
            have hargument := Fragment.argument_echo argument (Text.trim argument)
            have hpiece : Piece.ofFragment (Fragment.ofContent
                (withArgument echoWord (Text.trim argument))) =
                  .instruction echoWord (Text.trim argument) :=
              ofFragment_withArgument (by simp [echoWord]) (by simp [echoWord, Text.isWhite])
                (Text.isTrimmed_trim argument)
            apply corresponds_of_readsAs rfl rfl
            · rw [hargument]
              exact hpiece
            · rw [hargument]
              exact .echo hi
            · simp
        | call hcall => exact corresponds_of_isCall hcall hkept hc

/-- Compilation keeps a source fragment by fragment, as long as there are no comments, no
literal text that seems to start an instruction, and no names that it writes in another way. -/
theorem ofText_compile_corresponds {source : Text}
    (hcomment : ∀ f ∈ Fragment.ofText source, f.kind ≠ .comment)
    (hopen : ∀ f ∈ Fragment.ofText source, ¬ f.Opens)
    (hembed : ∀ f ∈ Fragment.ofText source, ∀ name, f.kind = .directive (.embed name) →
      Text.trim f.argument = Quoted.quote name) :
    List.Forall₂ Corresponds (Fragment.ofText source) (Fragment.ofText (compile source)) := by
  have hcanonical : IsCanonical source := fun f hf =>
    Fragment.isCanonical_of (hcomment f hf) (hembed f hf)
  rw [ofText_compile hcanonical hopen, List.forall₂_map_right_iff, List.forall₂_same]
  intro f hf
  exact corresponds_carried (Fragment.isFound_of_mem hf) (hcanonical f hf)

def samplePage : Text :=
  "@foreach( $rows['?>'] as $row )<b>\x7b\x7b $row.name \x7d\x7d</b>".toList ++
    "@include('n')@endforeach \x7b\x7b @extends('l')".toList

theorem ofText_compile_corresponds_samplePage :
    (Fragment.ofText samplePage).length = 8 ∧
      List.Forall₂ Corresponds (Fragment.ofText samplePage)
        (Fragment.ofText (compile samplePage)) := by
  have hpage : (Fragment.ofText samplePage).length = 8 ∧
      ∀ f ∈ Fragment.ofText samplePage,
        f.kind ≠ .comment ∧ (f.kind = .text → '?' ∉ f.raw) ∧ f.isCanonical = true := by
    decide +kernel
  refine ⟨hpage.1, ofText_compile_corresponds (fun f hf => (hpage.2 f hf).1) ?_ ?_⟩
  · rintro f hf ⟨htext, c, -, hmark⟩
    exact (hpage.2 f hf).2.1 htext (hmark.subset (by simp [instructionOpen]))
  · intro f hf name
    exact embed_of_isCanonical (hpage.2 f hf).2.2

end Stencil.Artifact
