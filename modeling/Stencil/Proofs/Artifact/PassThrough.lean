import Stencil.Proofs.Artifact.Blocks
import Stencil.Proofs.Artifact.Carried
import Stencil.Proofs.Template.Settled

/-!
# What passes through

Whatever is malformed stays text in an artifact.  So a source without
instructions of its own is compiled to a program just if its directives are
properly nested, as long as the artifact has no other instructions than those
that were written for them.

Text that passes through can still start an instruction, or be joined to one
where a comment was.  Such an instruction may be none that can be read, and may
hide one that closes a block.
-/

namespace Stencil

open Stencil.Template Quoting

/-! ## Keywords of directives -/

def Template.Directive.block? : Directive → Option Keyword
  | .ifStart _ => some .ifStart
  | .elseIf _ => some .elseIf
  | .otherwise => some .otherwise
  | .ifEnd => some .ifEnd
  | .loopStart _ => some .loopStart
  | .loopEnd => some .loopEnd
  | .echo _ | .embed _ | .inherit _ | .sectionStart _ _ | .sectionEnd | .slot _ _ => none

def Template.Fragment.block? (f : Fragment) : Option Keyword := f.directive?.bind Directive.block?

def Template.blocks (source : Text) : List Keyword :=
  (Fragment.ofText source).filterMap Fragment.block?

namespace Artifact

/-! ## Instructions that were written -/

/-- What the instruction for a directive says: it can be read, and has the directive's keyword. -/
structure Piece.Tells (piece : Piece) (d : Directive) : Prop where
  readable : ∃ item, piece.Says item
  keyword : piece.block? = d.block?

theorem tells_of_directive? {k : Keyword} {arguments content : Text} {d : Directive}
    (hd : k.directive? arguments = some d) (hcontent : d.content? = some content) :
    (Piece.ofFragment (Fragment.ofContent content)).Tells d := by
  have hne : k.spelling ≠ [] := by cases k <;> simp [Keyword.spelling]
  have hargument := ofFragment_withArgument hne (not_isWhite_spelling k)
    (Text.isTrimmed_trim arguments)
  have hbare := ofFragment_word (not_isWhite_spelling k)
  cases Keyword.directive?_eq_some_iff.1 hd with
  | ifStart he =>
      cases hcontent
      rw [hargument]
      exact ⟨⟨_, .ifStart he⟩, rfl⟩
  | elseIf he =>
      cases hcontent
      rw [hargument]
      exact ⟨⟨_, .elseIf he⟩, rfl⟩
  | loopStart hh =>
      cases hcontent
      rw [hargument]
      exact ⟨⟨_, .loopStart hh⟩, rfl⟩
  | @embed name hn =>
      cases hcontent
      rw [ofFragment_withArgument hne (not_isWhite_spelling _) (isTrimmed_quote name)]
      exact ⟨⟨_, .embed (read?_quote name) (ne_nil_of_name? hn)⟩, rfl⟩
  | otherwise =>
      cases hcontent
      rw [hbare]
      exact ⟨⟨_, .otherwise []⟩, rfl⟩
  | ifEnd =>
      cases hcontent
      rw [hbare]
      exact ⟨⟨_, .ifEnd []⟩, rfl⟩
  | loopEnd =>
      cases hcontent
      rw [hbare]
      exact ⟨⟨_, .loopEnd []⟩, rfl⟩
  | inherit _ | sectionStart _ | slot _ | sectionEnd => cases hcontent

theorem tells_of_echo? {argument content : Text} {d : Directive}
    (hd : Directive.echo? argument = some d) (hcontent : d.content? = some content) :
    (Piece.ofFragment (Fragment.ofContent content)).Tells d := by
  obtain ⟨rfl, i, hi⟩ := Directive.echo?_eq_some_iff.1 hd
  cases hcontent
  have hpiece : Piece.ofFragment (Fragment.ofContent
      (withArgument ['e', 'c', 'h', 'o'] (Text.trim argument))) =
        .instruction echoWord (Text.trim argument) :=
    ofFragment_withArgument (by simp) (by simp [Text.isWhite]) (Text.isTrimmed_trim argument)
  rw [hpiece]
  exact ⟨⟨_, .echo ((parse_trim argument).trans hi)⟩, rfl⟩

theorem tells_of_written? {source : Text} {f g : Fragment} (hf : f ∈ Fragment.ofText source)
    (hg : f.written? = some g) :
    (∃ item, (Piece.ofFragment g).Says item) ∧ (Piece.ofFragment g).block? = f.block? := by
  obtain ⟨content, hcontent, rfl⟩ := Option.map_eq_some_iff.1 hg
  obtain ⟨d, hd, hdcontent⟩ := Option.bind_eq_some_iff.1 hcontent
  have htells : (Piece.ofFragment (Fragment.ofContent content)).Tells d := by
    rcases Fragment.isFound_of_mem hf with htext | hfound
    · rw [Fragment.directive?, htext] at hd
      cases hd
    · cases hfound with
      | instruction | comment => cases hd
      | echo hecho =>
          cases hd
          exact tells_of_echo? hecho hdcontent
      | call hcall =>
          cases hcall with
          | closed _ _ hbuild =>
              cases hd
              exact tells_of_directive? hbuild hdcontent
          | bare _ hbuild =>
              cases hd
              exact tells_of_directive? hbuild hdcontent
  refine ⟨htells.readable, ?_⟩
  rw [htells.keyword, Fragment.block?, hd, Option.bind_some]

/-! ## Pieces of an artifact -/

theorem ofFragment_of_not_isInstruction {f : Fragment} (h : f.isInstruction = false) :
    Piece.ofFragment f = .text f.raw := by
  obtain ⟨kind, raw⟩ := f
  cases kind with
  | instruction body => cases h
  | text | comment | directive _ => rfl

theorem filterMap_block?_ofFragment (fragments : List Fragment) :
    (fragments.map Piece.ofFragment).filterMap Piece.block? =
      (fragments.filter Fragment.isInstruction).filterMap fun f => (Piece.ofFragment f).block? := by
  induction fragments with
  | nil => rfl
  | cons f fragments ih =>
      rw [List.map_cons, List.filterMap_cons, List.filter_cons, ih]
      cases hf : f.isInstruction with
      | false => simp [ofFragment_of_not_isInstruction hf, Piece.block?]
      | true => simp only [if_true, List.filterMap_cons]

theorem block?_eq_none_of_written? {f : Fragment} (h : f.written? = none) : f.block? = none := by
  obtain ⟨kind, raw⟩ := f
  cases kind with
  | text | comment | instruction _ => rfl
  | directive d => cases d <;> first | rfl | cases h

theorem filterMap_block?_written? (source : Text) :
    ((Fragment.ofText source).filterMap Fragment.written?).filterMap
      (fun f => (Piece.ofFragment f).block?) = blocks source := by
  rw [List.filterMap_filterMap, blocks]
  refine List.filterMap_congr fun f hf => ?_
  cases hg : f.written? with
  | none => exact (block?_eq_none_of_written? hg).symm
  | some g => exact (tells_of_written? hf hg).2

/-- When a source without instructions of its own is compiled to a program: just if its blocks are
nested, unless text that passed through makes up an instruction or hides one. -/
structure Program.PassesThrough (source : Text) : Prop where
  parses_iff : ShowsWritten source →
    ((∃ p, parse (compile source) = .ok p) ↔ IsNested (blocks source))
  shows : IsSettled source → (∀ f ∈ settled source, ¬ f.Opens) → ShowsWritten source
  canonical : IsCanonical source → IsSettled source ∧ settled source = Fragment.ofText source

theorem Program.passesThrough {source : Text}
    (hplain : ∀ f ∈ Fragment.ofText source, f.isInstruction = false) : PassesThrough source where
  parses_iff hshows := by
    have hblocks : (Piece.ofText (compile source)).filterMap Piece.block? = blocks source := by
      rw [Piece.ofText, filterMap_block?_ofFragment, hshows, filterMap_block?_written?]
    have hsays : ∀ piece ∈ Piece.ofText (compile source), ∃ item, piece.Says item := by
      intro piece hpiece
      obtain ⟨g, hg, rfl⟩ := List.mem_map.1 hpiece
      cases hinstruction : g.isInstruction with
      | false =>
          rw [ofFragment_of_not_isInstruction hinstruction]
          exact ⟨_, .text g.raw⟩
      | true =>
          -- the instruction is one of those that were written
          have hfound := List.mem_filter.2 ⟨hg, hinstruction⟩
          rw [hshows] at hfound
          obtain ⟨f, hf, hwritten⟩ := List.mem_filterMap.1 hfound
          exact (tells_of_written? hf hwritten).1
    rw [exists_parse_iff, hblocks]
    exact and_iff_right hsays
  shows := showsWritten_of_isSettled hplain
  canonical h := ⟨isSettled_of_isCanonical h, settled_of_isCanonical h⟩

/-! ## Malformed directives and comments in a page -/

def brokenPage : Text :=
  "@if( \x7b\x7b $ \x7b\x7b-- n --\x7d\x7d<b>@foreach($xs as $x)@foreach($x as $y)".toList ++
    "\x7b\x7b $y \x7d\x7d@endforeach<?ell @endforeach@include('n' \x7b\x7b--".toList

theorem Program.passesThrough_brokenPage :
    (∃ f ∈ Fragment.ofText brokenPage, f.kind = .comment) ∧
      PassesThrough brokenPage ∧ ∃ p, parse (compile brokenPage) = .ok p := by
  have hpage : (∃ f ∈ Fragment.ofText brokenPage, f.kind = .comment) ∧
      (∀ f ∈ Fragment.ofText brokenPage, f.isInstruction = false) ∧ IsSettled brokenPage ∧
      (∀ f ∈ settled brokenPage, f.kind = .text → ¬ instructionOpen <:+: f.raw) ∧
      blocks brokenPage = [.loopStart, .loopStart, .loopEnd, .loopEnd] := by
    decide +kernel
  obtain ⟨hcomment, hplain, hsettled, hmarks, hblocks⟩ := hpage
  have hopen : ∀ f ∈ settled brokenPage, ¬ f.Opens := by
    rintro f hf ⟨htext, c, -, hmark⟩
    exact hmarks f hf htext ((List.prefix_append _ _).isInfix.trans hmark)
  have hnested : IsNested (blocks brokenPage) := by
    rw [hblocks]
    exact .loop (.loop .nil .nil) .nil
  have hpasses := Program.passesThrough hplain
  exact ⟨hcomment, hpasses, (hpasses.parses_iff (hpasses.shows hsettled hopen)).2 hnested⟩

/-! ## Instructions that nobody wrote -/

/-- Text that starts an instruction, which ends with the one behind it. -/
def openedText : Text := "<?elle \x7b\x7b $x \x7d\x7d".toList

/-- Text that is an instruction once a comment is gone. -/
def joinedText : Text := "<?el\x7b\x7b----\x7d\x7dle bogus ?>".toList

/-- Text that starts a comment once a comment is gone, so that the start of a block is hidden. -/
def hidingText : Text :=
  "\x7b\x7b-\x7b\x7b----\x7d\x7d- @foreach($xs as $x) --\x7d\x7d@endforeach".toList

structure IsMisread (source : Text) : Prop where
  plain : ∀ f ∈ Fragment.ofText source, f.isInstruction = false
  nested : IsNested (blocks source)
  fails : ¬ ∃ p, Program.parse (compile source) = .ok p

theorem isMisread_of_mem : ∀ source ∈ [openedText, joinedText, hidingText], IsMisread source := by
  have hsources : ∀ source ∈ [openedText, joinedText, hidingText],
      (∀ f ∈ Fragment.ofText source, f.isInstruction = false) ∧
        (blocks source = [] ∨ blocks source = [.loopStart, .loopEnd]) ∧
        (Program.parse (compile source)).toOption.isNone = true := by
    decide +kernel
  intro source hsource
  obtain ⟨hplain, hblocks, hfails⟩ := hsources source hsource
  refine ⟨hplain, ?_, ?_⟩
  · rcases hblocks with h | h <;> rw [h]
    · exact .nil
    · exact .loop .nil .nil
  · rintro ⟨p, hp⟩
    rw [hp] at hfails
    cases hfails

theorem not_parse_compile : IsMisread openedText ∧ IsMisread joinedText ∧ IsMisread hidingText :=
  ⟨isMisread_of_mem _ (by simp), isMisread_of_mem _ (by simp), isMisread_of_mem _ (by simp)⟩

end Artifact

end Stencil
