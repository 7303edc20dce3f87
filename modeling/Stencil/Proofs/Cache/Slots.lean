import Stencil.Proofs.Artifact.Uses
import Stencil.Proofs.Cache.Nearest
import Stencil.Proofs.Template.Slots

/-!
# Slots of an artifact

When an artifact is built, each slot is filled with the nearest section, with its
fallback, or with nothing.  The artifact then has no slots, unless one was put in
with a section of the page, or begins in one part of the text and ends in another.
-/

namespace Stencil

open Stencil.Template

theorem Artifact.isSlot_of_mem_header_append {names : List Text} {rest : Text} (h : IsInert rest) :
    ∀ f ∈ Fragment.ofText (header names ++ rest), f.isSlot = false := by
  intro f hf
  rw [ofText_header_append, List.mem_append, List.mem_map] at hf
  rcases hf with ⟨name, -, rfl⟩ | hf
  · rfl
  · exact h.isSlot_of_mem f hf

/-- The artifact of a template is the body of the last document of its chain with its slots filled,
behind the record of layouts. -/
structure Build.FillsSlots (c : Config) (files : FileSystem) (name : Text) (build : Build)
    (readings : List Reading) (page : Document) (layouts : List Document) (parts : List Text) :
    Prop where
  chain : Reading.chain c (fun _ => files) files.entries.length name = .ok readings
  documents : readings.map Reading.document = page :: layouts
  text : build.text = Artifact.header (readings.tail.map Reading.name) ++ parts.flatten
  filled : IsFilled page (page :: layouts)
    (Fragment.ofText (layouts.getLast?.getD page).body) parts
  slots : (∀ part ∈ parts, IsInert part) → ∀ f ∈ Fragment.ofText build.text, f.isSlot = false

theorem Build.ofFiles_fillsSlots {c : Config} {files : FileSystem} {name : Text} {build : Build}
    (hname : isTemplateName name = true) (hbuild : ofFiles c files name = .ok build) :
    ∃ readings page layouts parts, build.FillsSlots c files name readings page layouts parts := by
  obtain ⟨first, readings, -, -, hfound, hdocuments, rfl⟩ := exists_chain hname hbuild
  obtain ⟨parts, hflat, hfilled⟩ :=
    exists_isFilled_composeAll first.document (readings.tail.map Reading.document)
  have htext : (ofChain readings).text =
      Artifact.header (readings.tail.map Reading.name) ++ parts.flatten := by
    rw [ofChain, hdocuments, hflat]
  refine ⟨readings, first.document, readings.tail.map Reading.document, parts, ?_⟩
  refine ⟨hfound, hdocuments, htext, hfilled, fun hinert => ?_⟩
  rw [htext]
  exact Artifact.isSlot_of_mem_header_append (IsInert.flatten hinert)

/-! ## A page with slots of its own -/

namespace Filled

def layout : Text := "<t>@yield('t')</t>@yield('m')@yield('f', '<none>')".toList

def page : Text :=
  "@extends('b')@section('t', 'Hi')@section('m')a@b.c @yield('t')@endsection".toList

def files : FileSystem := Siblings.filesOf [(['b'], layout), (['p'], page)]

def build : Build :=
  ⟨Artifact.header [['b']] ++ "<t>Hi</t>a@b.c Hi&lt;none&gt;".toList, some 5⟩

theorem build_and_documents :
    (Build.ofFiles Siblings.config files ['p']).toOption = some build ∧
      (Reading.chain Siblings.config (fun _ => files) files.entries.length ['p']).toOption.map
        (List.map Reading.document) = some [.ofSource page, .ofSource layout] := by
  decide +kernel

theorem ofFiles_page : Build.ofFiles Siblings.config files ['p'] = .ok build :=
  Siblings.eq_ok_of_toOption build_and_documents.1

theorem isShallow : (Document.ofSource page).IsShallow := by
  unfold Document.IsShallow
  decide +kernel

theorem isQuiet : ∀ d ∈ [Document.ofSource page, .ofSource layout], d.IsQuiet := by
  have hwords : ∀ d ∈ [Document.ofSource page, .ofSource layout], ∀ t ∈ d.texts,
      ∀ f ∈ Fragment.ofText t, LacksSlotWord (f.filled []) := by
    decide +kernel
  exact fun d hd t ht f hf => .of_lacksSlotWord (hwords d hd t ht f hf)

end Filled

theorem Build.ofFiles_fillsSlots_filled :
    ofFiles Siblings.config Filled.files ['p'] = .ok Filled.build ∧
      ∀ f ∈ Fragment.ofText Filled.build.text, f.isSlot = false := by
  refine ⟨Filled.ofFiles_page, ?_⟩
  obtain ⟨readings, page, layouts, parts, h⟩ :=
    Build.ofFiles_fillsSlots (by decide) Filled.ofFiles_page
  have hdocuments := Filled.build_and_documents.2
  rw [h.chain] at hdocuments
  obtain ⟨rfl, rfl⟩ := List.cons.inj (h.documents.symm.trans (Option.some.inj hdocuments))
  exact h.slots (h.filled.isInert (List.prefix_refl _) Filled.isQuiet Filled.isShallow
    (List.mem_cons_of_mem _ (List.mem_singleton.2 rfl)) (by simp) List.mem_cons_self
    fun _ hf => hf)

/-! ## Slots that are left -/

namespace Left

/-- A page with a slot that begins before a section and ends in it. -/
def parted : Text := "@yi@yield('x')@section('x')eld('a')@endsection".toList

/-- A page with a section in a section in a section. -/
def copied : Text :=
  "@section('a')@yield('b')@endsection@section('b')@yield('c', 'd')@endsection@yield('a')".toList

theorem builds_with_slots :
    (Build.ofFiles Siblings.config (Siblings.filesOf [(['p'], parted)]) ['p']).toOption =
        some ⟨"@yield('a')".toList, some 5⟩ ∧
      (Build.ofFiles Siblings.config (Siblings.filesOf [(['p'], copied)]) ['p']).toOption =
        some ⟨"@yield('c', 'd')".toList, some 5⟩ := by
  decide +kernel

end Left

theorem Build.ofFiles_slots_left :
    (∃ build, ofFiles Siblings.config (Siblings.filesOf [(['p'], Left.parted)]) ['p'] = .ok build ∧
      ∃ f ∈ Fragment.ofText build.text, f.isSlot = true) ∧
    (∃ build, ofFiles Siblings.config (Siblings.filesOf [(['p'], Left.copied)]) ['p'] = .ok build ∧
      ∃ f ∈ Fragment.ofText build.text, f.isSlot = true) :=
  ⟨⟨_, Siblings.eq_ok_of_toOption Left.builds_with_slots.1, by decide +kernel⟩,
    ⟨_, Siblings.eq_ok_of_toOption Left.builds_with_slots.2, by decide +kernel⟩⟩

end Stencil
