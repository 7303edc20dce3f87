import Stencil.Template.Sections
import Stencil.Proofs.Template.Recognition

/-!
# Parts of a document

The fragments of a compiled template divide into parts, in one way only.  A part
starts with a fragment that tells what it is: a piece of the body, a layout, a
section or the end of none.  The document is put together from its parts.
-/

namespace Stencil.Template

/-! ## Parts -/

inductive Role where
  | body
  | layout (name : Text)
  | inlineSection (name value : Text)
  | blockSection (name : Text)
  | sectionEnd

/-- A first fragment, what is held between it and its end, and that end. -/
structure Part where
  head : Fragment
  content : List Fragment
  closing : List Fragment

namespace Fragment

def role (f : Fragment) : Role :=
  match f.directive? with
  | some (.inherit layout) => .layout layout
  | some (.sectionStart name (some value)) => .inlineSection name value
  | some (.sectionStart name none) => .blockSection name
  | some .sectionEnd => .sectionEnd
  | _ => .body

def IsClosing (closing : List Fragment) : Prop :=
  ∃ blanks e, closing = blanks ++ [e] ∧ (∀ b ∈ blanks, b.isBlank = true) ∧ e.isSectionEnd = true

end Fragment

namespace Part

open Fragment

def fragments (p : Part) : List Fragment := p.head :: (p.content ++ p.closing)

inductive Fits : Part → List Fragment → Prop
  | body {f : Fragment} {after : List Fragment} (hrole : f.role = .body) : Fits ⟨f, [], []⟩ after
  | layout {f : Fragment} {name : Text} {after : List Fragment} (hrole : f.role = .layout name) :
      Fits ⟨f, [], []⟩ after
  | closedInline {f : Fragment} {name value : Text} {closing after : List Fragment}
      (hrole : f.role = .inlineSection name value) (hclosing : IsClosing closing) :
      Fits ⟨f, [], closing⟩ after
  | openInline {f : Fragment} {name value : Text} {after : List Fragment}
      (hrole : f.role = .inlineSection name value)
      (hopen : ∀ closing, IsClosing closing → ¬ closing <+: after) : Fits ⟨f, [], []⟩ after
  | closedBlock {f e : Fragment} {name : Text} {content after : List Fragment}
      (hrole : f.role = .blockSection name) (hcontent : ∀ g ∈ content, g.isSectionEnd = false)
      (hend : e.isSectionEnd = true) : Fits ⟨f, content, [e]⟩ after
  | openBlock {f : Fragment} {name : Text} {content : List Fragment}
      (hrole : f.role = .blockSection name) (hcontent : ∀ g ∈ content, g.isSectionEnd = false) :
      Fits ⟨f, content, []⟩ []
  | strayEnd {f : Fragment} {after : List Fragment} (hrole : f.role = .sectionEnd) :
      Fits ⟨f, [], []⟩ after

def text (p : Part) : Text :=
  match p.head.role with
  | .body => p.head.raw
  | _ => []

def layout? (p : Part) : Option Text :=
  match p.head.role with
  | .layout name => some name
  | _ => none

def section? (generate : List Fragment → Text) (p : Part) : Option (Text × Text) :=
  match p.head.role with
  | .inlineSection name value => some (name, Html.escape value)
  | .blockSection name => some (name, generate p.content)
  | _ => none

end Part

def IsDivision : List Part → List Fragment → Prop
  | [], fragments => fragments = []
  | p :: parts, fragments =>
      ∃ after, fragments = p.fragments ++ after ∧ p.Fits after ∧ IsDivision parts after

def Document.withPart (d : Document) (head : Fragment) (content : List Fragment) : Document :=
  match head.role with
  | .body => d.withBody head.raw
  | .layout name => d.withLayout name
  | .inlineSection name value => d.withSection name (Html.escape value)
  | .blockSection name => d.withSection name (compile (Fragment.toText content))
  | .sectionEnd => d

namespace Fragment

/-! ## How far a part goes -/

theorem isBlank_of_isSectionEnd {f : Fragment} (h : f.isSectionEnd = true) :
    f.isBlank = false := by
  have hkind : f.kind = .directive .sectionEnd := beq_iff_eq.1 h
  rw [isBlank, hkind]
  rfl

theorem skipInlineEnd_append {closing : List Fragment} (h : IsClosing closing)
    (after : List Fragment) : skipInlineEnd (closing ++ after) = after := by
  obtain ⟨blanks, e, rfl, hblanks, hend⟩ := h
  have hdrop : (blanks ++ [e] ++ after).dropWhile isBlank = e :: after := by
    rw [List.append_assoc, List.dropWhile_append_of_pos hblanks]
    simp [isBlank_of_isSectionEnd hend]
  rw [skipInlineEnd, hdrop]
  exact if_pos hend

theorem skipInlineEnd_cases (rest : List Fragment) :
    (∃ closing, IsClosing closing ∧ rest = closing ++ skipInlineEnd rest) ∨
      (∀ closing, IsClosing closing → ¬ closing <+: rest) ∧ skipInlineEnd rest = rest := by
  by_cases h : ∃ closing, IsClosing closing ∧ closing <+: rest
  · obtain ⟨closing, hclosing, after, rfl⟩ := h
    rw [skipInlineEnd_append hclosing]
    exact Or.inl ⟨closing, hclosing, rfl⟩
  · refine Or.inr ⟨fun closing hclosing hstart => h ⟨closing, hclosing, hstart⟩, ?_⟩
    unfold skipInlineEnd
    split
    · next e after hdrop =>
      have hrest : rest.takeWhile isBlank ++ [e] ++ after = rest := by
        rw [List.append_assoc, List.singleton_append, ← hdrop, List.takeWhile_append_dropWhile]
      split
      · next hend =>
        exact absurd ⟨_, ⟨_, e, rfl, fun b hb => List.mem_takeWhile_imp hb, hend⟩, after, hrest⟩ h
      · rfl
    · rfl

theorem splitSection_append {content : List Fragment}
    (h : ∀ g ∈ content, g.isSectionEnd = false) (rest : List Fragment) :
    splitSection (content ++ rest) =
      (content ++ (splitSection rest).1, (splitSection rest).2) := by
  have hpos : ∀ g ∈ content, (!g.isSectionEnd) = true := fun g hg => by rw [h g hg]; rfl
  rw [splitSection, List.takeWhile_append_of_pos hpos, List.dropWhile_append_of_pos hpos]
  rfl

theorem splitSection_cons {e : Fragment} (h : e.isSectionEnd = true) (after : List Fragment) :
    splitSection (e :: after) = ([], after) := by
  simp [splitSection, h]

theorem splitSection_cases (rest : List Fragment) :
    (∀ g ∈ (splitSection rest).1, g.isSectionEnd = false) ∧
      ((∃ e, e.isSectionEnd = true ∧ rest = (splitSection rest).1 ++ e :: (splitSection rest).2) ∨
        splitSection rest = (rest, [])) := by
  induction rest with
  | nil => exact ⟨by simp [splitSection], Or.inr rfl⟩
  | cons g rest ih =>
      cases hend : g.isSectionEnd with
      | true =>
          rw [splitSection_cons hend]
          exact ⟨by simp, Or.inl ⟨g, hend, rfl⟩⟩
      | false =>
          obtain ⟨hcontent, hrest⟩ := ih
          rw [← List.singleton_append, splitSection_append (by simpa using hend)]
          refine ⟨by simpa using ⟨hend, hcontent⟩, ?_⟩
          rcases hrest with ⟨e, he, hsplit⟩ | hopen
          · exact Or.inl ⟨e, he, by rw [List.append_assoc, ← hsplit]⟩
          · rw [hopen]
            exact Or.inr rfl

def span (f : Fragment) (rest : List Fragment) : List Fragment × List Fragment :=
  match f.role with
  | .inlineSection _ _ => ([], skipInlineEnd rest)
  | .blockSection _ => splitSection rest
  | _ => ([], rest)

theorem document_cons (f : Fragment) (rest : List Fragment) :
    document (f :: rest) = (document (f.span rest).2).withPart f (f.span rest).1 := by
  unfold Document.withPart span role
  rw [document]
  cases f.directive? with
  | none => rfl
  | some d =>
      cases d with
      | sectionStart name value => cases value <;> rfl
      | _ => rfl

end Fragment

open Fragment

variable {p : Part} {parts : List Part} {fragments after : List Fragment}

theorem Part.Fits.span_eq (h : p.Fits after) :
    p.head.span (p.content ++ p.closing ++ after) = (p.content, after) := by
  unfold span
  cases h with
  | body hrole => rw [hrole]; rfl
  | layout hrole => rw [hrole]; rfl
  | closedInline hrole hclosing =>
      rw [hrole]
      dsimp only
      rw [List.nil_append, skipInlineEnd_append hclosing]
  | openInline hrole hopen =>
      rw [hrole]
      dsimp only
      rcases skipInlineEnd_cases after with ⟨closing, hclosing, hafter⟩ | ⟨-, hafter⟩
      · exact absurd ⟨_, hafter.symm⟩ (hopen closing hclosing)
      · rw [List.nil_append, List.nil_append, hafter]
  | closedBlock hrole hcontent hend =>
      rw [hrole]
      dsimp only
      rw [List.append_assoc, splitSection_append hcontent, List.singleton_append,
        splitSection_cons hend, List.append_nil]
  | openBlock hrole hcontent =>
      rw [hrole]
      dsimp only
      rw [List.append_assoc, splitSection_append hcontent]
      simp [splitSection]
  | strayEnd hrole => rw [hrole]; rfl

theorem exists_fits (f : Fragment) (rest : List Fragment) :
    ∃ (p : Part) (after : List Fragment), p.Fits after ∧ f :: rest = p.fragments ++ after := by
  cases hrole : f.role with
  | body => exact ⟨⟨f, [], []⟩, rest, .body hrole, rfl⟩
  | layout name => exact ⟨⟨f, [], []⟩, rest, .layout hrole, rfl⟩
  | inlineSection name value =>
      rcases skipInlineEnd_cases rest with ⟨closing, hclosing, hrest⟩ | ⟨hopen, -⟩
      · exact ⟨⟨f, [], closing⟩, _, .closedInline hrole hclosing, congrArg (f :: ·) hrest⟩
      · exact ⟨⟨f, [], []⟩, rest, .openInline hrole hopen, rfl⟩
  | blockSection name =>
      obtain ⟨hcontent, ⟨e, hend, hrest⟩ | hopen⟩ := splitSection_cases rest
      · refine ⟨⟨f, (splitSection rest).1, [e]⟩, (splitSection rest).2,
          .closedBlock hrole hcontent hend, ?_⟩
        rw [Part.fragments, List.cons_append, List.append_assoc, List.singleton_append, ← hrest]
      · rw [hopen] at hcontent
        exact ⟨⟨f, rest, []⟩, [], .openBlock hrole hcontent, by simp [Part.fragments]⟩
  | sectionEnd => exact ⟨⟨f, [], []⟩, rest, .strayEnd hrole, rfl⟩

/-! ## The division -/

theorem exists_isDivision : (fragments : List Fragment) → ∃ parts, IsDivision parts fragments
  | [] => ⟨[], rfl⟩
  | f :: rest => by
      obtain ⟨p, after, hfits, hsplit⟩ := exists_fits f rest
      have hlength : after.length < (f :: rest).length := by
        rw [hsplit, Part.fragments, List.cons_append, List.length_cons, List.length_append]
        omega
      obtain ⟨parts, hparts⟩ := exists_isDivision after
      exact ⟨p :: parts, after, hsplit, hfits, hparts⟩
termination_by fragments => fragments.length
decreasing_by exact hlength

theorem Part.Fits.unique {q : Part} {after' : List Fragment} (h : p.Fits after)
    (h' : q.Fits after') (hsplit : p.fragments ++ after = q.fragments ++ after') :
    p = q ∧ after = after' := by
  obtain ⟨head, content, closing⟩ := p
  obtain ⟨head', content', closing'⟩ := q
  obtain ⟨rfl, hrest⟩ : head = head' ∧ content ++ closing ++ after =
    content' ++ closing' ++ after' := List.cons.inj hsplit
  have hspan := h.span_eq
  have hspan' := h'.span_eq
  dsimp only at hspan hspan'
  rw [← hrest, hspan] at hspan'
  obtain ⟨rfl, rfl⟩ := Prod.mk.inj hspan'
  rw [List.append_cancel_left (List.append_cancel_right hrest)]
  exact ⟨rfl, rfl⟩

theorem IsDivision.unique {parts' : List Part} (h : IsDivision parts fragments)
    (h' : IsDivision parts' fragments) : parts = parts' := by
  induction parts generalizing parts' fragments with
  | nil =>
      obtain rfl := h
      cases parts' with
      | nil => rfl
      | cons q parts' =>
          obtain ⟨after, hsplit, -⟩ := h'
          cases hsplit
  | cons p parts ih =>
      obtain ⟨after, rfl, hfits, hafter⟩ := h
      cases parts' with
      | nil => cases h'
      | cons q parts' =>
          obtain ⟨after', hsplit, hfits', hafter'⟩ := h'
          obtain ⟨rfl, rfl⟩ := hfits.unique hfits' hsplit
          rw [ih hafter hafter']

theorem IsDivision.flatMap_fragments (h : IsDivision parts fragments) :
    parts.flatMap Part.fragments = fragments := by
  induction parts generalizing fragments with
  | nil => exact h.symm
  | cons p parts ih =>
      obtain ⟨after, rfl, -, hafter⟩ := h
      rw [List.flatMap_cons, ih hafter]

/-! ## The document of a division -/

namespace Document

variable {d : Document}

theorem body_withPart (p : Part) :
    (d.withPart p.head p.content).body = p.text ++ d.body := by
  unfold withPart Part.text
  cases p.head.role <;> rfl

theorem layout_withPart (p : Part) :
    (d.withPart p.head p.content).layout = p.layout?.or d.layout := by
  unfold withPart Part.layout?
  cases p.head.role <;> rfl

theorem get?_sections_withSection (bound content name : Text) :
    (d.withSection bound content).sections.get? name =
      (Bindings.get? [(bound, content)] name).or (d.sections.get? name) := by
  rw [withSection, Bindings.get?_define, Bindings.get?_cons]
  split <;> rfl

theorem get?_sections_withPart (p : Part) {generate : List Fragment → Text}
    (hgenerate : compile (toText p.content) = generate p.content) (name : Text) :
    (d.withPart p.head p.content).sections.get? name =
      (Bindings.get? (p.section? generate).toList name).or (d.sections.get? name) := by
  unfold withPart Part.section?
  rw [hgenerate]
  cases p.head.role with
  | inlineSection bound value => exact get?_sections_withSection ..
  | blockSection bound => exact get?_sections_withSection ..
  | _ => rfl

structure IsOfParts (d : Document) (generate : List Fragment → Text) (parts : List Part) :
    Prop where
  body : d.body = parts.flatMap Part.text
  layout : d.layout = parts.findSome? Part.layout?
  sections : ∀ name, d.sections.get? name =
    Bindings.get? (parts.filterMap (Part.section? generate)) name

end Document

theorem IsDivision.isOfParts (h : IsDivision parts fragments) {generate : List Fragment → Text}
    (hgenerate : ∀ p ∈ parts, compile (toText p.content) = generate p.content) :
    (document fragments).IsOfParts generate parts := by
  induction parts generalizing fragments with
  | nil =>
      obtain rfl := h
      rw [document]
      exact ⟨rfl, rfl, fun _ => rfl⟩
  | cons p parts ih =>
      obtain ⟨after, rfl, hfits, hafter⟩ := h
      have hrest := ih hafter fun q hq => hgenerate q (List.mem_cons_of_mem _ hq)
      rw [Part.fragments, List.cons_append, document_cons, hfits.span_eq]
      dsimp only
      constructor
      · rw [Document.body_withPart, hrest.body, List.flatMap_cons]
      · rw [Document.layout_withPart, hrest.layout, List.findSome?_cons]
        cases p.layout? <;> rfl
      · intro name
        rw [Document.get?_sections_withPart p (hgenerate p List.mem_cons_self), hrest.sections,
          ← Bindings.get?_append]
        cases hsection : p.section? generate <;> simp [hsection]

/-- The only division of a compiled template, which accounts for its document. -/
structure Document.IsParted (compiled : Text) (parts : List Part) : Prop where
  only : ∀ parts', IsDivision parts' (ofText compiled) ↔ parts' = parts
  whole : parts.flatMap Part.fragments = ofText compiled
  document : (Document.ofCompiled compiled).IsOfParts
    (fun content => compile (toText content)) parts

theorem Document.exists_isParted (compiled : Text) : ∃ parts, IsParted compiled parts := by
  obtain ⟨parts, hparts⟩ := exists_isDivision (ofText compiled)
  refine ⟨parts, ?_⟩
  constructor
  · intro parts'
    constructor
    · exact fun h => h.unique hparts
    · rintro rfl
      exact hparts
  · exact hparts.flatMap_fragments
  · exact hparts.isOfParts fun _ _ => rfl

end Stencil.Template
