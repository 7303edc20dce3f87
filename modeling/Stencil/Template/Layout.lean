import Stencil.Template.Sections

/-!
# Layouts

The slots of a layout are filled from sections.  A slot without a section shows
its fallback, escaped, or nothing.  What is put in is not looked at again.
-/

namespace Stencil.Template

def Fragment.filled (sections : Bindings Text) (f : Fragment) : Text :=
  match f.directive? with
  | some (.slot name fallback) =>
    match sections.get? name with
    | some content => content
    | none => Html.escape (fallback.getD [])
  | _ => f.raw

def fillSlots (sections : Bindings Text) (compiled : Text) : Text :=
  (Fragment.ofText compiled).flatMap (Fragment.filled sections)

def compose (sections : Bindings Text) (layout : Text) : Text :=
  fillSlots sections (compile layout)

/-! ## Chains of documents -/

namespace Document

/-- The sections of a document that no layout changes, each filled from the others. -/
def ownSections (d : Document) : Bindings Text :=
  d.sections.mapValues (fillSlots d.sections)

/-- Adds the sections of a layout that are not defined yet, filled from those that are. -/
def inheritedSections (sections : Bindings Text) (layout : Document) : Bindings Text :=
  sections.orElse (layout.sections.mapValues (fillSlots sections))

def allSections (page : Document) (layouts : List Document) : Bindings Text :=
  layouts.foldl inheritedSections page.ownSections

end Document

def composeAll : List Document → Text
  | [] => []
  | page :: layouts =>
    fillSlots (page.allSections layouts) ((layouts.getLast?.getD page).body)

end Stencil.Template
