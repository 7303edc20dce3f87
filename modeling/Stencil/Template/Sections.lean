import Stencil.Template.Compile
import Stencil.Text.Html
import Stencil.Bindings

/-!
# Sections

A compiled template is taken apart into the layout that it names, its sections,
and the rest, which is its body.  Only the first layout counts, and of two
sections of one name the first.  Sections do not nest: one without a value in
place runs to the next end of a section, or to the end of the template.
-/

namespace Stencil.Template

structure Document where
  layout : Option Text
  sections : Bindings Text
  body : Text
deriving DecidableEq, Repr

namespace Document

def empty : Document := ⟨none, [], []⟩

def withLayout (d : Document) (name : Text) : Document := { d with layout := some name }

def withSection (d : Document) (name content : Text) : Document :=
  { d with sections := d.sections.define name content }

def withBody (d : Document) (t : Text) : Document := { d with body := t ++ d.body }

end Document

namespace Fragment

def isSectionEnd (f : Fragment) : Bool := f.kind == .directive .sectionEnd

/-- Leaves out the end of a section if only blank text stands before it. -/
def skipInlineEnd (fragments : List Fragment) : List Fragment :=
  match fragments.dropWhile isBlank with
  | f :: rest => if f.isSectionEnd then rest else fragments
  | [] => fragments

def splitSection (fragments : List Fragment) : List Fragment × List Fragment :=
  (fragments.takeWhile fun f => !f.isSectionEnd,
    (fragments.dropWhile fun f => !f.isSectionEnd).drop 1)

theorem length_skipInlineEnd_le (fragments : List Fragment) :
    (skipInlineEnd fragments).length ≤ fragments.length := by
  unfold skipInlineEnd
  split
  · next f rest h =>
    split
    · have := (List.dropWhile_sublist (l := fragments) isBlank).length_le
      rw [h, List.length_cons] at this
      omega
    · exact Nat.le_refl _
  · exact Nat.le_refl _

theorem length_splitSection_le (fragments : List Fragment) :
    (splitSection fragments).2.length ≤ fragments.length := by
  have := (List.dropWhile_sublist (l := fragments) fun f => !f.isSectionEnd).length_le
  simp only [splitSection, List.length_drop]
  omega

def document : List Fragment → Document
  | [] => .empty
  | f :: rest =>
    match f.directive? with
    | some (.inherit layout) => (document rest).withLayout layout
    | some (.sectionStart name (some value)) =>
      (document (skipInlineEnd rest)).withSection name (Html.escape value)
    | some (.sectionStart name none) =>
      (document (splitSection rest).2).withSection name
        (compile (toText (splitSection rest).1))
    | some .sectionEnd => document rest
    | _ => (document rest).withBody f.raw
termination_by fragments => fragments.length
decreasing_by
  · exact Nat.lt_succ_self _
  · exact Nat.lt_succ_of_le (length_skipInlineEnd_le rest)
  · exact Nat.lt_succ_of_le (length_splitSection_le rest)
  · exact Nat.lt_succ_self _
  · exact Nat.lt_succ_self _

end Fragment

def Document.ofCompiled (compiled : Text) : Document :=
  Fragment.document (Fragment.ofText compiled)

def Document.ofSource (source : Text) : Document := .ofCompiled (compile source)

end Stencil.Template
