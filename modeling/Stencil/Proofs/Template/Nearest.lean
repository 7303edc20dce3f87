import Mathlib.Data.List.Induction
import Stencil.Proofs.Template.Inheriting

/-!
# The nearest definition of a section

In the text of a chain each section is that of the nearest document to the page
that defines it, with its slots filled from the documents before that one.  So
the text does not depend on anything else: not on the bodies of documents that
name a layout, and not on sections that a nearer document defines.
-/

namespace Stencil.Template

namespace Document

variable {page d : Document} {layouts nearer farther : List Document} {name content : Text}

/-- What the slots in the sections of a document are filled from, behind the documents that are
nearer to the page: their sections, or for the page itself its own as they stand. -/
def surroundings (d : Document) : (nearer : List Document) → Bindings Text
  | [] => d.sections
  | page :: layouts => page.allSections layouts

theorem allSections_concat (page : Document) (layouts : List Document) (layout : Document) :
    page.allSections (layouts ++ [layout]) =
      inheritedSections (page.allSections layouts) layout := by
  simp [allSections]

theorem get?_ownSections (d : Document) (name : Text) :
    d.ownSections.get? name = (d.sections.get? name).map (fillSlots d.sections) :=
  Bindings.get?_mapValues _ _ _

theorem get?_inheritedSections (sections : Bindings Text) (layout : Document) (name : Text) :
    (inheritedSections sections layout).get? name =
      (sections.get? name).or ((layout.sections.get? name).map (fillSlots sections)) := by
  rw [inheritedSections, Bindings.get?_orElse, Bindings.get?_mapValues]

theorem get?_allSections_eq_none_iff :
    (page.allSections layouts).get? name = none ↔
      ∀ d ∈ page :: layouts, d.sections.get? name = none := by
  induction layouts using List.reverseRecOn with
  | nil => simp [allSections, get?_ownSections]
  | append_singleton layouts layout ih =>
      rw [allSections_concat, get?_inheritedSections, Option.or_eq_none_iff, ih,
        Option.map_eq_none_iff]
      constructor
      · rintro ⟨hbefore, hlast⟩ d hd
        rw [← List.cons_append, List.mem_append, List.mem_singleton] at hd
        rcases hd with hd | rfl
        · exact hbefore d hd
        · exact hlast
      · intro h
        refine ⟨fun d hd => h d ?_, h layout (by simp)⟩
        rw [← List.cons_append]
        exact List.mem_append_left _ hd

theorem get?_allSections_append (h : (page.allSections layouts).get? name = some content)
    (more : List Document) : (page.allSections (layouts ++ more)).get? name = some content := by
  induction more using List.reverseRecOn with
  | nil => rwa [List.append_nil]
  | append_singleton more layout ih =>
      rw [← List.append_assoc, allSections_concat, get?_inheritedSections, ih, Option.some_or]

theorem get?_allSections_of_nearest (hchain : page :: layouts = nearer ++ d :: farther)
    (hnearer : ∀ n ∈ nearer, n.sections.get? name = none)
    (hd : d.sections.get? name = some content) :
    (page.allSections layouts).get? name = some (fillSlots (d.surroundings nearer) content) := by
  cases nearer with
  | nil =>
      obtain ⟨rfl, rfl⟩ := List.cons.inj hchain
      have hown : (page.allSections []).get? name = some (fillSlots page.sections content) := by
        rw [allSections, List.foldl_nil, get?_ownSections, hd, Option.map_some]
      exact get?_allSections_append hown layouts
  | cons first nearer =>
      obtain ⟨rfl, rfl⟩ := List.cons.inj hchain
      have hnone := get?_allSections_eq_none_iff.2 hnearer
      have hlast : (page.allSections (nearer ++ [d])).get? name =
          some (fillSlots (page.allSections nearer) content) := by
        rw [allSections_concat, get?_inheritedSections, hnone, hd, Option.map_some, Option.none_or]
      have hall := get?_allSections_append hlast farther
      rwa [List.append_assoc, List.singleton_append] at hall

end Document

/-- Each section of a chain is bound to the content of the nearest document that defines it, filled
once from what surrounds that document, and no other name is bound. -/
structure NearestWins (page : Document) (layouts : List Document) : Prop where
  defined : ∀ {name content : Text} {nearer farther : List Document} {d : Document},
    page :: layouts = nearer ++ d :: farther → (∀ n ∈ nearer, n.sections.get? name = none) →
    d.sections.get? name = some content →
    (page.allSections layouts).get? name = some (fillSlots (d.surroundings nearer) content)
  undefined : ∀ {name : Text}, (∀ d ∈ page :: layouts, d.sections.get? name = none) →
    (page.allSections layouts).get? name = none

theorem nearestWins (page : Document) (layouts : List Document) : NearestWins page layouts where
  defined := Document.get?_allSections_of_nearest
  undefined := Document.get?_allSections_eq_none_iff.2

/-! ## Chains that show the same -/

/-- Two chains of one length that agree on the last body and, document by document, on the sections
that no nearer document defines. -/
structure ShowsAlike (documents others : List Document) : Prop where
  length : others.length = documents.length
  sections : ∀ {k : Nat} {d other : Document} {name : Text}, documents[k]? = some d →
    others[k]? = some other → (∀ n ∈ documents.take k, n.sections.get? name = none) →
    other.sections.get? name = d.sections.get? name
  body : others.getLast?.map Document.body = documents.getLast?.map Document.body

theorem fillSlots_of_get?_eq {sections others : Bindings Text}
    (h : ∀ name, others.get? name = sections.get? name) : fillSlots others = fillSlots sections :=
  funext fun _ => fillSlots_congr fun _ _ name _ _ => h name

namespace ShowsAlike

variable {page other : Document} {layouts others : List Document}

theorem get?_allSections_take (h : ShowsAlike (page :: layouts) (other :: others)) (k : Nat)
    (hk : k ≤ layouts.length) (name : Text) :
    (other.allSections (others.take k)).get? name =
      (page.allSections (layouts.take k)).get? name := by
  induction k generalizing name with
  | zero =>
      have hpage : ∀ name, other.sections.get? name = page.sections.get? name := fun _ =>
        h.sections (k := 0) rfl rfl (by simp)
      simp only [List.take_zero, Document.allSections, List.foldl_nil, Document.get?_ownSections,
        hpage, fillSlots_of_get?_eq hpage]
  | succ k ih =>
      have hlength : others.length = layouts.length := Nat.succ.inj h.length
      have hlast := List.getElem?_eq_getElem hk
      have hother := List.getElem?_eq_getElem (hlength ▸ hk)
      have hbefore := ih (Nat.le_of_succ_le hk)
      rw [List.take_succ_eq_append_getElem hk, List.take_succ_eq_append_getElem (hlength ▸ hk),
        Document.allSections_concat, Document.allSections_concat,
        Document.get?_inheritedSections, Document.get?_inheritedSections, hbefore,
        fillSlots_of_get?_eq hbefore]
      -- only a section that is not there yet is taken, and on such sections both documents agree
      cases hname : (page.allSections (layouts.take k)).get? name with
      | some content => rfl
      | none =>
          have hnearer := Document.get?_allSections_eq_none_iff.1 hname
          rw [h.sections (k := k + 1) hlast hother hnearer]

theorem composeAll_eq {documents others : List Document} (h : ShowsAlike documents others) :
    composeAll others = composeAll documents := by
  cases documents with
  | nil =>
      obtain rfl := List.length_eq_zero_iff.1 h.length
      rfl
  | cons page layouts =>
      obtain ⟨other, others, rfl⟩ := List.exists_cons_of_length_eq_add_one h.length
      have hlength : others.length = layouts.length := Nat.succ.inj h.length
      have hsections := h.get?_allSections_take layouts.length (Nat.le_refl _)
      rw [List.take_length, ← hlength, List.take_length] at hsections
      have hbody : (others.getLast?.getD other).body = (layouts.getLast?.getD page).body := by
        simpa [List.getLast?_cons] using h.body
      rw [composeAll, composeAll, hbody, fillSlots_of_get?_eq hsections]

end ShowsAlike

/-! ## Replaced parts -/

namespace Document

def replaceBody (d : Document) (body : Text) : Document := { d with body := body }

def replaceSection (d : Document) (name content : Text) : Document :=
  { d with sections := d.sections.set name content }

end Document

theorem showsAlike_replaceBody {documents : List Document} {k : Nat}
    (hk : k + 1 < documents.length) (body : Text) :
    ShowsAlike documents (documents.modify k (·.replaceBody body)) where
  length := by simp
  sections := by
    intro i d other name hd hother _
    rw [List.getElem?_modify, hd] at hother
    split at hother
    · cases hother
      rfl
    · cases hother
      rfl
  body := by
    have hlast : k ≠ documents.length - 1 := by omega
    rw [List.getLast?_eq_getElem?, List.getLast?_eq_getElem?, List.length_modify,
      List.getElem?_modify_ne _ _ hlast]

theorem showsAlike_replaceSection {documents : List Document} {k : Nat} {name : Text}
    (h : ∃ d ∈ documents.take k, d.sections.get? name ≠ none) (content : Text) :
    ShowsAlike documents (documents.modify k (·.replaceSection name content)) where
  length := by simp
  sections := by
    intro i d other seen hd hother hnearer
    rw [List.getElem?_modify, hd] at hother
    split at hother
    · next hi =>
      cases hother
      have hne : seen ≠ name := by
        rintro rfl
        obtain ⟨n, hn, hdefined⟩ := h
        exact hdefined (hnearer n (hi ▸ hn))
      simp [Document.replaceSection, Bindings.get?_set, hne]
    · cases hother
      rfl
  body := by
    rw [← List.getLast?_map, ← List.getLast?_map]
    congr 1
    apply List.ext_getElem?
    intro i
    rw [List.getElem?_map, List.getElem?_map, List.getElem?_modify]
    cases documents[i]? with
    | none => rfl
    | some d => split <;> rfl

end Stencil.Template
