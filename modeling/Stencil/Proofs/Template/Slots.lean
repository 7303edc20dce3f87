import Mathlib.Data.List.Infix
import Stencil.Proofs.Template.Nearest
import Stencil.Proofs.Template.Recognition

/-!
# What becomes of slots

Filling puts text in the place of slots and looks at it no further.  The slots
that a filled text still has were put in as they stood, or begin in one part of
the text and end in another.
-/

namespace Stencil.Template

namespace Fragment

def slotName? (f : Fragment) : Option Text :=
  match f.directive? with
  | some (.slot name _) => some name
  | _ => none

def isSlot (f : Fragment) : Bool := f.slotName?.isSome

theorem slotName?_eq_some_iff {f : Fragment} {name : Text} :
    f.slotName? = some name ↔ ∃ fallback, f.directive? = some (.slot name fallback) := by
  unfold slotName?
  split
  · next other fallback h => simp [h]
  · next h =>
    constructor
    · intro hname
      cases hname
    · rintro ⟨fallback, hslot⟩
      exact (h name fallback hslot).elim

theorem isSlot_iff {f : Fragment} :
    f.isSlot = true ↔ ∃ name fallback, f.directive? = some (.slot name fallback) := by
  simp only [isSlot, Option.isSome_iff_exists, slotName?_eq_some_iff]

theorem isSlot_of_text {f : Fragment} (h : f.kind = .text) : f.isSlot = false := by
  simp [isSlot, slotName?, directive?, h]

theorem filled_of_not_isSlot {f : Fragment} (h : f.isSlot = false) (sections : Bindings Text) :
    f.filled sections = f.raw := by
  unfold filled
  split
  · next name fallback hslot =>
    rw [isSlot_iff.2 ⟨name, fallback, hslot⟩] at h
    cases h
  · rfl

theorem filled_of_slot {f : Fragment} {name : Text} {fallback : Option Text}
    (h : f.directive? = some (.slot name fallback)) (sections : Bindings Text) :
    f.filled sections = (sections.get? name).getD (Html.escape (fallback.getD [])) := by
  simp only [filled, h]
  cases sections.get? name <;> rfl

theorem exists_keyword?_of_isSlot {t rest : Text} {f : Fragment}
    (h : recognise? t = some (f, rest)) (hslot : f.isSlot = true) :
    ∃ after, t = '@' :: after ∧ keyword? after = some (f, rest) := by
  obtain ⟨name, fallback, hdirective⟩ := isSlot_iff.1 hslot
  unfold recognise? at h
  split at h
  · obtain ⟨c, body, -, -, rfl, -⟩ := instruction?_eq_some_iff.1 h
    cases hdirective
  · split at h
    · next comment hcomment =>
      cases h
      obtain ⟨body, rfl⟩ := eq_comment_of_comment? hcomment
      cases hdirective
    · obtain ⟨argument, d, hd, -, rfl, -⟩ := echo?_eq_some_iff.1 h
      rw [(Directive.echo?_eq_some_iff.1 hd).1] at hdirective
      cases hdirective
  · exact ⟨_, rfl, h⟩
  · cases h

theorem spelling_prefix_of_isSlot {f : Fragment} {rest : Text} (h : IsCall f rest)
    (hslot : f.isSlot = true) : '@' :: Keyword.slot.spelling <+: f.raw := by
  obtain ⟨name, fallback, hdirective⟩ := isSlot_iff.1 hslot
  cases h with
  | @closed k gap arguments _ d hk hgap hd hends =>
      cases hdirective
      cases Keyword.directive?_eq_some_iff.1 hd
      simp
  | @bare k _ d hk hd hrest =>
      cases hdirective
      cases Keyword.directive?_eq_some_iff.1 hd
      cases hk

end Fragment

open Fragment

/-! ## Texts where no slot starts -/

def IsInert (t : Text) : Prop :=
  ∀ before after more f rest, t = before ++ '@' :: after →
    keyword? (after ++ more) = some (f, rest) → f.isSlot = false

def LacksSlotWord (t : Text) : Prop :=
  ∀ s ∈ t.tails, s ≠ [] →
    ¬ '@' :: Keyword.slot.spelling <+: s ∧ ¬ s <+: '@' :: Keyword.slot.spelling

instance : DecidablePred LacksSlotWord := fun t =>
  inferInstanceAs (Decidable (∀ s ∈ t.tails, s ≠ [] →
    ¬ '@' :: Keyword.slot.spelling <+: s ∧ ¬ s <+: '@' :: Keyword.slot.spelling))

namespace IsInert

variable {t u : Text}

theorem nil : IsInert [] := by
  intro before after more f rest ht
  simp at ht

theorem append (ht : IsInert t) (hu : IsInert u) : IsInert (t ++ u) := by
  intro before after more f rest htu hfound
  rcases List.append_eq_append_iff.1 htu with ⟨between, rfl, hbetween⟩ | ⟨between, rfl, hbetween⟩
  · exact hu between after more f rest hbetween hfound
  · cases between with
    | nil => exact hu [] after more f rest hbetween.symm hfound
    | cons c between =>
        rw [List.cons_append, List.cons.injEq] at hbetween
        obtain ⟨rfl, rfl⟩ := hbetween
        rw [List.append_assoc] at hfound
        exact ht before between (u ++ more) f rest rfl hfound

theorem flatten {parts : List Text} (h : ∀ part ∈ parts, IsInert part) : IsInert parts.flatten := by
  induction parts with
  | nil => exact nil
  | cons part parts ih =>
      rw [List.flatten_cons]
      exact (h part List.mem_cons_self).append (ih fun p hp => h p (List.mem_cons_of_mem _ hp))

theorem of_append_right (h : IsInert (t ++ u)) : IsInert u := by
  intro before after more f rest hu hfound
  refine h (t ++ before) after more f rest ?_ hfound
  rw [hu, List.append_assoc]

theorem isSlot_of_mem (h : IsInert t) : ∀ f ∈ ofText t, f.isSlot = false := by
  intro f hf
  fun_induction ofText t with
  | case1 => cases hf
  | case2 c t g rest hg _ ih =>
      rcases List.mem_cons.1 hf with rfl | hrest
      · rw [Bool.eq_false_iff]
        intro hslot
        obtain ⟨after, hat, hfound⟩ := exists_keyword?_of_isSlot hg hslot
        rw [← List.append_nil after] at hfound
        rw [h [] after [] f rest hat hfound] at hslot
        cases hslot
      · rw [eq_of_recognise? hg] at h
        exact ih h.of_append_right hrest
  | case3 c t _ ih =>
      rcases kind_eq_text_or_mem_of_mem_consChar hf with htext | hmem
      · exact isSlot_of_text htext
      · exact ih (of_append_right (t := [c]) h) hmem

theorem of_lacksSlotWord (h : LacksSlotWord t) : IsInert t := by
  intro before after more f rest ht hfound
  rw [Bool.eq_false_iff]
  intro hslot
  have hmem : '@' :: after ∈ t.tails := (List.mem_tails _ _).2 ⟨before, ht.symm⟩
  obtain ⟨hno, hcut⟩ := h _ hmem (by simp)
  have hword : '@' :: Keyword.slot.spelling <+: '@' :: after ++ more := by
    rw [List.cons_append, eq_of_keyword? hfound]
    exact (spelling_prefix_of_isSlot (isCall_of_keyword? hfound) hslot).trans
      (List.prefix_append _ _)
  rcases List.prefix_or_prefix_of_prefix hword (List.prefix_append _ more) with hstart | hstart
  · exact hno hstart
  · exact hcut hstart

end IsInert

/-! ## What slots are filled with -/

/-- What is shown for a fragment of a text whose slots nothing is said of. -/
def Fragment.IsKeptAs (f : Fragment) (part : Text) : Prop := f.isSlot = false → part = f.raw

theorem forall₂_isKeptAs_raw (fragments : List Fragment) :
    List.Forall₂ IsKeptAs fragments (fragments.map raw) := by
  rw [List.forall₂_map_right_iff, List.forall₂_same]
  exact fun _ _ _ => rfl

/-- The parts of a text of a chain when its slots are filled from the documents `around`, which are
those nearer to the page than its own.  A section of the page is filled from the page, and what is
put in there is not filled in turn: if it has slots, nothing is said of these. -/
inductive IsFilled (page : Document) : (around : List Document) → List Fragment → List Text → Prop
  | nil {around : List Document} : IsFilled page around [] []
  | kept {around : List Document} {f : Fragment} {fragments : List Fragment} {parts : List Text}
      (hf : f.isSlot = false) (hs : IsFilled page around fragments parts) :
      IsFilled page around (f :: fragments) (f.raw :: parts)
  | fallback {around : List Document} {f : Fragment} {fragments : List Fragment}
      {parts : List Text} {name : Text} {fallback : Option Text}
      (hf : f.directive? = some (.slot name fallback))
      (hnone : ∀ d ∈ page :: around, d.sections.get? name = none)
      (hs : IsFilled page around fragments parts) :
      IsFilled page around (f :: fragments) (Html.escape (fallback.getD []) :: parts)
  | shown {around nearer farther : List Document} {d : Document} {f : Fragment}
      {fragments : List Fragment} {inner parts : List Text} {name content : Text}
      (hf : f.slotName? = some name) (haround : around = nearer ++ d :: farther)
      (hnearer : ∀ n ∈ nearer, n.sections.get? name = none)
      (hd : d.sections.get? name = some content)
      (hcontent : IsFilled page nearer (ofText content) inner)
      (hs : IsFilled page around fragments parts) :
      IsFilled page around (f :: fragments) (inner ++ parts)
  | copied {f : Fragment} {fragments : List Fragment} {parts : List Text} {name content : Text}
      (hf : f.slotName? = some name) (hpage : page.sections.get? name = some content)
      (hplain : ∀ g ∈ ofText content, g.isSlot = false) (hs : IsFilled page [] fragments parts) :
      IsFilled page [] (f :: fragments) (content :: parts)
  | unsaid {f g : Fragment} {fragments : List Fragment} {inner parts : List Text}
      {name content : Text} (hf : f.slotName? = some name)
      (hpage : page.sections.get? name = some content) (hg : g ∈ ofText content)
      (hslot : g.isSlot = true) (hinner : List.Forall₂ IsKeptAs (ofText content) inner)
      (hs : IsFilled page [] fragments parts) :
      IsFilled page [] (f :: fragments) (inner ++ parts)

section

variable {page : Document} {layouts around : List Document} {t name content : Text}

theorem Document.exists_nearest (h : (page.allSections layouts).get? name = some content) :
    ∃ nearer d farther own, page :: layouts = nearer ++ d :: farther ∧
      (∀ n ∈ nearer, n.sections.get? name = none) ∧ d.sections.get? name = some own ∧
      content = fillSlots (d.surroundings nearer) own := by
  cases hfind : (page :: layouts).find? fun d => (d.sections.get? name).isSome with
  | none =>
      have hnone : ∀ d ∈ page :: layouts, d.sections.get? name = none := by
        simpa using List.find?_eq_none.1 hfind
      rw [get?_allSections_eq_none_iff.2 hnone] at h
      cases h
  | some d =>
      obtain ⟨hsome, nearer, farther, hchain, hnearer⟩ := List.find?_eq_some_iff_append.1 hfind
      obtain ⟨own, hown⟩ := Option.isSome_iff_exists.1 hsome
      have hnone : ∀ n ∈ nearer, n.sections.get? name = none := by simpa using hnearer
      have hcontent := get?_allSections_of_nearest hchain hnone hown
      rw [h, Option.some.injEq] at hcontent
      exact ⟨nearer, d, farther, own, hchain, hnone, hown, hcontent⟩

theorem Document.surroundings_eq {nearer farther : List Document} {d : Document}
    (h : nearer ++ d :: farther <+: page :: layouts) :
    d.surroundings nearer = page.surroundings nearer := by
  cases nearer with
  | nil =>
      rw [List.nil_append, List.cons_prefix_cons] at h
      rw [h.1]
  | cons first nearer => rfl

theorem Document.get?_surroundings_eq_none (h : around <+: page :: layouts)
    (hname : (page.surroundings around).get? name = none) :
    ∀ d ∈ page :: around, d.sections.get? name = none := by
  cases around with
  | nil =>
      intro d hd
      rw [List.mem_singleton] at hd
      exact hd ▸ hname
  | cons first others =>
      rw [List.cons_prefix_cons] at h
      obtain ⟨rfl, -⟩ := h
      have hnone := get?_allSections_eq_none_iff.1 hname
      simpa using hnone

theorem Document.exists_shown (h : around <+: page :: layouts) (hne : around ≠ [])
    (hname : (page.surroundings around).get? name = some content) :
    ∃ nearer d farther own, around = nearer ++ d :: farther ∧
      (∀ n ∈ nearer, n.sections.get? name = none) ∧ d.sections.get? name = some own ∧
      content = fillSlots (page.surroundings nearer) own := by
  obtain ⟨first, others, rfl⟩ := List.exists_cons_of_ne_nil hne
  have hfirst : (first.allSections others).get? name = some content := hname
  obtain ⟨nearer, d, farther, own, hchain, hnearer, hd, hown⟩ := exists_nearest hfirst
  refine ⟨nearer, d, farther, own, hchain, hnearer, hd, ?_⟩
  rw [hown, surroundings_eq (hchain ▸ h)]

def Fills (page : Document) (around : List Document) : Prop :=
  ∀ fragments, ∃ parts, IsFilled page around fragments parts ∧
    fragments.flatMap (filled (page.surroundings around)) = parts.flatten

theorem exists_isFilled_section (h : around <+: page :: layouts)
    (ih : ∀ nearer, nearer.length < around.length → nearer <+: page :: layouts →
      Fills page nearer)
    {f : Fragment} (hf : f.slotName? = some name)
    (hname : (page.surroundings around).get? name = some content) {fragments : List Fragment}
    {parts : List Text} (hs : IsFilled page around fragments parts) :
    ∃ inner, IsFilled page around (f :: fragments) (inner ++ parts) ∧ content = inner.flatten := by
  by_cases hne : around = []
  · subst hne
    by_cases hplain : ∀ g ∈ ofText content, g.isSlot = false
    · exact ⟨[content], .copied hf hname hplain hs, by simp⟩
    · push Not at hplain
      obtain ⟨g, hg, hslot⟩ := hplain
      refine ⟨_, .unsaid hf hname hg (by simpa using hslot) (forall₂_isKeptAs_raw _) hs, ?_⟩
      rw [← List.flatMap_def]
      exact (toText_ofText content).symm
  · obtain ⟨nearer, d, farther, own, haround, hnearer, hd, rfl⟩ := Document.exists_shown h hne hname
    have hshorter : nearer.length < around.length := by
      rw [haround, List.length_append, List.length_cons]
      omega
    have hchain : nearer <+: page :: layouts := (haround ▸ List.prefix_append _ _).trans h
    obtain ⟨inner, hinner, hflat⟩ := ih nearer hshorter hchain (ofText own)
    exact ⟨inner, .shown hf haround hnearer hd hinner hs, hflat⟩

theorem fills (h : around <+: page :: layouts) : Fills page around := by
  induction hlength : around.length using Nat.strong_induction_on generalizing around with
  | _ length ihAround =>
    subst hlength
    intro fragments
    induction fragments with
    | nil => exact ⟨[], .nil, rfl⟩
    | cons f fragments ih =>
        obtain ⟨parts, hparts, hflat⟩ := ih
        rw [List.flatMap_cons, hflat]
        cases hkind : f.isSlot with
        | false => exact ⟨_, .kept hkind hparts, by rw [filled_of_not_isSlot hkind]; rfl⟩
        | true =>
            obtain ⟨name, fallback, hslot⟩ := isSlot_iff.1 hkind
            rw [filled_of_slot hslot]
            cases hname : (page.surroundings around).get? name with
            | none =>
                have hnone := Document.get?_surroundings_eq_none h hname
                exact ⟨_, .fallback hslot hnone hparts, rfl⟩
            | some content =>
                have ihNearer : ∀ nearer, nearer.length < around.length →
                    nearer <+: page :: layouts → Fills page nearer :=
                  fun nearer hshorter hchain => ihAround _ hshorter hchain rfl
                obtain ⟨inner, hinner, rfl⟩ := exists_isFilled_section h ihNearer
                  (slotName?_eq_some_iff.2 ⟨fallback, hslot⟩) hname hparts
                exact ⟨_, hinner, by rw [List.flatten_append]; rfl⟩

theorem exists_isFilled_composeAll (page : Document) (layouts : List Document) :
    ∃ parts, composeAll (page :: layouts) = parts.flatten ∧
      IsFilled page (page :: layouts) (ofText (layouts.getLast?.getD page).body) parts := by
  obtain ⟨parts, hparts, hflat⟩ := fills (List.prefix_refl (page :: layouts))
    (ofText (layouts.getLast?.getD page).body)
  exact ⟨parts, hflat, hparts⟩

/-! ## Checks on the documents of a chain -/

def Document.texts (d : Document) : List Text := d.body :: d.sections.map Prod.snd

theorem Document.mem_texts {d : Document} (h : d.sections.get? name = some content) :
    content ∈ d.texts := by
  obtain ⟨before, after, hsections, -⟩ := List.lookup_eq_some_iff.1 h
  have hpair : (name, content) ∈ d.sections := by simp [hsections]
  exact List.mem_cons_of_mem _ (List.mem_map_of_mem hpair)

theorem isInert_of_fragments (h : ∀ f ∈ ofText t, IsInert f.raw) : IsInert t := by
  rw [← toText_ofText t, toText, List.flatMap_def]
  refine IsInert.flatten fun raw hraw => ?_
  obtain ⟨f, hf, rfl⟩ := List.mem_map.1 hraw
  exact h f hf

def Document.IsQuiet (d : Document) : Prop :=
  ∀ t ∈ d.texts, ∀ f ∈ ofText t, IsInert (f.filled [])

def Document.IsShallow (d : Document) : Prop :=
  ∀ t ∈ d.texts, ∀ f ∈ ofText t, ∀ name ∈ f.slotName?, ∀ content ∈ d.sections.get? name,
    ∀ g ∈ ofText content, g.isSlot = false

theorem IsFilled.isInert {fragments : List Fragment} {parts : List Text}
    (h : IsFilled page around fragments parts) (hchain : around <+: page :: layouts)
    (hquiet : ∀ d ∈ page :: layouts, d.IsQuiet) (hshallow : page.IsShallow) {d : Document}
    (hd : d ∈ page :: layouts) (hpage : around = [] → d = page) (ht : t ∈ d.texts)
    (hfragments : ∀ f ∈ fragments, f ∈ ofText t) : ∀ part ∈ parts, IsInert part := by
  induction h generalizing d t with
  | nil => simp
  | @kept around f fragments parts hf hs ih =>
      rw [List.forall_mem_cons] at hfragments ⊢
      exact ⟨filled_of_not_isSlot hf [] ▸ hquiet d hd t ht f hfragments.1,
        ih hchain hd hpage ht hfragments.2⟩
  | @fallback around f fragments parts name fallback hf hnone hs ih =>
      rw [List.forall_mem_cons] at hfragments ⊢
      have hshown : f.filled [] = Html.escape (fallback.getD []) := filled_of_slot hf []
      exact ⟨hshown ▸ hquiet d hd t ht f hfragments.1, ih hchain hd hpage ht hfragments.2⟩
  | @shown around nearer farther own f fragments inner parts name content hf haround hnearer hown
      hcontent hs ihContent ih =>
      rw [List.forall_mem_cons] at hfragments
      rw [haround] at hchain
      have hmem : own ∈ page :: layouts := hchain.subset (by simp)
      have hfirst : nearer = [] → own = page := by
        rintro rfl
        exact (List.cons_prefix_cons.1 hchain).1
      have hinner := ihContent ((List.prefix_append _ _).trans hchain) hmem hfirst
        (Document.mem_texts hown) fun _ hf => hf
      have hrest := ih (haround ▸ hchain) hd hpage ht hfragments.2
      exact List.forall_mem_append.2 ⟨hinner, hrest⟩
  | @copied f fragments parts name content hf hcontent hplain hs ih =>
      rw [List.forall_mem_cons] at hfragments ⊢
      refine ⟨isInert_of_fragments fun g hg => ?_, ih hchain hd hpage ht hfragments.2⟩
      rw [← filled_of_not_isSlot (hplain g hg) []]
      exact hquiet page List.mem_cons_self content (Document.mem_texts hcontent) g hg
  | @unsaid f g fragments inner parts name content hf hcontent hg hslot hinner hs ih =>
      rw [List.forall_mem_cons] at hfragments
      obtain rfl := hpage rfl
      have hnot := hshallow t ht f hfragments.1 name hf content hcontent g hg
      rw [hslot] at hnot
      cases hnot

end

end Stencil.Template
