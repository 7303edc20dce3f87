import Stencil.Proofs.Template.Recompiling

/-!
# Sources without their comments

A comment leaves nothing behind, so the texts on either side of it become one.
A source is settled if what is left of it is cut as it was cut before, with
those texts joined.  Then the artifact has just the instructions that were
written for directives, unless literal text starts one.
-/

namespace Stencil.Template

/-! ## Neighbouring texts -/

def consFragment : Fragment → List Fragment → List Fragment
  | ⟨.text, raw⟩, ⟨.text, next⟩ :: fragments => ⟨.text, raw ++ next⟩ :: fragments
  | f, fragments => f :: fragments

def joinTexts : List Fragment → List Fragment
  | [] => []
  | f :: fragments => consFragment f (joinTexts fragments)

theorem consFragment_of_ne {f : Fragment} (h : f.kind ≠ .text) (fragments : List Fragment) :
    consFragment f fragments = f :: fragments := by
  unfold consFragment
  split
  · exact absurd rfl h
  · rfl

theorem flatMap_joinTexts {α : Type} {g : Fragment → List α}
    (hjoin : ∀ s t : Text, g ⟨.text, s ++ t⟩ = g ⟨.text, s⟩ ++ g ⟨.text, t⟩)
    (fragments : List Fragment) : (joinTexts fragments).flatMap g = fragments.flatMap g := by
  induction fragments with
  | nil => rfl
  | cons f fragments ih =>
      rw [joinTexts, List.flatMap_cons, ← ih]
      unfold consFragment
      split
      · next raw next more hmore =>
        rw [hmore, List.flatMap_cons, List.flatMap_cons, hjoin, List.append_assoc]
      · rw [List.flatMap_cons]

theorem mem_joinTexts {fragments : List Fragment} {f : Fragment} (h : f ∈ joinTexts fragments) :
    f.kind = .text ∨ f ∈ fragments := by
  induction fragments with
  | nil => cases h
  | cons g fragments ih =>
      rw [joinTexts] at h
      unfold consFragment at h
      split at h
      · next raw next more hmore =>
        rcases List.mem_cons.1 h with rfl | hmem
        · exact Or.inl rfl
        · rw [hmore] at ih
          exact (ih (List.mem_cons_of_mem _ hmem)).imp_right (List.mem_cons_of_mem _)
      · rcases List.mem_cons.1 h with rfl | hmem
        · exact Or.inr List.mem_cons_self
        · exact (ih hmem).imp_right (List.mem_cons_of_mem _)

theorem joinTexts_consChar (c : Char) (fragments : List Fragment) :
    joinTexts (Fragment.consChar c fragments) = Fragment.consChar c (joinTexts fragments) := by
  cases fragments with
  | nil => rfl
  | cons f fragments =>
      obtain ⟨kind, raw⟩ := f
      cases kind with
      | text =>
          simp only [Fragment.consChar, joinTexts]
          cases joinTexts fragments with
          | nil => rfl
          | cons g more =>
              obtain ⟨kind, next⟩ := g
              cases kind <;> rfl
      | comment | instruction _ | directive _ => rfl

theorem joinTexts_ofText (t : Text) : joinTexts (Fragment.ofText t) = Fragment.ofText t := by
  fun_induction Fragment.ofText t with
  | case1 => rfl
  | case2 c t f rest h _ ih =>
      have hkind : f.kind ≠ .text := by
        cases Fragment.isFound_of_recognise? h with
        | instruction | comment | echo => simp
        | call hcall => cases hcall <;> simp
      rw [joinTexts, ih, consFragment_of_ne hkind]
  | case3 c t h ih => rw [joinTexts_consChar, ih]

/-! ## Settled sources -/

namespace Fragment

def settled? (f : Fragment) : Option Fragment :=
  if f.isCanonical then some f
  else
    match f.kind with
    | .directive (.embed name) =>
      some ⟨.directive (.embed name),
        '@' :: Keyword.embed.spelling ++ '(' :: Quoted.quote name ++ [')']⟩
    | _ => none

theorem settled?_of_isCanonical {f : Fragment} (h : f.isCanonical = true) :
    f.settled? = some f := by
  rw [settled?, if_pos h]

theorem cases_of_not_isCanonical {f : Fragment} (h : f.isCanonical ≠ true) :
    f.kind = .comment ∨ ∃ name, f.kind = .directive (.embed name) := by
  unfold isCanonical at h
  split at h
  · next hkind => exact Or.inl hkind
  · next name hkind => exact Or.inr ⟨name, hkind⟩
  · exact absurd rfl h

theorem isCanonical_of_settled? {f g : Fragment} (h : f.settled? = some g) :
    g.isCanonical = true := by
  unfold settled? at h
  split at h
  · next hcanonical =>
    cases h
    exact hcanonical
  · split at h
    · next name hkind =>
      cases h
      have hargument := @argument_closed .embed [] (Quoted.quote name) (.embed name) (by simp)
        (by simp)
      rw [List.append_nil] at hargument
      rw [isCanonical]
      dsimp only
      rw [hargument, Text.trim_eq_self (isTrimmed_quote name), beq_self_eq_true]
    · cases h

def written? (f : Fragment) : Option Fragment := f.content?.map ofContent

def isInstruction (f : Fragment) : Bool :=
  match f.kind with
  | .instruction _ => true
  | _ => false

theorem compiled_settled? (f : Fragment) :
    f.compiled = (f.settled?.map compiled).getD [] ∧ f.settled?.bind written? = f.written? := by
  by_cases hcanonical : f.isCanonical = true
  · rw [settled?_of_isCanonical hcanonical]
    exact ⟨rfl, rfl⟩
  · obtain ⟨kind, raw⟩ := f
    rw [settled?, if_neg hcanonical]
    rcases cases_of_not_isCanonical hcanonical with hkind | ⟨name, hkind⟩ <;> cases hkind <;>
      exact ⟨rfl, rfl⟩

end Fragment

open Fragment

/-- The fragments of a source without its comments, with the texts around them joined. -/
def settled (source : Text) : List Fragment := joinTexts ((ofText source).filterMap settled?)

def IsSettled (source : Text) : Prop := ofText (toText (settled source)) = settled source

instance (source : Text) : Decidable (IsSettled source) :=
  inferInstanceAs (Decidable (ofText (toText (settled source)) = settled source))

/-- The instructions of the compiled text are those that were written for directives. -/
def ShowsWritten (source : Text) : Prop :=
  (ofText (compile source)).filter isInstruction = (ofText source).filterMap written?

theorem flatMap_compiled_settled (source : Text) :
    (settled source).flatMap compiled = compile source := by
  rw [settled, flatMap_joinTexts fun _ _ => rfl, compile]
  induction ofText source with
  | nil => rfl
  | cons f fragments ih =>
      rw [List.flatMap_cons, ← ih, (compiled_settled? f).1, List.filterMap_cons]
      cases f.settled? <;> simp

theorem filterMap_written?_settled (source : Text) :
    (settled source).filterMap written? = (ofText source).filterMap written? := by
  have hjoined : (settled source).flatMap (fun f => f.written?.toList) =
      ((ofText source).filterMap settled?).flatMap fun f => f.written?.toList :=
    flatMap_joinTexts (fun _ _ => rfl) _
  rw [List.filterMap_eq_flatMap_toList, hjoined, ← List.filterMap_eq_flatMap_toList,
    List.filterMap_filterMap]
  exact List.filterMap_congr fun f _ => (compiled_settled? f).2

theorem isCanonical_of_mem_settled {source : Text} {f : Fragment} (h : f ∈ settled source) :
    f.isCanonical = true := by
  rcases mem_joinTexts h with htext | hmem
  · unfold isCanonical
    rw [htext]
  · obtain ⟨g, -, hg⟩ := List.mem_filterMap.1 hmem
    exact isCanonical_of_settled? hg

theorem isInstruction_of_mem_settled {source : Text} {f : Fragment} (h : f ∈ settled source)
    (hplain : ∀ g ∈ ofText source, g.isInstruction = false) : f.isInstruction = false := by
  rcases mem_joinTexts h with htext | hmem
  · unfold isInstruction
    rw [htext]
  · obtain ⟨g, hg, hsettled⟩ := List.mem_filterMap.1 hmem
    unfold settled? at hsettled
    split at hsettled
    · cases hsettled
      exact hplain f hg
    · split at hsettled
      · cases hsettled
        rfl
      · cases hsettled

theorem settled_of_isCanonical {source : Text} (h : IsCanonical source) :
    settled source = ofText source := by
  have hall : (ofText source).filterMap settled? = ofText source := by
    rw [List.filterMap_congr fun f hf => settled?_of_isCanonical (h f hf), List.filterMap_some]
  rw [settled, hall, joinTexts_ofText]

theorem isSettled_of_isCanonical {source : Text} (h : IsCanonical source) : IsSettled source := by
  rw [IsSettled, settled_of_isCanonical h, toText_ofText]

theorem filter_isInstruction_carried {fragments : List Fragment}
    (hplain : ∀ f ∈ fragments, f.isInstruction = false) :
    (fragments.map carried).filter isInstruction = fragments.filterMap written? := by
  induction fragments with
  | nil => rfl
  | cons f fragments ih =>
      obtain ⟨hfirst, hrest⟩ := List.forall_mem_cons.1 hplain
      rw [List.map_cons, List.filterMap_cons, List.filter_cons, ih hrest, written?, carried]
      cases f.content? with
      | none => simp [hfirst]
      | some content => rfl

theorem showsWritten_of_isSettled {source : Text}
    (hplain : ∀ f ∈ ofText source, f.isInstruction = false) (h : IsSettled source)
    (hopen : ∀ f ∈ settled source, ¬ f.Opens) : ShowsWritten source := by
  have hcanonical : IsCanonical (toText (settled source)) := by
    intro f hf
    rw [h] at hf
    exact isCanonical_of_mem_settled hf
  have hcompile : compile (toText (settled source)) = compile source := by
    rw [compile, h, flatMap_compiled_settled]
  have hfragments : ofText (compile source) = (settled source).map carried := by
    rw [← hcompile, ofText_compile hcanonical (by rwa [h]), h]
  rw [ShowsWritten, hfragments, ← filterMap_written?_settled]
  exact filter_isInstruction_carried fun f hf => isInstruction_of_mem_settled hf hplain

end Stencil.Template
