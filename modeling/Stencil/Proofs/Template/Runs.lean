import Stencil.Proofs.Template.Cutting
import Stencil.Proofs.Template.Parts

/-!
# Runs of fragments

Fragments that follow one another are what their own text is cut into.  What was
recognised does not need the text behind the run, and what was not, for all of
the text that could be searched, is not when less of it is there.
-/

namespace Stencil.Template

namespace Fragment

variable {t rest more : Text} {f : Fragment}

/-! ## With more text behind -/

theorem instruction?_append (h : instruction? t = some (f, rest)) (more : Text) :
    instruction? (t ++ more) = some (f, rest ++ more) := by
  obtain ⟨c, body, hc, hends, hf, rfl⟩ := instruction?_eq_some_iff.1 h
  exact instruction?_eq_some_iff.2 ⟨c, body, hc, hends, hf, List.append_assoc ..⟩

theorem comment?_append (h : comment? t = some (f, rest)) (more : Text) :
    comment? (t ++ more) = some (f, rest ++ more) := by
  obtain ⟨body, hfirst, hf, rfl⟩ := comment?_eq_some_iff.1 h
  exact comment?_eq_some_iff.2 ⟨body, hfirst, hf, List.append_assoc ..⟩

theorem echo?_append (h : echo? t = some (f, rest)) (more : Text) :
    echo? (t ++ more) = some (f, rest ++ more) := by
  obtain ⟨argument, d, hd, hends, hf, rfl⟩ := echo?_eq_some_iff.1 h
  exact echo?_eq_some_iff.2 ⟨argument, d, hd, hends, hf, List.append_assoc ..⟩

theorem keyword?_append (h : keyword? t = some (f, rest))
    (hmore : (∀ c ∈ t, c.isAlpha = true) → more.head?.any isIdentPart = false) :
    keyword? (t ++ more) = some (f, rest ++ more) := by
  obtain ⟨hcall, ht⟩ := keyword?_eq_some_iff.1 h
  have htext : '@' :: (t ++ more) = f.raw ++ (rest ++ more) := by
    rw [← List.cons_append, ht, List.append_assoc]
  refine keyword?_eq_some_iff.2 ⟨?_, htext⟩
  cases hcall with
  | closed hk hgap hd hends => exact .closed hk hgap hd hends
  | @bare k _ d hk hd hrest =>
      refine .bare hk hd ?_
      cases rest with
      | nil =>
          rw [List.append_nil] at ht
          rw [(List.cons.inj ht).2] at hmore
          exact hmore (isAlpha_of_spelling k)
      | cons c rest => exact hrest

/-! ## With less text behind -/

theorem eq_none_of_append {recogniser : Text → Option (Fragment × Text)}
    (happend : ∀ f rest, recogniser t = some (f, rest) →
      recogniser (t ++ more) = some (f, rest ++ more))
    (h : recogniser (t ++ more) = none) : recogniser t = none := by
  rw [Option.eq_none_iff_forall_ne_some]
  rintro ⟨f, rest⟩ hfound
  rw [happend f rest hfound] at h
  cases h

theorem IsSilent.of_append (h : IsSilent (t ++ more))
    (hmore : (∀ c ∈ t.tail, c.isAlpha = true) → more.head?.any isIdentPart = false) :
    IsSilent t := by
  constructor
  · exact eq_none_of_append (fun _ _ hfound => instruction?_append hfound more) h.instruction
  · exact eq_none_of_append (fun _ _ hfound => comment?_append hfound more) h.comment
  · exact eq_none_of_append (fun _ _ hfound => echo?_append hfound more) h.echo
  · rintro u rfl
    exact eq_none_of_append (fun _ _ hfound => keyword?_append hfound hmore)
      (h.keyword (u ++ more) rfl)

theorem head?_any_of_append (h : (rest ++ more).head?.any isIdentPart = false) :
    rest.head?.any isIdentPart = false := by
  cases rest with
  | nil => rfl
  | cons c rest => exact h

theorem recognise?_of_append_of_brace {u : Text} (hraw : f.raw = '{' :: u)
    (h : recognise? (f.raw ++ (rest ++ more)) = some (f, rest ++ more)) :
    recognise? (f.raw ++ rest) = some (f, rest) := by
  rw [hraw, List.cons_append, recognise?_brace_eq_some_iff] at h ⊢
  rw [← List.cons_append, ← hraw] at h ⊢
  rcases h with hcomment | ⟨hnone, hecho⟩
  · obtain ⟨body, hfirst, hf, -⟩ := comment?_eq_some_iff.1 hcomment
    exact Or.inl (comment?_eq_some_iff.2 ⟨body, hfirst, hf, rfl⟩)
  · obtain ⟨argument, d, hd, hends, hf, -⟩ := echo?_eq_some_iff.1 hecho
    refine Or.inr ⟨?_, echo?_eq_some_iff.2 ⟨argument, d, hd, hends, hf, rfl⟩⟩
    -- a comment in less text would have been found in more
    rw [← List.append_assoc] at hnone
    exact eq_none_of_append (fun _ _ hfound => comment?_append hfound more) hnone

theorem recognise?_of_append
    (h : recognise? (f.raw ++ (rest ++ more)) = some (f, rest ++ more)) :
    recognise? (f.raw ++ rest) = some (f, rest) := by
  cases isFound_of_recognise? h with
  | instruction hc hends => exact instruction?_eq_some_iff.2 ⟨_, _, hc, hends, rfl, rfl⟩
  | comment body => exact recognise?_of_append_of_brace rfl h
  | echo hd hends => exact recognise?_of_append_of_brace rfl h
  | call hcall => exact recognise?_of_isCall hcall h head?_any_of_append

/-! ## Runs -/

theorem IsPlaced.of_append (h : f.IsPlaced (rest ++ more))
    (hmore : f.kind = .text → (∀ c ∈ rest, c.isAlpha = true) →
      more.head?.any isIdentPart = false) :
    f.IsPlaced rest := by
  constructor
  · exact h.filled
  · exact fun hkind => recognise?_of_append (h.found hkind)
  · intro htext lead last hsplit hne
    have hfull := h.silent htext lead last hsplit hne
    rw [← List.append_assoc] at hfull
    refine hfull.of_append fun halpha => hmore htext fun c hc => halpha c ?_
    obtain ⟨d, last, rfl⟩ := List.exists_cons_of_ne_nil hne
    exact List.mem_append_right last hc

theorem IsFound.exists_cons (h : f.IsFound) : ∃ c u, f.raw = c :: u ∧ isIdentPart c = false := by
  cases h with
  | instruction hc hends => exact ⟨_, _, rfl, rfl⟩
  | comment body => exact ⟨_, _, rfl, rfl⟩
  | echo hd hends => exact ⟨_, _, rfl, rfl⟩
  | call hcall =>
      cases hcall with
      | closed => exact ⟨_, _, rfl, rfl⟩
      | bare => exact ⟨_, _, rfl, rfl⟩

theorem IsCut.head?_any_of_isAlpha {before trail after : List Fragment}
    (h : IsCut (before ++ f :: (after ++ trail))) (htext : f.kind = .text)
    (halpha : ∀ c ∈ toText after, c.isAlpha = true) :
    (toText trail).head?.any isIdentPart = false := by
  have hmark : ∀ g rest, after ++ trail = g :: rest →
      ∃ c u, g.raw = c :: u ∧ isIdentPart c = false := by
    intro g rest hnext
    rw [hnext] at h
    have hfound := (h.placed (before ++ [f]) g rest (by simp)).found
      (h.apart before f g rest rfl htext)
    exact (isFound_of_recognise? hfound).exists_cons
  cases after with
  | nil =>
      cases trail with
      | nil => rfl
      | cons g trail =>
          obtain ⟨c, u, hraw, hc⟩ := hmark g trail rfl
          simp [hraw, hc]
  | cons g after =>
      obtain ⟨c, u, hraw, hc⟩ := hmark g (after ++ trail) rfl
      have hletter := halpha c (by simp [hraw])
      rw [not_isAlpha_of_isIdentPart hc] at hletter
      cases hletter

theorem IsCut.of_run {fragments run : List Fragment} (h : IsCut fragments)
    (hrun : run <:+: fragments) : IsCut run := by
  obtain ⟨lead, trail, rfl⟩ := hrun
  constructor
  · rintro before f after rfl
    have hcut : IsCut (lead ++ before ++ f :: (after ++ trail)) := by
      simpa using h
    have hplaced := hcut.placed (lead ++ before) f (after ++ trail) rfl
    have hbehind : toText (after ++ trail) = toText after ++ toText trail := by
      simp [toText]
    rw [hbehind] at hplaced
    exact hplaced.of_append hcut.head?_any_of_isAlpha
  · rintro before f g after rfl
    exact h.apart (lead ++ before) f g (after ++ trail) (by simp)

theorem ofText_toText_of_run {source : Text} {run : List Fragment}
    (h : run <:+: ofText source) : ofText (toText run) = run :=
  ((isCut_ofText source).of_run h).ofText_toText

theorem compile_toText_of_run {source : Text} {run : List Fragment}
    (h : run <:+: ofText source) : compile (toText run) = run.flatMap compiled := by
  rw [compile, ofText_toText_of_run h]

end Fragment

open Fragment

theorem IsDivision.content_isRun {parts : List Part} {fragments : List Fragment}
    (h : IsDivision parts fragments) {p : Part} (hp : p ∈ parts) : p.content <:+: fragments := by
  obtain ⟨before, after, rfl⟩ := List.append_of_mem hp
  rw [← h.flatMap_fragments, List.flatMap_append, List.flatMap_cons, Part.fragments]
  refine ⟨before.flatMap Part.fragments ++ [p.head],
    p.closing ++ after.flatMap Part.fragments, ?_⟩
  simp

/-- A text whose fragments can be cut out, and be compiled where they are or on their own. -/
structure IsStable (source : Text) : Prop where
  runs : ∀ run, run <:+: ofText source → ofText (toText run) = run
  contents : ∀ parts, IsDivision parts (ofText source) → ∀ p ∈ parts,
    compile (toText p.content) = p.content.flatMap compiled
  document : ∀ parts, IsDivision parts (ofText source) →
    (Document.ofCompiled source).IsOfParts (fun content => content.flatMap compiled) parts

theorem isStable (source : Text) : IsStable source := by
  have hcontents : ∀ parts, IsDivision parts (ofText source) → ∀ p ∈ parts,
      compile (toText p.content) = p.content.flatMap compiled :=
    fun parts hparts p hp => compile_toText_of_run (hparts.content_isRun hp)
  constructor
  · exact fun run hrun => ofText_toText_of_run hrun
  · exact hcontents
  · exact fun parts hparts => hparts.isOfParts (hcontents parts hparts)

end Stencil.Template
