import Stencil.Proofs.Cache.Slots
import Stencil.Proofs.Cache.Trail

/-!
# What an artifact records

The record in front of an artifact names the layouts of its chain, and is read
up to the first fragment that is none of its instructions.  Nothing marks its
end.  So the layouts that are read are those of the chain if the text behind the
record does not start with such an instruction itself, and more if it does.
-/

namespace Stencil

open Stencil.Template

namespace Artifact

def StartsPlainly (t : Text) : Prop := ∀ f ∈ (Fragment.ofText t).head?, usedLayout? f = none

theorem dependencies_eq_nil_iff {t : Text} : dependencies t = [] ↔ StartsPlainly t := by
  unfold dependencies StartsPlainly
  cases Fragment.ofText t with
  | nil => simp [leadingLayouts]
  | cons f fragments =>
      cases hf : usedLayout? f with
      | none => simp [leadingLayouts, hf]
      | some name => simp [leadingLayouts, hf]

theorem usedLayout?_of_kind_ne {f : Fragment} (h : ∀ body, f.kind ≠ .instruction body) :
    usedLayout? f = none := by
  unfold usedLayout?
  split
  · next body hkind => exact (h body hkind).elim
  · rfl

theorem startsPlainly_of_not_prefix {t : Text} (h : ¬ instructionOpen <+: t) : StartsPlainly t := by
  intro f hf
  refine usedLayout?_of_kind_ne fun body hkind => ?_
  cases t with
  | nil => simp [Fragment.ofText] at hf
  | cons c t =>
      cases hg : Fragment.recognise? (c :: t) with
      | none =>
          rw [Fragment.ofText_of_recognise?_eq_none hg] at hf
          unfold Fragment.consChar at hf
          split at hf <;> (cases hf; cases hkind)
      | some found =>
          obtain ⟨g, rest⟩ := found
          rw [Fragment.ofText_of_recognise? hg] at hf
          obtain rfl : g = f := Option.some.inj hf
          cases Fragment.isFound_of_recognise? hg with
          | instruction hc hends =>
              rw [Fragment.eq_of_recognise? hg, List.append_assoc, List.append_assoc] at h
              exact h (List.prefix_append _ _)
          | comment => cases hkind
          | echo => cases hkind
          | call hcall => cases hcall <;> cases hkind

end Artifact

/-! ## How a layout starts -/

/-- A body starts with something that is shown as it stands and is no part of a record, whatever
follows it. -/
def Template.Document.OpensPlainly (d : Document) : Prop :=
  ∃ f ∈ (Fragment.ofText d.body).head?, f.isSlot = false ∧ Artifact.usedLayout? f = none ∧
    (f.kind = .text → ¬ f.raw <+: instructionOpen ∧ ¬ instructionOpen <+: f.raw)

theorem Artifact.startsPlainly_append {f : Fragment} (hf : f.kind = .text ∨ f.IsFound)
    (huses : usedLayout? f = none)
    (htext : f.kind = .text → ¬ f.raw <+: instructionOpen ∧ ¬ instructionOpen <+: f.raw)
    (rest : Text) : StartsPlainly (f.raw ++ rest) := by
  have hother : ∀ {c : Char} {t : Text}, c ≠ '<' → f.raw = c :: t →
      StartsPlainly (f.raw ++ rest) := by
    intro c t hc hraw
    refine startsPlainly_of_not_prefix fun hopen => hc ?_
    rw [hraw, List.cons_append, instructionOpen, List.cons_prefix_cons] at hopen
    exact hopen.1.symm
  rcases hf with hkind | hfound
  · obtain ⟨hshort, hlong⟩ := htext hkind
    refine startsPlainly_of_not_prefix fun hopen => ?_
    rcases List.prefix_or_prefix_of_prefix hopen (List.prefix_append _ _) with hle | hle
    · exact hlong hle
    · exact hshort hle
  · cases hfound with
    | @instruction c body hc hends =>
        -- An instruction ends at its own mark, so it is found again in front of any text.
        have hagain :
            Fragment.recognise? (instructionOpen ++ (c :: body) ++ instructionClose ++ rest) =
              some (⟨.instruction (c :: body), _⟩, rest) :=
          Fragment.instruction?_eq_some_iff.2 ⟨c, body, hc, hends, rfl, rfl⟩
        intro g hg
        rw [Fragment.ofText_of_recognise? hagain] at hg
        cases hg
        exact huses
    | comment => exact hother (by decide) rfl
    | echo => exact hother (by decide) rfl
    | call hcall =>
        cases hcall with
        | closed => exact hother (by decide) rfl
        | bare => exact hother (by decide) rfl

theorem Template.Document.OpensPlainly.startsPlainly {documents : List Document} {last : Document}
    (hlast : last ∈ documents.getLast?) (h : last.OpensPlainly) :
    Artifact.StartsPlainly (composeAll documents) := by
  cases documents with
  | nil => cases hlast
  | cons page layouts =>
      have hbody : (layouts.getLast?.getD page) = last := by
        rw [List.getLast?_cons] at hlast
        exact Option.some.inj hlast
      obtain ⟨f, hf, hslot, huses, htext⟩ := h
      obtain ⟨fragments, hfragments⟩ := List.head?_eq_some_iff.1 hf
      have hmem : f ∈ Fragment.ofText last.body := hfragments ▸ List.mem_cons_self
      rw [composeAll, hbody, fillSlots, hfragments, List.flatMap_cons,
        Fragment.filled_of_not_isSlot hslot]
      exact Artifact.startsPlainly_append (Fragment.isFound_of_mem hmem) huses htext _

/-! ## The record of a build -/

def Config.Reads (c : Config) (files : FileSystem) (name : Text) (d : Document) : Prop :=
  ∃ source, files.readText (c.sourceFile name) = .ok source ∧ d = .ofSource source

theorem Reading.reads_of_at? {c : Config} {files : FileSystem} {name : Text} {r : Reading}
    (h : at? c files name = some r) : c.Reads files r.name r.document := by
  obtain ⟨rfl, e, he, -, -, source, hsource, hdocument⟩ := of_at? h
  exact ⟨source, FileSystem.readText_eq_ok_iff.2 ⟨e, he, hsource⟩, hdocument⟩

theorem Reading.IsChain.isTrail {c : Config} {files : FileSystem} {page : Text}
    {earlier : List Text} {first : Reading} {readings : List Reading}
    (h : IsChain c files earlier first readings)
    (htrail : c.IsTrail files page (earlier ++ [first.name]))
    (hfirst : at? c files first.name = some first) :
    c.IsTrail files page (earlier ++ readings.map name) ∧
      (∀ last ∈ (readings.map name).getLast?, c.IsRoot files last) ∧
      ∀ r ∈ readings, c.Reads files r.name r.document := by
  induction h with
  | @root earlier first hlayout =>
      refine ⟨htrail, ?_, ?_⟩
      · intro last hlast
        cases hlast
        exact Config.names_iff.2 ⟨first, hfirst, rfl, hlayout⟩
      · intro r hr
        cases List.mem_singleton.1 hr
        exact reads_of_at? hfirst
  | @layout earlier first next layout readings hlayout hnew hvalid hnext hrest ih =>
      obtain rfl : next.name = layout := (of_at? hnext).1
      have hextends := Config.names_iff.2 ⟨first, hfirst, rfl, hlayout⟩
      obtain ⟨htrail, hroot, hreads⟩ := ih (htrail.concat hextends hnew hvalid) hnext
      refine ⟨?_, ?_, ?_⟩
      · rwa [List.append_assoc] at htrail
      · rw [hrest.eq_cons] at hroot ⊢
        exact hroot
      · exact List.forall_mem_cons.2 ⟨reads_of_at? hfirst, hreads⟩

/-- The layouts that are read from an artifact are those that its chain leads through, and behind
them any that the text after the record starts with. -/
structure Build.RecordsLayouts (c : Config) (files : FileSystem) (name : Text) (build : Build)
    (layouts : List Text) (documents : List Document) : Prop where
  trail : c.IsTrail files name (name :: layouts)
  root : ∀ last ∈ (name :: layouts).getLast?, c.IsRoot files last
  reads : List.Forall₂ (c.Reads files) (name :: layouts) documents
  text : build.text = Artifact.header layouts ++ composeAll documents
  recorded : Artifact.dependencies build.text =
    layouts ++ Artifact.dependencies (composeAll documents)
  exact_iff : Artifact.dependencies build.text = layouts ↔
    Artifact.StartsPlainly (composeAll documents)
  plain : ∀ last ∈ documents.getLast?, last.OpensPlainly →
    Artifact.dependencies build.text = layouts

theorem Build.ofFiles_recordsLayouts {c : Config} {files : FileSystem} {name : Text} {build : Build}
    (hname : isTemplateName name = true) (hbuild : ofFiles c files name = .ok build) :
    ∃ layouts documents, build.RecordsLayouts c files name layouts documents := by
  obtain ⟨first, readings, hfirst, hchain, -, -, rfl⟩ := exists_chain hname hbuild
  obtain rfl : first.name = name := (Reading.of_at? hfirst).1
  have hnames : readings.map Reading.name = first.name :: readings.tail.map Reading.name := by
    conv_lhs => rw [hchain.eq_cons]
    rfl
  obtain ⟨htrail, hroot, hreads⟩ := hchain.isTrail (.single hname) hfirst
  rw [List.nil_append, hnames] at htrail
  have hempty : [] ∉ readings.tail.map Reading.name := by
    intro hmem
    have hvalid := htrail.valid [] (List.mem_cons_of_mem _ hmem)
    cases hvalid
  have hrecorded : Artifact.dependencies (ofChain readings).text =
      readings.tail.map Reading.name ++
        Artifact.dependencies (composeAll (readings.map Reading.document)) :=
    Artifact.dependencies_header_append _ hempty _
  have hexact : Artifact.dependencies (ofChain readings).text = readings.tail.map Reading.name ↔
      Artifact.StartsPlainly (composeAll (readings.map Reading.document)) := by
    rw [hrecorded, List.append_right_eq_self, Artifact.dependencies_eq_nil_iff]
  refine ⟨readings.tail.map Reading.name, readings.map Reading.document, ?_⟩
  constructor
  · exact htrail
  · rwa [hnames] at hroot
  · rw [← hnames, List.forall₂_map_left_iff, List.forall₂_map_right_iff, List.forall₂_same]
    exact hreads
  · rfl
  · exact hrecorded
  · exact hexact
  · exact fun last hlast hopens => hexact.2 (hopens.startsPlainly hlast)

theorem Layered.opensPlainly : (Document.ofSource base).OpensPlainly := by
  have hfirst : (Fragment.ofText (Document.ofSource base).body).head? =
      some ⟨.text, ['<', 't', '>']⟩ := by
    decide +kernel
  exact ⟨_, hfirst, by decide, by decide, by decide⟩

theorem Build.ofFiles_recordsLayouts_layered :
    (Document.ofSource Layered.base).OpensPlainly ∧
      Artifact.dependencies Layered.build.text = [['a'], ['b']] ∧
      ∃ layouts documents, Layered.build.RecordsLayouts Siblings.config Layered.files ['p']
        layouts documents :=
  ⟨Layered.opensPlainly, by decide +kernel,
    Build.ofFiles_recordsLayouts (by decide) Layered.ofFiles_top⟩

/-! ## A record written by hand -/

namespace Handwritten

def page : Text := "<?elle uses 'x' ?>".toList

def files : FileSystem := Siblings.filesOf [(['p'], page)]

theorem ofFiles_eq_source :
    (Build.ofFiles Siblings.config files ['p']).toOption = some ⟨page, some 5⟩ ∧
      (files.readText (Siblings.config.sourceFile ['p'])).toOption = some page ∧
      (Document.ofSource page).layout = none := by
  decide +kernel

end Handwritten

theorem Build.ofFiles_records_more :
    Siblings.config.IsTrail Handwritten.files ['p'] [['p']] ∧
      Siblings.config.IsRoot Handwritten.files ['p'] ∧
      ∃ build, ofFiles Siblings.config Handwritten.files ['p'] = .ok build ∧
        Artifact.dependencies build.text = [['x']] := by
  obtain ⟨hbuild, hread, hlayout⟩ := Handwritten.ofFiles_eq_source
  refine ⟨.single (by decide), ⟨_, Siblings.eq_ok_of_toOption hread, hlayout⟩, _,
    Siblings.eq_ok_of_toOption hbuild, ?_⟩
  decide +kernel

end Stencil
