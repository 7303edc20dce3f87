import Stencil.Proofs.Cache.Chain
import Stencil.Proofs.Template.Inheriting

/-!
# Building a template that only inherits

A template that does nothing but name its layout is built whenever the layout
is.  Its text is that of the layout's chain with the sections of the layout
filled from none, since the sections of a layout are filled from those of the
documents below it.
-/

namespace Stencil

open Stencil.Template

theorem Reading.IsChain.inheriting {c : Config} {files : FileSystem} {name child : Text}
    {layout page : Reading} {readings : List Reading} (hname : isTemplateName name = true)
    (hlayout : at? c files name = some layout) (hchain : IsChain c files [] layout readings)
    (hnew : child ∉ readings.map Reading.name) (hpage : at? c files child = some page)
    (hdocument : page.document.layout = some name) :
    IsChain c files [] page (page :: readings) := by
  have hfirst : name ∈ readings.map Reading.name := by
    rw [hchain.eq_cons, List.map_cons, (of_at? hlayout).1]
    exact List.mem_cons_self
  have hapart : ∀ r ∈ readings.tail, r.name ∉ [page.name] := by
    intro r hr
    rw [List.mem_singleton, (of_at? hpage).1]
    rintro rfl
    exact hnew (List.mem_map_of_mem (List.mem_of_mem_tail hr))
  have hrest : IsChain c files ([] ++ [page.name]) layout readings := hchain.behind hapart
  refine .layout hdocument ?_ hname hlayout hrest
  rw [(of_at? hpage).1, List.nil_append, List.mem_singleton]
  rintro rfl
  exact hnew hfirst

/-- A template that only inherits is built if its layout is.  Apart from the record of
layouts its text is that of the layout with the layout's sections filled from none, which
is the same if they hold no slots for one another. -/
theorem Build.ofFiles_inheriting {c : Config} {files : FileSystem} {name child : Text}
    {build : Build} (hname : isTemplateName name = true) (hchild : isTemplateName child = true)
    (hbuild : ofFiles c files name = .ok build)
    (hnew : ∀ readings,
      Reading.chain c (fun _ => files) files.entries.length name = .ok readings →
      child ∉ readings.map Reading.name)
    (hsource : files.readText (c.sourceFile child) = .ok (inheriting name)) :
    ∃ layout layouts built,
      Reading.chain c (fun _ => files) files.entries.length name = .ok (layout :: layouts) ∧
      build.text = Artifact.header (layouts.map Reading.name) ++
        composeAll ((layout :: layouts).map Reading.document) ∧
      ofFiles c files child = .ok built ∧
      built.text = Artifact.header (name :: layouts.map Reading.name) ++
        composeBelow ((layout :: layouts).map Reading.document) ∧
      (layout.document.IsFlat → built.text = Artifact.header (name :: layouts.map Reading.name) ++
        composeAll ((layout :: layouts).map Reading.document)) := by
  obtain ⟨layout, readings, hlayout, hchain, rfl⟩ := (ofFiles_eq_ok_iff hname).1 hbuild
  obtain ⟨layouts, rfl⟩ : ∃ layouts, readings = layout :: layouts := ⟨_, hchain.eq_cons⟩
  have hlength := hchain.length_le hname hlayout
  have hfound := Reading.chain_eq_ok_iff.2 ⟨layout, hlayout, hchain, Nat.le_succ_of_le hlength⟩
  obtain ⟨e, hfind, hbytes⟩ := FileSystem.readText_eq_ok_iff.1 hsource
  have hpage := Reading.at?_of_find? hfind hbytes
  rw [Document.ofSource_inheriting (ne_nil_of_isTemplateName hname)] at hpage
  have hextended := hchain.inheriting hname hlayout (hnew _ hfound) hpage rfl
  have hcompose := composeAll_cons_of_sections_eq_nil
    (show (⟨some name, [], []⟩ : Document).sections = [] from rfl)
    layout.document (layouts.map Reading.document)
  have htext : (ofChain (⟨child, ⟨some name, [], []⟩, some e.modified⟩ :: layout :: layouts)).text =
      Artifact.header (name :: layouts.map Reading.name) ++
        composeBelow ((layout :: layouts).map Reading.document) := by
    simp only [ofChain, List.tail_cons, List.map_cons, (Reading.of_at? hlayout).1, hcompose]
  refine ⟨layout, layouts, _, hfound, rfl, (ofFiles_eq_ok_iff hchild).2
    ⟨_, _, hpage, hextended, rfl⟩, htext, fun hflat => ?_⟩
  rw [htext, List.map_cons, composeBelow_eq_composeAll hflat]

/-! ## Sections with slots for one another -/

namespace Siblings

def config : Config := ⟨⟨['v']⟩, ⟨['c']⟩, ['t'], ['a'], false⟩

def layout : Text := ['l']

def page : Text := ['p']

def source : Text :=
  "@section('a')x@yield('b')@endsection@section('b')B@endsection@yield('a')".toList

def files : FileSystem :=
  ((FileSystem.empty.put ['v'] [] (.directory 0)).put ['l', '.', 't'] [['v']]
    (.file (Text.bytes source).toByteArray 5)).put ['p', '.', 't'] [['v']]
    (.file (Text.bytes (inheriting layout)).toByteArray 5)

theorem eq_ok_of_toOption {ε α : Type} {x : Except ε α} {a : α} (h : x.toOption = some a) :
    x = .ok a := by
  cases x with
  | error e => cases h
  | ok b => exact congrArg Except.ok (Option.some.inj h)

-- evaluated together, since all of it reads the same layout
theorem builds_and_chain :
    (Build.ofFiles config files layout).toOption = some ⟨['x', 'B'], some 5⟩ ∧
      (Build.ofFiles config files page).toOption =
        some ⟨Artifact.header [layout] ++ ['x'], some 5⟩ ∧
      (Reading.chain config (fun _ => files) files.entries.length layout).toOption.map
        (List.map Reading.name) = some [layout] ∧
      (files.readText (config.sourceFile page)).toOption = some (inheriting layout) := by
  decide +kernel

theorem ofFiles_layout : Build.ofFiles config files layout = .ok ⟨['x', 'B'], some 5⟩ :=
  eq_ok_of_toOption builds_and_chain.1

theorem ofFiles_page : Build.ofFiles config files page =
    .ok ⟨Artifact.header [layout] ++ ['x'], some 5⟩ :=
  eq_ok_of_toOption builds_and_chain.2.1

theorem readText_page : files.readText (config.sourceFile page) = .ok (inheriting layout) :=
  eq_ok_of_toOption builds_and_chain.2.2.2

theorem map_name_chain {readings : List Reading}
    (h : Reading.chain config (fun _ => files) files.entries.length layout = .ok readings) :
    readings.map Reading.name = [layout] := by
  have hnames := builds_and_chain.2.2.1
  rw [h] at hnames
  exact Option.some.inj hnames

end Siblings

theorem Build.ofFiles_inheriting_siblings :
    ∃ layout layouts built,
      Reading.chain Siblings.config (fun _ => Siblings.files) Siblings.files.entries.length
        Siblings.layout = .ok (layout :: layouts) ∧
      ['x', 'B'] = Artifact.header (layouts.map Reading.name) ++
        composeAll ((layout :: layouts).map Reading.document) ∧
      ofFiles Siblings.config Siblings.files Siblings.page = .ok built ∧
      built.text = Artifact.header (Siblings.layout :: layouts.map Reading.name) ++
        composeBelow ((layout :: layouts).map Reading.document) ∧
      (layout.document.IsFlat →
        built.text = Artifact.header (Siblings.layout :: layouts.map Reading.name) ++
          composeAll ((layout :: layouts).map Reading.document)) :=
  Build.ofFiles_inheriting (by decide) (by decide) Siblings.ofFiles_layout
    (fun _ h => by rw [Siblings.map_name_chain h]; decide) Siblings.readText_page

theorem Build.not_ofFiles_inheriting_same :
    ¬ ∀ (c : Config) (files : FileSystem) (name child : Text) (build : Build)
      (readings : List Reading), isTemplateName name = true → isTemplateName child = true →
      ofFiles c files name = .ok build →
      Reading.chain c (fun _ => files) files.entries.length name = .ok readings →
      child ∉ readings.map Reading.name →
      files.readText (c.sourceFile child) = .ok (inheriting name) →
      ∃ built body, ofFiles c files child = .ok built ∧
        build.text = Artifact.header (readings.tail.map Reading.name) ++ body ∧
        built.text = Artifact.header (readings.map Reading.name) ++ body := by
  intro h
  obtain ⟨readings, hread, hnames⟩ := Option.map_eq_some_iff.1 Siblings.builds_and_chain.2.2.1
  have hchain := Siblings.eq_ok_of_toOption hread
  obtain ⟨built, body, hbuilt, hbody, htext⟩ := h _ _ Siblings.layout Siblings.page _ readings
    (by decide) (by decide) Siblings.ofFiles_layout hchain (by rw [hnames]; decide)
    Siblings.readText_page
  rw [Siblings.ofFiles_page] at hbuilt
  cases hbuilt
  rw [List.map_tail, hnames] at hbody
  rw [hnames] at htext
  have hshort := List.append_cancel_left htext
  rw [← hshort] at hbody
  cases hbody

end Stencil
