import Stencil.Proofs.Cache.Inheriting
import Stencil.Proofs.Template.Nearest

/-!
# What an artifact depends on

An artifact shows of the documents of its chain the body of the last one and,
of each section, the definition nearest to the page.  Sources that are written
anew without a change to any of these give the same artifact.
-/

namespace Stencil

open Stencil.Template

/-! ## Rewritten sources -/

def Reading.IsRewritten (c : Config) (files : FileSystem) (r : Reading) (other : Document) : Prop :=
  ∃ source, files.readText (c.sourceFile r.name) = .ok source ∧ Document.ofSource source = other ∧
    other.layout = r.document.layout

theorem Reading.IsRewritten.exists_at? {c : Config} {files : FileSystem} {r : Reading}
    {other : Document} (h : r.IsRewritten c files other) :
    ∃ found, at? c files r.name = some found ∧ found.name = r.name ∧ found.document = other ∧
      found.document.layout = r.document.layout := by
  obtain ⟨source, hread, rfl, hlayout⟩ := h
  exact ⟨⟨r.name, .ofSource source, files.modified? (c.sourceFile r.name)⟩, by simp [at?, hread],
    rfl, rfl, hlayout⟩

theorem Reading.IsChain.rewritten {c : Config} {files files' : FileSystem} {earlier : List Text}
    {last : Reading} {readings : List Reading} (h : IsChain c files earlier last readings)
    {others : List Document}
    (hothers : List.Forall₂ (fun r other => r.IsRewritten c files' other) readings others) :
    ∃ found chain, at? c files' last.name = some found ∧ found.name = last.name ∧
      IsChain c files' earlier found chain ∧ chain.map Reading.name = readings.map Reading.name ∧
      chain.map Reading.document = others := by
  induction h generalizing others with
  | root h =>
      cases hothers with
      | cons hlast hnil =>
          cases hnil
          obtain ⟨found, hfound, hsame, rfl, hlayout⟩ := hlast.exists_at?
          exact ⟨found, [found], hfound, hsame, .root (hlayout.trans h), by simp [hsame], rfl⟩
  | layout h hnew hname hnext hrest ih =>
      cases hothers with
      | cons hlast hothers =>
          obtain ⟨found, hfound, hsame, rfl, hlayout⟩ := hlast.exists_at?
          obtain ⟨next, chain, hfoundNext, -, hchain, hnames, hdocuments⟩ := ih hothers
          rw [(of_at? hnext).1] at hfoundNext
          rw [← hsame] at hchain hnew
          exact ⟨found, found :: chain, hfound, hsame,
            .layout (hlayout.trans h) hnew hname hfoundNext hchain, by simp [hsame, hnames],
            by simp [hdocuments]⟩

/-! ## The artifact of a chain -/

/-- The artifact of a template shows the sections of its chain as defined nearest to the page, and
nothing else of the documents but the body of the last. -/
structure Build.ShowsNearest (c : Config) (files : FileSystem) (name : Text) (build : Build)
    (readings : List Reading) (page : Document) (layouts : List Document) : Prop where
  chain : Reading.chain c (fun _ => files) files.entries.length name = .ok readings
  documents : readings.map Reading.document = page :: layouts
  text : build.text = Artifact.header (readings.tail.map Reading.name) ++
    composeAll (page :: layouts)
  nearest : NearestWins page layouts
  bodies : ∀ k body, k < layouts.length →
    composeAll ((page :: layouts).modify k (·.replaceBody body)) = composeAll (page :: layouts)
  sections : ∀ k section_ content,
    (∃ d ∈ (page :: layouts).take k, d.sections.get? section_ ≠ none) →
    composeAll ((page :: layouts).modify k (·.replaceSection section_ content)) =
      composeAll (page :: layouts)
  sources : ∀ files' others,
    List.Forall₂ (fun r other => r.IsRewritten c files' other) readings others →
    ShowsAlike (page :: layouts) others →
    ∃ built, ofFiles c files' name = .ok built ∧ built.text = build.text

theorem Build.exists_chain {c : Config} {files : FileSystem} {name : Text} {build : Build}
    (hname : isTemplateName name = true) (hbuild : ofFiles c files name = .ok build) :
    ∃ first readings, Reading.at? c files name = some first ∧
      Reading.IsChain c files [] first readings ∧
      Reading.chain c (fun _ => files) files.entries.length name = .ok readings ∧
      readings.map Reading.document = first.document :: readings.tail.map Reading.document ∧
      build = ofChain readings := by
  obtain ⟨first, readings, hfirst, hchain, rfl⟩ := (ofFiles_eq_ok_iff hname).1 hbuild
  have hlength := hchain.length_le hname hfirst
  have hfound := Reading.chain_eq_ok_iff.2 ⟨first, hfirst, hchain, Nat.le_succ_of_le hlength⟩
  have hdocuments : readings.map Reading.document =
      first.document :: readings.tail.map Reading.document := by
    conv_lhs => rw [hchain.eq_cons]
    rfl
  exact ⟨first, readings, hfirst, hchain, hfound, hdocuments, rfl⟩

theorem Build.ofFiles_nearest {c : Config} {files : FileSystem} {name : Text} {build : Build}
    (hname : isTemplateName name = true) (hbuild : ofFiles c files name = .ok build) :
    ∃ readings page layouts, build.ShowsNearest c files name readings page layouts := by
  obtain ⟨first, readings, hfirst, hchain, hfound, hdocuments, rfl⟩ := exists_chain hname hbuild
  refine ⟨readings, first.document, readings.tail.map Reading.document, ?_⟩
  constructor
  · exact hfound
  · exact hdocuments
  · rw [ofChain, hdocuments]
  · exact nearestWins _ _
  · intro k body hk
    exact (showsAlike_replaceBody (Nat.succ_lt_succ hk) body).composeAll_eq
  · intro k section_ content h
    exact (showsAlike_replaceSection h content).composeAll_eq
  · intro files' others hothers halike
    obtain ⟨found, chain, hfound, -, hrewritten, hnames, hsame⟩ := hchain.rewritten hothers
    rw [(Reading.of_at? hfirst).1] at hfound
    refine ⟨ofChain chain, (ofFiles_eq_ok_iff hname).2 ⟨found, chain, hfound, hrewritten, rfl⟩, ?_⟩
    have hheader : chain.tail.map Reading.name = readings.tail.map Reading.name := by
      rw [List.map_tail, List.map_tail, hnames]
    rw [ofChain, ofChain, hheader, hsame, hdocuments, halike.composeAll_eq]

/-! ## A chain of three -/

def Siblings.filesOf (templates : List (Text × Text)) : FileSystem :=
  templates.foldl
    (fun files (name, source) => files.put (name ++ ['.', 't']) [['v']]
      (.file (Text.bytes source).toByteArray 5))
    (FileSystem.empty.put ['v'] [] (.directory 0))

namespace Layered

def base : Text := "<t>@yield('t')</t>@yield('m')".toList

def middle : Text :=
  "@extends('b')@section('t', 'App')@section('m')[@yield('c')]@endsection".toList

def top : Text := "@extends('a')@section('t', 'Page')@section('c')Hi@endsection".toList

def files : FileSystem := Siblings.filesOf [(['b'], base), (['a'], middle), (['p'], top)]

def build : Build := ⟨Artifact.header [['a'], ['b']] ++ "<t>Page</t>[Hi]".toList, some 5⟩

theorem ofFiles_top : Build.ofFiles Siblings.config files ['p'] = .ok build :=
  Siblings.eq_ok_of_toOption (by decide +kernel)

end Layered

theorem Build.ofFiles_nearest_layered :
    Layered.build.text =
        "<?elle uses 'a' ?><?elle uses 'b' ?><t>Page</t>[Hi]".toList ∧
      ∃ readings page layouts, Layered.build.ShowsNearest Siblings.config Layered.files ['p']
        readings page layouts :=
  ⟨by decide, Build.ofFiles_nearest (by decide) Layered.ofFiles_top⟩

end Stencil
