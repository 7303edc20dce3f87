import Stencil.Proofs.Cache.Recorded
import Stencil.Proofs.Cache.Reuse
import Stencil.Proofs.Storage.Changes

/-!
# No edit, no build

What a get shows is fresh afterwards, and stays fresh for as long as neither the
artifact nor a source that it depends on is changed.  The time that a new
artifact carries is the latest among the documents of its chain, so none of them
is after it, and the record in front of the artifact names just those documents.
-/

namespace Stencil

open Stencil.Template

/-! ## The time of a build -/

structure Config.IsNewest (c : Config) (files : FileSystem) (names : List Text) (time : Int) :
    Prop where
  bound : ∀ name ∈ names, notAfter files (c.sourceFile name) time = true
  reached : ∃ name ∈ names, files.modified? (c.sourceFile name) = some time

namespace Build

theorem le_later {a b : Option Int} {time : Int} (h : a = some time ∨ b = some time) :
    ∃ latest, later a b = some latest ∧ time ≤ latest := by
  rcases h with rfl | rfl
  · cases b with
    | none => exact ⟨time, rfl, Int.le_refl _⟩
    | some b => exact ⟨max time b, rfl, Int.le_max_left ..⟩
  · cases a with
    | none => exact ⟨time, rfl, Int.le_refl _⟩
    | some a => exact ⟨max a time, rfl, Int.le_max_right ..⟩

theorem latest_concat (readings : List Reading) (last : Reading) :
    latest (readings ++ [last]) = later (latest readings) last.modified := by
  simp [latest]

theorem le_latest {readings : List Reading} {r : Reading} (hr : r ∈ readings) {time : Int}
    (htime : r.modified = some time) : ∃ bound, latest readings = some bound ∧ time ≤ bound := by
  induction readings using List.reverseRecOn with
  | nil => cases hr
  | append_singleton readings last ih =>
      rw [latest_concat]
      rcases List.mem_append.1 hr with hr | hr
      · obtain ⟨bound, hbound, hle⟩ := ih hr
        obtain ⟨latest, hlatest, hle'⟩ := le_later (b := last.modified) (Or.inl hbound)
        exact ⟨latest, hlatest, hle.trans hle'⟩
      · obtain rfl := List.mem_singleton.1 hr
        exact le_later (Or.inr htime)

theorem isNewest_latest {c : Config} {files : FileSystem} {page : Reading} {layouts : List Reading}
    (hread : ∀ r ∈ page :: layouts, Reading.at? c files r.name = some r) :
    ∃ time, latest (page :: layouts) = some time ∧
      c.IsNewest files ((page :: layouts).map Reading.name) time := by
  have hmodified : ∀ r ∈ page :: layouts, ∃ e, files.find? (c.sourceFile r.name) = some e ∧
      r.modified = some e.modified := by
    intro r hr
    obtain ⟨-, e, he, -, hm, -⟩ := Reading.of_at? (hread r hr)
    exact ⟨e, he, hm⟩
  obtain ⟨newest, hnewest, hlatest⟩ := exists_modified_eq_latest page layouts
  obtain ⟨e, he, hm⟩ := hmodified newest hnewest
  refine ⟨e.modified, hlatest.trans hm, ?_, ?_⟩
  · intro name hname
    obtain ⟨r, hr, rfl⟩ := List.mem_map.1 hname
    obtain ⟨e', he', hm'⟩ := hmodified r hr
    obtain ⟨bound, hbound, hle⟩ := le_latest hr hm'
    rw [hlatest, hm] at hbound
    cases hbound
    exact notAfter_iff.2 ⟨e', he', hle⟩
  · exact ⟨newest.name, List.mem_map_of_mem hnewest, by simp [FileSystem.modified?, he]⟩

end Build

def Config.ComposesPlainly (c : Config) (files : FileSystem) (name : Text) : Prop :=
  ∀ readings ∈ (Reading.chain c (fun _ => files) files.entries.length name).toOption,
    Artifact.StartsPlainly (composeAll (readings.map Reading.document))

/-- The artifact of a template carries the time of the newest source of its trail, and records the
layouts of the trail. -/
structure Config.IsStamped (c : Config) (files : FileSystem) (name text : Text) (time : Int) :
    Prop where
  trail : c.IsTrail files name (name :: Artifact.dependencies text)
  root : ∀ last ∈ (name :: Artifact.dependencies text).getLast?, c.IsRoot files last
  newest : c.IsNewest files (name :: Artifact.dependencies text) time

theorem Build.isStamped {c : Config} {files : FileSystem} {name : Text} {build : Build}
    (hname : isTemplateName name = true) (hbuild : ofFiles c files name = .ok build)
    (hplain : c.ComposesPlainly files name) :
    ∃ time, build.stamp = some time ∧ c.IsStamped files name build.text time := by
  obtain ⟨first, readings, hfirst, hchain, hfound, -, rfl⟩ := exists_chain hname hbuild
  obtain rfl : first.name = name := (Reading.of_at? hfirst).1
  have hread : ∀ r ∈ first :: readings.tail, Reading.at? c files r.name = some r :=
    List.forall_mem_cons.2 ⟨hfirst, fun r hr => (hchain.of_mem_tail hr).2⟩
  obtain ⟨htrail, hroot, -⟩ := hchain.isTrail (.single hname) hfirst
  obtain ⟨time, htime, hnewest⟩ := isNewest_latest hread
  rw [← hchain.eq_cons] at htime hnewest
  have hnames : readings.map Reading.name = first.name :: readings.tail.map Reading.name := by
    conv_lhs => rw [hchain.eq_cons]
    rfl
  -- the record of layouts is read back from the text as it was written
  have hrecorded : Artifact.dependencies (ofChain readings).text =
      readings.tail.map Reading.name := by
    have hempty : [] ∉ readings.tail.map Reading.name := by
      intro hmem
      obtain ⟨r, hr, hnil⟩ := List.mem_map.1 hmem
      exact ne_nil_of_isTemplateName (hchain.of_mem_tail hr).1 hnil
    have hstart := hplain readings (by rw [hfound]; rfl)
    rw [ofChain, Artifact.dependencies_header_append _ hempty,
      Artifact.dependencies_eq_nil_iff.2 hstart, List.append_nil]
  refine ⟨time, htime, ?_⟩
  rw [← hrecorded] at hnames
  rw [List.nil_append, hnames] at htrail
  rw [hnames] at hroot hnewest
  exact ⟨htrail, hroot, hnewest⟩

/-! ## What is kept is fresh -/

namespace Cache

variable {c : Cache} {name text : Text} {build : Build}

theorem isDirectoryAt_keep {place : Place} (h : c.files.isDirectoryAt place = true) :
    (c.keep name build).2.files.isDirectoryAt place = true := by
  have hmade := FileSystem.isDirectoryAt_makeDirectories c.config.cacheRoot h
  unfold keep
  dsimp only
  split
  · exact hmade
  · next hw =>
    rw [files_report]
    exact FileSystem.isDirectoryAt_of_write? hw hmade

theorem find?_artifact_keep (h : (c.keep name build).1 = .ok ()) {time : Int}
    (htime : build.stamp = some time) :
    (c.keep name build).2.files.find? (c.config.artifactPath name) =
      some (.file (Text.bytes build.text).toByteArray time) := by
  unfold keep at h ⊢
  dsimp only at h ⊢
  split at h
  · cases h
  · next hw =>
    rw [files_report, FileSystem.find?_of_write? hw, htime]
    rfl

theorem find?_keep (name : Text) {p : Path} {e : Entry} (h : c.files.find? p = some e) {time : Int}
    (htime : build.stamp = some time) :
    (c.keep name build).2.files.find? p = some e ∨
      (c.keep name build).2.files.find? p =
        some (.file (Text.bytes build.text).toByteArray time) := by
  have hat := FileSystem.at?_of_find? h
  rw [FileSystem.find?_of_keepsDirectories (current_keep c name build)
    (fun _ _ hdirectory => isDirectoryAt_keep hdirectory) h]
  rcases at?_keep c name build (c.files.target p) with hsame | ⟨-, hnone, -⟩ | ⟨-, hartifact⟩
  · exact Or.inl (hsame.trans hat)
  · rw [hat] at hnone
    cases hnone
  · rw [htime] at hartifact
    exact Or.inr hartifact

theorem notAfter_keep {p : Path} {time : Int} (htime : build.stamp = some time)
    (h : notAfter c.files p time = true) :
    notAfter (c.keep name build).2.files p time = true := by
  obtain ⟨e, he, hle⟩ := notAfter_iff.1 h
  rcases find?_keep name he htime with hfind | hfind
  · exact notAfter_iff.2 ⟨e, hfind, hle⟩
  · exact notAfter_iff.2 ⟨_, hfind, Int.le_refl _⟩

theorem isFile_keep {p : Path} {time : Int} (htime : build.stamp = some time)
    (h : c.files.isFile p = true) : (c.keep name build).2.files.isFile p = true := by
  obtain ⟨e, he, hfile⟩ := (Option.any_eq_true ..).1 h
  rcases find?_keep name he htime with hfind | hfind
  · rw [FileSystem.isFile, hfind, Option.any_some, hfile]
  · rw [FileSystem.isFile, hfind]
    rfl

structure ShowsFresh (c : Cache) (name text : Text) : Prop where
  contains : c.contains name = true
  fresh : c.config.freshText? c.files (c.config.sourceFile name) (c.config.artifactPath name) =
    some text

theorem showsFresh_keep (hcontains : c.contains name = true)
    (hkept : (c.keep name build).1 = .ok ()) {time : Int} (htime : build.stamp = some time)
    (hstamped : c.config.IsStamped c.files name build.text time) :
    (c.keep name build).2.ShowsFresh name build.text := by
  obtain ⟨hname, hfile⟩ := contains_iff.1 hcontains
  obtain ⟨hsource, hlayouts⟩ := List.forall_mem_cons.1 hstamped.newest.bound
  have hvalid := (List.forall_mem_cons.1 hstamped.trail.valid).2
  constructor
  · rw [contains_iff, config_keep]
    exact ⟨hname, isFile_keep htime hfile⟩
  · rw [config_keep, Config.freshText?_eq_some_iff]
    exact ⟨_, find?_artifact_keep hkept htime, Text.ofBytes?_bytes _, notAfter_keep htime hsource,
      fun layout hlayout =>
        ⟨hvalid layout hlayout, notAfter_keep htime (hlayouts layout hlayout)⟩⟩

theorem showsFresh_of_get (h : (c.get name).1 = .ok text)
    (hplain : (c.get name).2.builds ≠ c.builds → c.config.ComposesPlainly c.files name) :
    (c.get name).2.ShowsFresh name text ∧ (c.get name).2.config = c.config ∧
      ((c.get name).2.builds ≠ c.builds → ∃ time,
        (c.get name).2.files.modified? (c.config.artifactPath name) = some time ∧
          c.config.IsStamped c.files name text time) := by
  have hcontains := contains_of_get h
  rcases get_eq_ok_cases h with ⟨hget, hfresh⟩ | ⟨build, hbuild, rfl, hkept, hget⟩
  · rw [hget]
    exact ⟨⟨hcontains, hfresh⟩, rfl, fun hbuilds => absurd rfl hbuilds⟩
  · rw [hget] at hplain ⊢
    dsimp only at hplain ⊢
    have hplain' := hplain (by simp [builds_keep hkept])
    obtain ⟨time, htime, hstamped⟩ :=
      Build.isStamped (contains_iff.1 hcontains).1 hbuild hplain'
    refine ⟨showsFresh_keep hcontains hkept htime hstamped, config_keep .., fun _ => ?_⟩
    refine ⟨time, ?_, hstamped⟩
    simp [FileSystem.modified?, find?_artifact_keep hkept htime, Entry.file]

/-! ## What is fresh stays fresh -/

/-- The files that an artifact is fresh by. -/
def inUse (c : Cache) (name text : Text) : List Path :=
  c.config.artifactPath name :: (name :: Artifact.dependencies text).map c.config.sourceFile

theorem notAfter_of_reflTransGen {kept : List Path} {before after : FileSystem}
    (h : Relation.ReflTransGen (FileSystem.Spares kept) before after) {p : Path} (hp : p ∈ kept)
    (hfile : before.isFile p = true) {time : Int} (hnot : notAfter before p time = true) :
    notAfter after p time = true := by
  obtain ⟨e, he, hle⟩ := notAfter_iff.1 hnot
  rw [FileSystem.isFile, he, Option.any_some] at hfile
  exact notAfter_iff.2 ⟨e, FileSystem.find?_of_reflTransGen h hp he hfile, hle⟩

theorem ShowsFresh.later (h : c.ShowsFresh name text)
    (hlayouts : ∀ layout ∈ Artifact.dependencies text,
      c.files.isFile (c.config.sourceFile layout) = true)
    {later : Cache} (hconfig : later.config = c.config)
    (hchanges : Relation.ReflTransGen (FileSystem.Spares (c.inUse name text)) c.files later.files) :
    later.ShowsFresh name text := by
  obtain ⟨hname, hfile⟩ := contains_iff.1 h.contains
  obtain ⟨e, hartifact, htext, hsource, hrecorded⟩ := Config.freshText?_eq_some_iff.1 h.fresh
  have hpage : c.config.sourceFile name ∈ c.inUse name text :=
    List.mem_cons_of_mem _ List.mem_cons_self
  have hused : ∀ layout ∈ Artifact.dependencies text,
      c.config.sourceFile layout ∈ c.inUse name text := fun layout hlayout =>
    List.mem_cons_of_mem _ (List.mem_map_of_mem (List.mem_cons_of_mem _ hlayout))
  constructor
  · obtain ⟨page, hfound, hregular⟩ := (Option.any_eq_true ..).1 hfile
    rw [contains_iff, hconfig, FileSystem.isFile,
      FileSystem.find?_of_reflTransGen hchanges hpage hfound hregular]
    exact ⟨hname, hregular⟩
  · have hregular : e.isFile = true := by
      obtain ⟨bytes, hbytes, -⟩ := Option.bind_eq_some_iff.1 htext
      rw [Entry.isFile, hbytes]
      rfl
    rw [hconfig, Config.freshText?_eq_some_iff]
    refine ⟨e, FileSystem.find?_of_reflTransGen hchanges List.mem_cons_self hartifact hregular,
      htext, notAfter_of_reflTransGen hchanges hpage hfile hsource, fun layout hlayout => ?_⟩
    obtain ⟨hvalid, hnot⟩ := hrecorded layout hlayout
    exact ⟨hvalid, notAfter_of_reflTransGen hchanges (hused layout hlayout)
      (hlayouts layout hlayout) hnot⟩

/-- What a get leaves behind: a fresh artifact, with the time of its newest source if it was built
by the get, which every later get shows at once as long as other files are changed at most. -/
structure Stays (c : Cache) (name text : Text) : Prop where
  fresh : (c.get name).2.isFresh name = true
  stamped : (c.get name).2.builds ≠ c.builds → ∃ time,
    (c.get name).2.files.modified? (c.config.artifactPath name) = some time ∧
      c.config.IsStamped c.files name text time
  shown : ∀ later : Cache, later.config = c.config →
    Relation.ReflTransGen (FileSystem.Spares (c.inUse name text)) (c.get name).2.files later.files →
    later.get name = (.ok text, later)

theorem stays (h : (c.get name).1 = .ok text)
    (hplain : (c.get name).2.builds ≠ c.builds → c.config.ComposesPlainly c.files name)
    (hlayouts : ∀ layout ∈ Artifact.dependencies text,
      (c.get name).2.files.isFile (c.config.sourceFile layout) = true) :
    c.Stays name text := by
  obtain ⟨hshown, hconfig, hstamped⟩ := showsFresh_of_get h hplain
  rw [← hconfig] at hlayouts
  constructor
  · exact isFresh_iff.2 ⟨(contains_iff.1 hshown.contains).1, text, hshown.fresh⟩
  · exact hstamped
  · intro later hlater hchanges
    rw [← hconfig] at hlater
    have hinUse : (c.get name).2.inUse name text = c.inUse name text := by
      simp only [inUse, hconfig]
    have hlast := hshown.later hlayouts hlater (by rwa [hinUse])
    exact get_of_freshText? hlast.contains hlast.fresh

end Cache

/-! ## Edits beside a page -/

namespace Beside

def layout : Text := ['x']

def page : Text := "@extends('l')".toList

def shown : Text := Artifact.header [['l']] ++ layout

def cache : Cache := .new Siblings.config (Siblings.filesOf [(['l'], layout), (['p'], page)])

@[irreducible]
def compiled : Cache := (cache.get ['p']).2

def note : Path := Siblings.config.sourceFile ['n']

def saved : FileSystem := compiled.files.save note (Text.bytes ['x']).toByteArray (some 9)

@[irreducible]
def touched : FileSystem := saved.touch note 12

def removed : FileSystem := (touched.removeFile? note).getD .empty

def later : Cache := .new Siblings.config removed

-- evaluated together, since all of it follows from the same get
theorem shown_and_spared :
    ((cache.get ['p']).1.toOption = some shown ∧ compiled.builds = 1 ∧
      (∀ readings ∈ (Reading.chain cache.config (fun _ => cache.files) cache.files.entries.length
        ['p']).toOption, ∀ f ∈ (Fragment.ofText (composeAll (readings.map Reading.document))).head?,
          Artifact.usedLayout? f = none) ∧
      ∀ other ∈ Artifact.dependencies shown,
        compiled.files.isFile (cache.config.sourceFile other) = true) ∧
    (touched.removeFile? note).isSome = true ∧
      ∀ q ∈ cache.inUse ['p'] shown, compiled.files.target q ≠ compiled.files.target note ∧
        saved.target q ≠ saved.target note ∧ touched.target q ≠ touched.target note := by
  decide +kernel

theorem spared : Relation.ReflTransGen (FileSystem.Spares (cache.inUse ['p'] shown))
    compiled.files later.files := by
  obtain ⟨-, hsome, hother⟩ := shown_and_spared
  have hsaved : FileSystem.Spares (cache.inUse ['p'] shown) compiled.files saved :=
    FileSystem.spares_save _ _ _ fun q hq => (hother q hq).1
  have htouched : FileSystem.Spares (cache.inUse ['p'] shown) saved touched := by
    unfold touched
    exact FileSystem.spares_touch _ _ fun q hq => (hother q hq).2.1
  have hremoved : FileSystem.Spares (cache.inUse ['p'] shown) touched removed := by
    obtain ⟨after, hafter⟩ := Option.isSome_iff_exists.1 hsome
    rw [removed, hafter]
    exact FileSystem.spares_removeFile? hafter fun q hq => (hother q hq).2.2
  exact .tail (.tail (.single hsaved) htouched) hremoved

end Beside

theorem Cache.stays_beside :
    Beside.compiled.builds = 1 ∧ Beside.cache.Stays ['p'] Beside.shown ∧
      Beside.later.get ['p'] = (.ok Beside.shown, Beside.later) := by
  obtain ⟨⟨hget, hbuilds, hplain, hlayouts⟩, -⟩ := Beside.shown_and_spared
  have hspared := Beside.spared
  unfold Beside.compiled at hlayouts hspared
  have hstays := Cache.stays (Siblings.eq_ok_of_toOption hget) (fun _ => hplain) hlayouts
  exact ⟨hbuilds, hstays, hstays.shown Beside.later rfl hspared⟩

end Stencil
