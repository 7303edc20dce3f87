import Stencil.Proofs.Artifact.Uses
import Stencil.Proofs.Cache.Chain
import Stencil.Proofs.Cache.Step

/-!
# Runs of a cache

A run gets templates and clears the cache while others change the sources.  The
invariant ties each artifact to the files that it was built from: whatever came
to a source after that is newer than all that was there.  So a fresh artifact
is what would be built now.
-/

namespace Stencil

/-! ## Changes by others -/

def FileSystem.IsOlder (old : FileSystem) (e : Entry) : Prop :=
  ∀ pair ∈ old.entries, pair.2.modified < e.modified

/-- A place is as it was, or empty, or holds something newer than all that was there. -/
def FileSystem.Overtakes (files old : FileSystem) (place : Place) : Prop :=
  files.at? place = old.at? place ∨ files.at? place = none ∨
    ∃ e, files.at? place = some e ∧ old.IsOlder e

namespace Config

/-- No source lies at, above or below the cache directory. -/
structure IsApart (c : Config) (files : FileSystem) : Prop where
  above : ∀ name, isTemplateName name = true → ∀ place ∈ files.way c.cacheRoot,
    ¬ files.target (c.sourceFile name) <:+ place
  below : ∀ name, isTemplateName name = true →
    ¬ files.target c.cacheRoot <:+ files.target (c.sourceFile name)

/-- Changes outside of the cache directory.  What is new is newer than all that was seen. -/
structure IsEdit (c : Config) (history : List FileSystem) (before after : FileSystem) : Prop where
  current : after.current = before.current
  cache : ∀ place, before.target c.cacheRoot <:+ place → after.at? place = before.at? place
  changes : ∀ place, after.at? place = before.at? place ∨ after.at? place = none ∨
    ∃ e, after.at? place = some e ∧ ∀ old ∈ history, old.IsOlder e

end Config

theorem Config.IsEdit.put {c : Config} {history : List FileSystem} {before : FileSystem}
    {name : Text} {parent : Place} {e : Entry}
    (hplace : ¬ before.target c.cacheRoot <:+ name :: parent)
    (hnewer : ∀ old ∈ history, old.IsOlder e) :
    c.IsEdit history before (before.put name parent e) where
  current := FileSystem.current_put ..
  cache place hbelow := by
    refine FileSystem.at?_put_of_ne e ?_
    rintro rfl
    exact hplace hbelow
  changes place := by
    rcases FileSystem.at?_put_cases before name parent e place with h | ⟨-, h⟩
    · exact Or.inl h
    · exact Or.inr (Or.inr ⟨e, h, hnewer⟩)

theorem Config.IsApart.congr {c : Config} {files files' : FileSystem} (h : c.IsApart files)
    (hcurrent : files'.current = files.current) : c.IsApart files' where
  above name hname place hplace := by
    rw [FileSystem.target_congr hcurrent]
    rw [FileSystem.way_congr hcurrent] at hplace
    exact h.above name hname place hplace
  below name hname := by
    rw [FileSystem.target_congr hcurrent, FileSystem.target_congr hcurrent]
    exact h.below name hname

theorem Cache.at?_keep_source (c : Cache) (hapart : c.config.IsApart c.files)
    (hext : Path.slash ∉ c.config.artifactExtension) (name : Text) (build : Build) {other : Text}
    (hother : isTemplateName other = true) :
    (c.keep name build).2.files.at? (c.files.target (c.config.sourceFile other)) =
      c.files.at? (c.files.target (c.config.sourceFile other)) := by
  rcases at?_keep c name build (c.files.target (c.config.sourceFile other)) with
    hk | ⟨hway, -⟩ | ⟨hp, -⟩
  · exact hk
  · exact absurd (List.suffix_refl _) (hapart.above other hother _ hway)
  · have hbelow := hapart.below other hother
    rw [hp, Config.target_artifactPath hext] at hbelow
    exact absurd (List.suffix_cons ..) hbelow

/-! ## Runs -/

/-- A start without artifacts of the names that are used, which lie apart. -/
structure IsCleanStart (c : Config) (used : Text → Prop) (first : FileSystem) : Prop where
  apart : c.IsApart first
  extension : Config.checkExtension .artifactExtension c.artifactExtension = .ok ()
  empty : ∀ name, used name → first.at? (first.target (c.artifactPath name)) = none
  distinct : ∀ name, used name → ∀ other, used other →
    c.artifactPath name = c.artifactPath other → name = other

/-- The runs from a start: the files after each step, latest first, and the cache. -/
inductive Cache.Run (c : Config) (used : Text → Prop) (first : FileSystem) :
    List FileSystem → Cache → Prop
  | start : Run c used first [first] (.new c first)
  | get {history : List FileSystem} {cache : Cache} {name : Text}
      (h : Run c used first history cache) (hname : used name) :
      Run c used first ((cache.get name).2.files :: history) (cache.get name).2
  | clear {history : List FileSystem} {cache : Cache} (h : Run c used first history cache) :
      Run c used first (cache.clear.2.files :: history) cache.clear.2
  | edit {history : List FileSystem} {cache : Cache} {files : FileSystem}
      (h : Run c used first history cache) (hedit : c.IsEdit history cache.files files) :
      Run c used first (files :: history) { cache with files }

/-! ## The invariant -/

/-- What is kept as an artifact was built from some files of the run, and each source has
only been overtaken since. -/
def Config.IsBuilt (c : Config) (history : List FileSystem) (files : FileSystem) (name : Text)
    (bytes : ByteArray) (time : Int) : Prop :=
  ∃ old ∈ history, ∃ build, Build.ofFiles c old name = .ok build ∧
    Text.ofBytes? bytes = some build.text ∧ build.stamp = some time ∧
    ∀ other, isTemplateName other = true →
      files.Overtakes old (old.target (c.sourceFile other))

structure Cache.IsCoherent (c : Config) (used : Text → Prop) (first : FileSystem)
    (history : List FileSystem) (cache : Cache) : Prop where
  config : cache.config = c
  latest : cache.files ∈ history
  current : ∀ old ∈ history, old.current = first.current
  artifacts : ∀ name, used name → isTemplateName name = true → ∀ bytes time,
    cache.files.at? (first.target (c.artifactPath name)) = some (.file bytes time) →
    c.IsBuilt history cache.files name bytes time

/-! ## Fresh artifacts -/

theorem Build.later_eq (a b : Option Int) : later a b = a ∨ later a b = b := by
  cases a with
  | none => exact Or.inr (by cases b <;> rfl)
  | some a =>
      cases b with
      | none => exact Or.inl rfl
      | some b =>
          rcases Int.le_total a b with h | h
          · exact Or.inr (congrArg some (Int.max_eq_right h))
          · exact Or.inl (congrArg some (Int.max_eq_left h))

theorem Build.exists_modified_eq_latest (page : Reading) (layouts : List Reading) :
    ∃ r ∈ page :: layouts, latest (page :: layouts) = r.modified := by
  have hfold : ∀ time, (layouts.foldl (fun time r => later time r.modified) time = time) ∨
      ∃ r ∈ layouts, layouts.foldl (fun time r => later time r.modified) time = r.modified := by
    induction layouts with
    | nil => exact fun time => Or.inl rfl
    | cons r layouts ih =>
        intro time
        rw [List.foldl_cons]
        rcases ih (later time r.modified) with h | ⟨s, hs, h⟩
        · rw [h]
          rcases later_eq time r.modified with h' | h'
          · exact Or.inl h'
          · exact Or.inr ⟨r, List.mem_cons_self, h'⟩
        · exact Or.inr ⟨s, List.mem_cons_of_mem _ hs, h⟩
  have hstart : latest (page :: layouts) =
      layouts.foldl (fun time r => later time r.modified) page.modified := by
    rw [latest, List.foldl_cons]
    rfl
  rw [hstart]
  rcases hfold page.modified with h | ⟨r, hr, h⟩
  · exact ⟨page, List.mem_cons_self, h⟩
  · exact ⟨r, List.mem_cons_of_mem _ hr, h⟩

theorem Build.exists_entry_of_stamp {c : Config} {files : FileSystem} {name : Text}
    {build : Build} (hname : isTemplateName name = true)
    (h : ofFiles c files name = .ok build) :
    ∃ pair ∈ files.entries, build.stamp = some pair.2.modified := by
  obtain ⟨page, readings, hpage, hchain, rfl⟩ := (ofFiles_eq_ok_iff hname).1 h
  have hread : ∀ r ∈ readings, ∃ pair ∈ files.entries, r.modified = some pair.2.modified := by
    intro r hr
    have hat : ∃ other, Reading.at? c files other = some r := by
      rw [hchain.eq_cons] at hr
      rcases List.mem_cons.1 hr with rfl | hr
      · exact ⟨name, hpage⟩
      · exact ⟨r.name, (hchain.of_mem_tail hr).2⟩
    obtain ⟨other, hat⟩ := hat
    obtain ⟨-, e, he, hfile, hm, -⟩ := Reading.of_at? hat
    have hd : e.isDirectory = false := by
      unfold Entry.isFile Entry.bytes? at hfile
      unfold Entry.isDirectory
      split at hfile <;> simp_all
    exact ⟨_, FileSystem.mem_entries_of_at? (FileSystem.at?_of_find? he) hd, hm⟩
  obtain ⟨r, hr, hlatest⟩ := exists_modified_eq_latest page readings.tail
  rw [← hchain.eq_cons] at hr hlatest
  obtain ⟨pair, hpair, hm⟩ := hread r hr
  exact ⟨pair, hpair, hlatest.trans hm⟩

theorem Reading.at?_of_notAfter {c : Config} {old files : FileSystem} {name : Text} {r : Reading}
    {pair : Place × Entry} (hcurrent : files.current = old.current)
    (hr : at? c old name = some r)
    (hchanges : files.Overtakes old (old.target (c.sourceFile name)))
    (hpair : pair ∈ old.entries)
    (hnot : notAfter files (c.sourceFile name) pair.2.modified = true) :
    at? c files name = some r := by
  obtain ⟨hname, e, he, -, hmodified, source, hsource, hdocument⟩ := of_at? hr
  obtain ⟨e', he', hle⟩ := notAfter_iff.1 hnot
  have hat := FileSystem.at?_of_find? he
  have hat' := FileSystem.at?_of_find? he'
  rw [FileSystem.target_congr hcurrent] at hat'
  rcases hchanges with h | h | ⟨e'', h, hnewer⟩
  · rw [hat, hat'] at h
    cases Option.some.inj h
    rw [at?_of_find? he' hsource, ← hname, ← hmodified, ← hdocument]
  · rw [hat'] at h
    cases h
  · -- what came later is newer than the pair, and would be after its time
    rw [hat'] at h
    cases Option.some.inj h
    have := hnewer pair hpair
    omega

theorem Config.ofFiles_of_freshText? {c : Config} {history : List FileSystem} {files : FileSystem}
    {name text : Text} (hname : isTemplateName name = true)
    (hcurrent : ∀ old ∈ history, files.current = old.current)
    (hbuilt : ∀ bytes time, files.at? (files.target (c.artifactPath name)) =
      some (.file bytes time) → c.IsBuilt history files name bytes time)
    (h : c.freshText? files (c.sourceFile name) (c.artifactPath name) = some text) :
    ∃ build, Build.ofFiles c files name = .ok build ∧ build.text = text := by
  obtain ⟨⟨content, time⟩, hfind, hbytes, hsource, hlayouts⟩ := freshText?_eq_some_iff.1 h
  cases content with
  | directory => cases hbytes
  | file bytes =>
      obtain ⟨old, hold, build, hof, htext, hstamp, hchanges⟩ :=
        hbuilt bytes time (FileSystem.at?_of_find? hfind)
      have hsame : text = build.text := Option.some.inj (hbytes.symm.trans htext)
      obtain ⟨pair, hpair, hentry⟩ := Build.exists_entry_of_stamp hname hof
      cases Option.some.inj (hstamp.symm.trans hentry)
      obtain ⟨page, readings, hpage, hchain, hbuild⟩ := (Build.ofFiles_eq_ok_iff hname).1 hof
      refine ⟨build, (Build.ofFiles_eq_ok_iff hname).2 ⟨page, readings, ?_, ?_, hbuild⟩, hsame.symm⟩
      · exact Reading.at?_of_notAfter (hcurrent old hold) hpage (hchanges name hname) hpair hsource
      · -- the record of layouts is read back from the text, so each of them was looked at
        refine hchain.transfer fun r hr => ?_
        have hrecorded : r.name ∈ Artifact.dependencies text := by
          have hnames : [] ∉ readings.tail.map Reading.name := by
            intro hnil
            obtain ⟨s, hs, hempty⟩ := List.mem_map.1 hnil
            exact ne_nil_of_isTemplateName (hchain.of_mem_tail hs).1 hempty
          rw [hsame, hbuild, Build.ofChain, Artifact.dependencies_header_append _ hnames]
          exact List.mem_append_left _ (List.mem_map_of_mem hr)
        obtain ⟨hvalid, hnot⟩ := hlayouts r.name hrecorded
        exact Reading.at?_of_notAfter (hcurrent old hold) (hchain.of_mem_tail hr).2
          (hchanges r.name hvalid) hpair hnot

/-! ## The invariant holds along every run -/

section

variable {c : Config} {used : Text → Prop} {first : FileSystem} {history : List FileSystem}
  {cache : Cache}

theorem Config.IsBuilt.mono {files files' : FileSystem} {name : Text} {bytes : ByteArray}
    {time : Int} {last : FileSystem} (h : c.IsBuilt history files name bytes time)
    (hsources : ∀ other, isTemplateName other = true → ∀ old ∈ history,
      files.Overtakes old (old.target (c.sourceFile other)) →
      files'.Overtakes old (old.target (c.sourceFile other))) :
    c.IsBuilt (last :: history) files' name bytes time := by
  obtain ⟨old, hold, build, hof, htext, hstamp, hchanges⟩ := h
  exact ⟨old, List.mem_cons_of_mem _ hold, build, hof, htext, hstamp,
    fun other hother => hsources other hother old hold (hchanges other hother)⟩

theorem IsCleanStart.artifact_below (hstart : IsCleanStart c used first) (name : Text) :
    first.target c.cacheRoot <:+ first.target (c.artifactPath name) := by
  rw [Config.target_artifactPath (Config.notMem_of_checkExtension hstart.extension)]
  exact List.suffix_cons ..

theorem IsCleanStart.name_eq (hstart : IsCleanStart c used first) {name other : Text}
    (hname : used name) (hother : used other)
    (h : first.target (c.artifactPath name) = first.target (c.artifactPath other)) :
    name = other := by
  have hext := Config.notMem_of_checkExtension hstart.extension
  rw [Config.target_artifactPath hext, Config.target_artifactPath hext] at h
  refine hstart.distinct name hname other hother ?_
  rw [Config.artifactPath, (List.cons.inj h).1]
  rfl

namespace Cache

theorem IsCoherent.current_files (h : IsCoherent c used first history cache) :
    cache.files.current = first.current :=
  h.current _ h.latest

theorem IsCoherent.start (hstart : IsCleanStart c used first) :
    IsCoherent c used first [first] (.new c first) where
  config := rfl
  latest := List.mem_singleton_self _
  current old hold := by rw [List.mem_singleton.1 hold]
  artifacts name hname _ bytes time hfile := by
    have hempty := hstart.empty name hname
    rw [show (Cache.new c first).files = first from rfl, hempty] at hfile
    cases hfile

theorem IsCoherent.of_sources (h : IsCoherent c used first history cache) (cache' : Cache)
    (hconfig : cache'.config = c)
    (hcurrent : cache'.files.current = first.current)
    (hsources : ∀ other, isTemplateName other = true → ∀ old ∈ history,
      cache.files.Overtakes old (old.target (c.sourceFile other)) →
      cache'.files.Overtakes old (old.target (c.sourceFile other)))
    (hartifacts : ∀ name, used name → isTemplateName name = true → ∀ bytes time,
      cache'.files.at? (first.target (c.artifactPath name)) = some (.file bytes time) →
      cache.files.at? (first.target (c.artifactPath name)) = some (.file bytes time) ∨
        c.IsBuilt (cache'.files :: history) cache'.files name bytes time) :
    IsCoherent c used first (cache'.files :: history) cache' where
  config := hconfig
  latest := List.mem_cons_self
  current old hold := by
    rcases List.mem_cons.1 hold with rfl | hold
    · exact hcurrent
    · exact h.current old hold
  artifacts name hname hvalid bytes time hfile := by
    rcases hartifacts name hname hvalid bytes time hfile with hsame | hnew
    · exact (h.artifacts name hname hvalid bytes time hsame).mono hsources
    · exact hnew

theorem IsCoherent.source_keep (hstart : IsCleanStart c used first)
    (h : IsCoherent c used first history cache) (name : Text) (build : Build) {other : Text}
    (hother : isTemplateName other = true) :
    (cache.keep name build).2.files.at? (first.target (c.sourceFile other)) =
      cache.files.at? (first.target (c.sourceFile other)) := by
  have hapart := hstart.apart.congr h.current_files
  have hext := Config.notMem_of_checkExtension hstart.extension
  rw [← h.config] at hapart hext ⊢
  rw [← FileSystem.target_congr h.current_files]
  exact cache.at?_keep_source hapart hext name build hother

theorem IsCoherent.keep (hstart : IsCleanStart c used first)
    (h : IsCoherent c used first history cache) {name : Text} {build : Build}
    (hname : used name) (hvalid : isTemplateName name = true)
    (hbuild : Build.ofFiles c cache.files name = .ok build) :
    IsCoherent c used first ((cache.keep name build).2.files :: history)
      (cache.keep name build).2 := by
  have hcurrent := (current_keep cache name build).trans h.current_files
  have hsame : ∀ other, isTemplateName other = true → ∀ old ∈ history,
      (cache.keep name build).2.files.at? (old.target (c.sourceFile other)) =
        cache.files.at? (old.target (c.sourceFile other)) := by
    intro other hother old hold
    rw [FileSystem.target_congr (h.current old hold)]
    exact h.source_keep hstart name build hother
  refine h.of_sources _ ((config_keep cache name build).trans h.config) hcurrent ?_ ?_
  · intro other hother old hold hover
    simpa only [FileSystem.Overtakes, hsame other hother old hold] using hover
  · intro used' hused' _ bytes time hfile
    rcases at?_keep cache name build (first.target (c.artifactPath used')) with
      hk | ⟨-, -, made, hmade⟩ | ⟨hp, hk⟩
    · rw [hk] at hfile
      exact Or.inl hfile
    · rw [hmade] at hfile
      cases hfile
    · -- the artifact that is kept: it was built from the files before the step
      rw [h.config, FileSystem.target_congr h.current_files] at hp
      cases hstart.name_eq hused' hname hp
      rw [hk] at hfile
      cases Option.some.inj hfile
      obtain ⟨pair, -, hstamp⟩ := Build.exists_entry_of_stamp hvalid hbuild
      refine Or.inr ⟨cache.files, List.mem_cons_of_mem _ h.latest, build, hbuild,
        Text.ofBytes?_bytes _, by simp [hstamp], fun other hother => Or.inl ?_⟩
      exact hsame other hother cache.files h.latest

theorem IsCoherent.get (hstart : IsCleanStart c used first)
    (h : IsCoherent c used first history cache) {name : Text} (hname : used name) :
    IsCoherent c used first ((cache.get name).2.files :: history) (cache.get name).2 := by
  have hstay : IsCoherent c used first (cache.files :: history) cache :=
    h.of_sources cache h.config h.current_files (fun _ _ _ _ hover => hover)
      fun _ _ _ _ _ hfile => Or.inl hfile
  rcases get_cases cache name with ⟨e, hget, -⟩ | ⟨text, hget, -⟩ | ⟨build, hvalid, hbuild, hget⟩
  · rw [hget]
    exact hstay
  · rw [hget]
    exact hstay
  · rw [h.config] at hbuild
    have hkeep := h.keep hstart hname hvalid hbuild
    simpa only [hget] using hkeep

theorem IsCoherent.clear (hstart : IsCleanStart c used first)
    (h : IsCoherent c used first history cache) :
    IsCoherent c used first (cache.clear.2.files :: history) cache.clear.2 := by
  obtain ⟨hconfig, hcurrent, hplaces⟩ := clear_leaves cache
  rw [h.config, FileSystem.target_congr h.current_files] at hplaces
  refine h.of_sources _ (hconfig.trans h.config) (hcurrent.trans h.current_files) ?_ ?_
  · intro other hother old hold hover
    rw [FileSystem.target_congr (h.current old hold)] at hover ⊢
    rcases hplaces (first.target (c.sourceFile other)) with hp | ⟨hp, -⟩
    · simpa only [FileSystem.Overtakes, hp] using hover
    · exact absurd hp (hstart.apart.below other hother)
  · intro name _ _ bytes time hfile
    rcases hplaces (first.target (c.artifactPath name)) with hp | ⟨-, hp⟩
    · rw [hp] at hfile
      exact Or.inl hfile
    · rw [hp] at hfile
      cases hfile

theorem IsCoherent.edit (hstart : IsCleanStart c used first)
    (h : IsCoherent c used first history cache) {files : FileSystem}
    (hedit : c.IsEdit history cache.files files) :
    IsCoherent c used first (files :: history) { cache with files } := by
  have hcache := hedit.cache
  rw [FileSystem.target_congr h.current_files] at hcache
  refine h.of_sources { cache with files } h.config (hedit.current.trans h.current_files) ?_ ?_
  · intro other _ old hold hover
    rcases hedit.changes (old.target (c.sourceFile other)) with hp | hp | ⟨e, he, hnewer⟩
    · simpa only [FileSystem.Overtakes, hp] using hover
    · exact Or.inr (Or.inl hp)
    · exact Or.inr (Or.inr ⟨e, he, hnewer old hold⟩)
  · intro name _ _ bytes time hfile
    have hsame := hcache _ (hstart.artifact_below name)
    dsimp only at hfile
    rw [hsame] at hfile
    exact Or.inl hfile

theorem Run.isCoherent (hstart : IsCleanStart c used first)
    (hrun : Run c used first history cache) : IsCoherent c used first history cache := by
  induction hrun with
  | start => exact .start hstart
  | get _ hname ih => exact ih.get hstart hname
  | clear _ ih => exact ih.clear hstart
  | edit _ hedit ih => exact ih.edit hstart hedit

/-- Whatever happened before, a get shows what would be built now: the text of the build if
it succeeds, and the failure of the build if there is a source that cannot be built. -/
theorem Run.get_eq_build (hstart : IsCleanStart c used first)
    (hrun : Run c used first history cache) {name : Text} (hname : used name) :
    (∀ text, (cache.get name).1 = .ok text →
      ∃ build, Build.ofFiles c cache.files name = .ok build ∧ build.text = text) ∧
    (∀ e, cache.contains name = true → Build.ofFiles c cache.files name = .error e →
      (cache.get name).1 = .error e) := by
  have h := hrun.isCoherent hstart
  have hcurrent : ∀ old ∈ history, cache.files.current = old.current := by
    intro old hold
    rw [h.current_files, h.current old hold]
  rcases get_cases cache name with ⟨e, hget, hfail⟩ | ⟨text, hget, hvalid, hfresh⟩ |
    ⟨build, hvalid, hbuild, hget⟩
  · rw [h.config] at hfail
    refine ⟨by simp [hget], fun e' hcontains he' => ?_⟩
    rw [hget, ← Except.error.inj ((hfail hcontains).symm.trans he')]
  · -- the artifact is fresh: the invariant tells what it was built from
    rw [h.config] at hfresh
    have hbuilt := h.artifacts name hname hvalid
    rw [← FileSystem.target_congr h.current_files] at hbuilt
    obtain ⟨build, hof, htext⟩ := c.ofFiles_of_freshText? hvalid hcurrent hbuilt hfresh
    refine ⟨?_, fun e _ he => by simp [hof] at he⟩
    intro text' htext'
    rw [hget] at htext'
    exact ⟨build, hof, htext.trans (Except.ok.inj htext')⟩
  · rw [h.config] at hbuild
    refine ⟨?_, fun e _ he => by simp [hbuild] at he⟩
    intro text htext
    rw [hget] at htext
    refine ⟨build, hbuild, ?_⟩
    cases hkept : (cache.keep name build).1 with
    | error e => simp [hkept, Except.map] at htext
    | ok => simpa [hkept, Except.map] using htext

end Cache

end

/-! ## A run with an edit -/

namespace Sample

def config : Config := ⟨⟨['v']⟩, ⟨['c']⟩, ['t'], ['a'], false⟩

def page : Text := ['p']

def first : FileSystem :=
  (FileSystem.empty.put ['v'] [] (.directory 0)).put ['p', '.', 't'] [['v']]
    (.file (Text.bytes ['o', 'l', 'd']).toByteArray 5)

@[irreducible]
def compiled : Cache := ((Cache.new config first).get page).2

def newer : Entry := .file (Text.bytes ['n', 'e', 'w']).toByteArray 9

def rewritten : FileSystem := compiled.files.put ['p', '.', 't'] [['v']] newer

def edited : Cache := { compiled with files := rewritten }

theorem isApart : config.IsApart first := by
  have hview : first.target config.viewRoot = [['v']] := by decide +kernel
  have hcache : first.target config.cacheRoot = [['c']] := by decide +kernel
  have hway : first.way config.cacheRoot = [[], [['c']]] := by decide +kernel
  have hsource : ∀ name, isTemplateName name = true → ∃ file inner,
      first.target (config.sourceFile name) = file :: inner ++ [['v']] := by
    intro name hname
    obtain ⟨front, last, hparts⟩ := Text.exists_splitOn_eq_concat Path.slash name
    rw [Config.target_sourceFile hname (by decide), namedPlace_eq hparts, hview]
    exact ⟨_, _, rfl⟩
  constructor
  · intro name hname place hplace hsuffix
    obtain ⟨file, inner, htarget⟩ := hsource name hname
    have hlength := hsuffix.length_le
    rw [hway] at hplace
    rw [htarget] at hlength
    simp only [List.mem_cons, List.not_mem_nil, or_false] at hplace
    rcases hplace with rfl | rfl <;> simp at hlength
  · intro name hname hsuffix
    obtain ⟨file, inner, htarget⟩ := hsource name hname
    rw [htarget, hcache, List.singleton_suffix_iff_getLast?_eq_some,
      List.getLast?_append] at hsuffix
    cases hsuffix

theorem isCleanStart : IsCleanStart config (· = page) first where
  apart := isApart
  extension := by decide
  empty := by
    have houtside : ∀ pair ∈ first.entries, pair.1.tail ≠ first.target config.cacheRoot := by
      decide +kernel
    rintro name -
    rw [Config.target_artifactPath (by decide), Option.eq_none_iff_forall_ne_some]
    intro e he
    exact houtside _ ((first.mem_entries_iff (by simp)).2 he) rfl
  distinct := by
    rintro name rfl other rfl _
    rfl

theorem run_compiled : Cache.Run config (· = page) first [compiled.files, first] compiled := by
  unfold compiled
  exact @Cache.Run.get config (· = page) first [first] (.new config first) page .start rfl

theorem isOlder : ∀ old ∈ [compiled.files, first], old.IsOlder newer := by
  unfold FileSystem.IsOlder
  decide +kernel

theorem isEdit : config.IsEdit [compiled.files, first] compiled.files rewritten := by
  refine .put ?_ isOlder
  rw [FileSystem.target_congr (run_compiled.isCoherent isCleanStart).current_files]
  decide +kernel

theorem run : Cache.Run config (· = page) first [rewritten, compiled.files, first] edited :=
  run_compiled.edit isEdit

end Sample

theorem Cache.Run.get_eq_build_edited :
    (Sample.edited.get Sample.page).1.toOption = some ['n', 'e', 'w'] ∧
    (∀ text, (Sample.edited.get Sample.page).1 = .ok text → ∃ build,
      Build.ofFiles Sample.config Sample.edited.files Sample.page = .ok build ∧
        build.text = text) ∧
    (∀ e, Sample.edited.contains Sample.page = true →
      Build.ofFiles Sample.config Sample.edited.files Sample.page = .error e →
      (Sample.edited.get Sample.page).1 = .error e) :=
  ⟨by decide +kernel, Cache.Run.get_eq_build Sample.isCleanStart Sample.run rfl⟩

end Stencil
