import Mathlib.Data.Set.Card
import Stencil.Proofs.Cache.Run
import Stencil.Proofs.Cache.Trail

/-!
# The sources of a cache

Getting templates writes below the cache directory only.  With the sources apart
from it they stay what they are, and only a template with a source can be got.
So the number of files with sources bounds how many templates can be in use.
-/

namespace Stencil.Cache

variable {c c' : Cache} {name : Text}

/-! ## What a get needs -/

theorem get_of_not_contains (h : c.contains name = false) :
    c.get name = (.error (.templateNotFound name (c.config.sourceFile name)), c) := by
  rw [contains, Bool.and_eq_false_iff] at h
  unfold get Config.sourcePath
  by_cases hname : isTemplateName name = true
  · have hfile := h.resolve_left (by simp [hname])
    simp [hname, hfile]
  · simp [hname]

theorem contains_of_get {text : Text} (h : (c.get name).1 = .ok text) : c.contains name = true := by
  by_contra hcontains
  rw [get_of_not_contains (Bool.eq_false_of_not_eq_true hcontains)] at h
  cases h

theorem keep_eq_error {build : Build} {e : Failure} (h : (c.keep name build).1 = .error e) :
    e = .writeFailed (c.config.artifactPath name) := by
  unfold keep at h
  dsimp only at h
  split at h
  · exact (Except.error.inj h).symm
  · cases h

theorem get_ne_unfinished (c : Cache) (name other : Text) :
    (c.get name).1 ≠ .error (.unfinished other) := by
  intro h
  by_cases hcontains : c.contains name = true
  swap
  · rw [get_of_not_contains (Bool.eq_false_of_not_eq_true hcontains)] at h
    cases h
  have hname : isTemplateName name = true := by
    rw [contains, Bool.and_eq_true] at hcontains
    exact hcontains.1
  rcases get_cases c name with ⟨e, hget, hbuild⟩ | ⟨text, hget, -, -⟩ | ⟨build, -, -, hget⟩
  · rw [hget] at h
    cases h
    exact Build.ofFiles_ne_unfinished hname other (hbuild hcontains)
  · rw [hget] at h
    cases h
  · rw [hget] at h
    cases hkept : (c.keep name build).1 with
    | ok => simp [hkept, Except.map] at h
    | error e =>
        rw [hkept] at h
        cases h
        cases keep_eq_error hkept

def HasSource (c : Cache) (name : Text) : Prop :=
  isTemplateName name = true ∧
    ∃ e, c.files.at? (c.files.target (c.config.sourceFile name)) = some e ∧ e.isFile = true

theorem hasSource_of_get {text : Text} (h : (c.get name).1 = .ok text) : c.HasSource name := by
  have hcontains := contains_of_get h
  rw [contains, Bool.and_eq_true] at hcontains
  obtain ⟨hname, hfile⟩ := hcontains
  obtain ⟨e, he, hregular⟩ := (Option.any_eq_true ..).1 hfile
  exact ⟨hname, e, FileSystem.at?_of_find? he, hregular⟩

/-! ## What a get leaves alone -/

structure KeepsSources (c c' : Cache) : Prop where
  config : c'.config = c.config
  current : c'.files.current = c.files.current
  sources : ∀ name, isTemplateName name = true →
    c'.files.at? (c.files.target (c.config.sourceFile name)) =
      c.files.at? (c.files.target (c.config.sourceFile name))

theorem KeepsSources.refl (c : Cache) : c.KeepsSources c := ⟨rfl, rfl, fun _ _ => rfl⟩

theorem KeepsSources.hasSource (h : c.KeepsSources c') (hname : c'.HasSource name) :
    c.HasSource name := by
  obtain ⟨hvalid, e, he, hregular⟩ := hname
  rw [FileSystem.target_congr h.current, h.config, h.sources name hvalid] at he
  exact ⟨hvalid, e, he, hregular⟩

/-- The sources lie apart from the artifacts, and each file is the source of one template. -/
structure IsSeparate (c : Cache) : Prop where
  apart : c.config.IsApart c.files
  template : Config.checkExtension .templateExtension c.config.templateExtension = .ok ()
  artifact : Config.checkExtension .artifactExtension c.config.artifactExtension = .ok ()

theorem KeepsSources.keep (hc : c.IsSeparate) (h : c.KeepsSources c') (name : Text)
    (build : Build) : c.KeepsSources (c'.keep name build).2 := by
  have hapart := hc.apart.congr h.current
  have hext := Config.notMem_of_checkExtension hc.artifact
  rw [← h.config] at hapart hext
  refine ⟨(config_keep c' name build).trans h.config, (current_keep c' name build).trans h.current,
    fun other hother => ?_⟩
  have hkept := c'.at?_keep_source hapart hext name build hother
  rw [h.config, FileSystem.target_congr h.current] at hkept
  exact hkept.trans (h.sources other hother)

theorem KeepsSources.get (hc : c.IsSeparate) (h : c.KeepsSources c') (name : Text) :
    c.KeepsSources (c'.get name).2 := by
  rcases get_cases c' name with ⟨e, hget, -⟩ | ⟨text, hget, -, -⟩ | ⟨build, -, -, hget⟩
  · rw [hget]
    exact h
  · rw [hget]
    exact h
  · rw [hget]
    exact h.keep hc name build

/-! ## How many there are -/

def sources (c : Cache) : Set Place :=
  {place | ∃ name, c.HasSource name ∧ place = c.files.target (c.config.sourceFile name)}

noncomputable def sourceCount (c : Cache) : Nat := c.sources.ncard

theorem sources_subset (c : Cache) :
    c.sources ⊆ {place | place ∈ c.files.entries.map Prod.fst} := by
  rintro _ ⟨name, ⟨-, e, he, hregular⟩, rfl⟩
  have hother : e.isDirectory = false := by
    unfold Entry.isFile Entry.bytes? at hregular
    unfold Entry.isDirectory
    split at hregular <;> simp_all
  exact List.mem_map.2 ⟨_, FileSystem.mem_entries_of_at? he hother, rfl⟩

theorem finite_sources (c : Cache) : c.sources.Finite :=
  (List.finite_toSet _).subset c.sources_subset

theorem length_le_sourceCount (hc : c.IsSeparate) {names : List Text} (hnodup : names.Nodup)
    (hnames : ∀ name ∈ names, c.HasSource name) : names.length ≤ c.sourceCount := by
  have hext := Config.notMem_of_checkExtension hc.template
  have hplaces : (names.map fun name => c.files.target (c.config.sourceFile name)).Nodup := by
    refine hnodup.map_on fun name hname other hother h => ?_
    rw [Config.target_sourceFile (hnames name hname).1 hext,
      Config.target_sourceFile (hnames other hother).1 hext] at h
    exact namedPlace_inj h
  have hsubset : {place | place ∈ names.map fun name =>
      c.files.target (c.config.sourceFile name)} ⊆ c.sources := by
    intro place hplace
    obtain ⟨name, hname, rfl⟩ := List.mem_map.1 hplace
    exact ⟨name, hnames name hname, rfl⟩
  calc names.length
      = (names.map fun name => c.files.target (c.config.sourceFile name)).toFinset.card := by
        rw [List.toFinset_card_of_nodup hplaces, List.length_map]
    _ ≤ c.sourceCount := by
        rw [sourceCount, ← Set.ncard_coe_finset, List.coe_toFinset]
        exact Set.ncard_le_ncard hsubset c.finite_sources

theorem sourceCount_le (c : Cache) : c.sourceCount ≤ c.files.entries.length := by
  calc c.sourceCount
      ≤ (c.files.entries.map Prod.fst).toFinset.card := by
        rw [sourceCount, ← Set.ncard_coe_finset, List.coe_toFinset]
        exact Set.ncard_le_ncard c.sources_subset (List.finite_toSet _)
    _ ≤ c.files.entries.length := by
        simpa using (c.files.entries.map Prod.fst).toFinset_card_le

end Stencil.Cache

namespace Stencil.FileSystem

theorem length_entries_le_weight (fs : FileSystem) : fs.entries.length ≤ fs.weight := by
  unfold weight
  induction fs.entries with
  | nil => exact Nat.le_refl _
  | cons pair entries ih =>
      rw [List.foldr_cons, List.length_cons]
      dsimp only at ih ⊢
      omega

end Stencil.FileSystem
