import Stencil.Proofs.Cache.Order
import Stencil.Proofs.Storage.Removal

/-!
# Clearing

Clearing tells artifacts by what follows the last dot of a file name, and looks
for them in the directory that the path of the cache names.  So it takes away
all of them, and the next get of each template builds anew, unless there is a
dot in the extension of artifacts or that path is empty.  Then it finds none.
-/

namespace Stencil

/-- Clearing can find artifacts: their directory has a name, and their extension no dot. -/
structure Config.FindsArtifacts (c : Config) : Prop where
  named : c.cacheRoot.text ≠ []
  undotted : '.' ∉ c.artifactExtension

namespace Cache

variable {c : Cache} {name other : Text}

/-! ## What is removed -/

def IsShort (c : Cache) (file : Text) : Prop :=
  Text.utf8Length (c.config.cacheRoot.join ⟨file⟩).text ≤ FileSystem.pathLimit

theorem mem_artifactFiles_iff {place : Place} {file : Text} :
    file ∈ c.artifactFiles place ↔
      (∃ e, c.files.at? (file :: place) = some e ∧ e.isFile = true) ∧
        (∃ stem, FileName.split? file = some (stem, c.config.artifactExtension)) ∧
          c.IsShort file := by
  unfold artifactFiles
  simp only [List.mem_filterMap, Prod.exists, FileSystem.mem_children_iff]
  constructor
  · rintro ⟨found, e, he, hfile⟩
    split at hfile
    · next stem extension hsplit =>
      split at hfile
      · next hall =>
        cases hfile
        rw [Bool.and_eq_true, Bool.and_eq_true, beq_iff_eq, decide_eq_true_eq] at hall
        exact ⟨⟨e, he, hall.1.1⟩, ⟨stem, hall.1.2 ▸ hsplit⟩, hall.2⟩
      · cases hfile
    · cases hfile
  · rintro ⟨⟨e, he, hregular⟩, ⟨stem, hsplit⟩, hshort⟩
    unfold IsShort at hshort
    exact ⟨file, e, he, by simp [hsplit, hregular, hshort]⟩

theorem artifactFile_mem_artifactFiles_iff {place : Place} :
    Config.artifactKey name ++ '.' :: c.config.artifactExtension ∈ c.artifactFiles place ↔
      (∃ e, c.files.at? ((Config.artifactKey name ++ '.' :: c.config.artifactExtension) :: place) =
        some e ∧ e.isFile = true) ∧ '.' ∉ c.config.artifactExtension ∧
          c.IsShort (Config.artifactKey name ++ '.' :: c.config.artifactExtension) := by
  rw [mem_artifactFiles_iff]
  refine and_congr_right fun _ => and_congr_left fun _ => ?_
  constructor
  · rintro ⟨stem, hsplit⟩
    exact (FileName.split?_eq_some_iff.1 hsplit).2.2
  · intro hdot
    exact ⟨_, FileName.split?_eq_some_iff.2 ⟨rfl, Config.artifactKey_ne_nil name, hdot⟩⟩

theorem clear_ok_cases {n : Nat} (h : c.clear.1 = .ok n) :
    (c.files.find? c.config.cacheRoot = none ∧ c.clear.2.files = c.files) ∨
      ∃ e, c.files.find? c.config.cacheRoot = some e ∧
        c.clear.2.files = (c.artifactFiles (c.files.target c.config.cacheRoot)).foldl
          (fun files file => files.remove (file :: c.files.target c.config.cacheRoot)) c.files := by
  unfold clear at h ⊢
  unfold FileSystem.find?
  dsimp only at h ⊢
  split at h
  · next hwalk => exact Or.inl ⟨by rw [hwalk], rfl⟩
  · cases h
  · next place hwalk =>
    obtain rfl := FileSystem.eq_target_of_walk hwalk
    rw [hwalk]
    dsimp only
    split at h
    · next hnone => exact Or.inl ⟨hnone, rfl⟩
    · next e he =>
      split at h
      · next hdirectory =>
        rw [if_pos hdirectory, files_report]
        exact Or.inr ⟨e, he, rfl⟩
      · cases h

theorem isFile_clear_iff (hext : Path.slash ∉ c.config.artifactExtension) {n : Nat}
    (h : c.clear.1 = .ok n) (name : Text) :
    c.clear.2.files.isFile (c.config.artifactPath name) = true ↔
      c.files.isFile (c.config.artifactPath name) = true ∧ ¬ c.config.FindsArtifacts := by
  have hpieces := Config.pieces_artifactFile hext name
  rcases clear_ok_cases h with ⟨hnone, hfiles⟩ | ⟨directory, hdirectory, hfiles⟩
  · rw [hfiles]
    refine ⟨fun hfile => ⟨hfile, fun hfinds => ?_⟩, And.left⟩
    -- what is found in a directory with a name is found by way of that
    obtain ⟨e, he, -⟩ := (Option.any_eq_true ..).1 hfile
    obtain ⟨directory, hdirectory, -⟩ := FileSystem.exists_find?_of_find?_join
      (Config.isAbsolute_artifactFile c.config name) (by simp [hpieces]) hfinds.named he
    rw [hnone] at hdirectory
    cases hdirectory
  · have hplain : ∀ file ∈ c.artifactFiles (c.files.target c.config.cacheRoot),
        c.files.isDirectoryAt (file :: c.files.target c.config.cacheRoot) = false := by
      intro file hfile
      obtain ⟨⟨e, he, hregular⟩, -⟩ := mem_artifactFiles_iff.1 hfile
      simp [FileSystem.isDirectoryAt, he, Entry.isDirectory_eq_not_isFile, hregular]
    have hnamed : c.config.cacheRoot.text ≠ [] := by
      intro hempty
      have hwalk := FileSystem.walk_of_find? hdirectory
      simp [FileSystem.walk, hempty] at hwalk
    have hmem : c.files.target (c.config.artifactPath name) ∈
        (c.artifactFiles (c.files.target c.config.cacheRoot)).map
          (· :: c.files.target c.config.cacheRoot) ↔
        (∃ e, c.files.at? (c.files.target (c.config.artifactPath name)) = some e ∧
          e.isFile = true) ∧ '.' ∉ c.config.artifactExtension ∧
            c.IsShort (Config.artifactKey name ++ '.' :: c.config.artifactExtension) := by
      rw [Config.target_artifactPath hext,
        List.mem_map_of_injective fun _ _ heq => (List.cons.inj heq).1]
      exact artifactFile_mem_artifactFiles_iff
    rw [FileSystem.isFile, hfiles, FileSystem.find?_removeAll_of_plain hplain]
    split
    · next hremoved =>
      constructor
      · intro hfile
        cases hfile
      · intro hleft
        exact absurd ⟨hnamed, (hmem.1 hremoved).2.1⟩ hleft.2
    · next hkept =>
      refine ⟨fun hfile => ⟨hfile, fun hfinds => hkept (hmem.2 ?_)⟩, And.left⟩
      obtain ⟨e, he, hregular⟩ := (Option.any_eq_true ..).1 hfile
      exact ⟨⟨e, FileSystem.at?_of_find? he, hregular⟩, hfinds.undotted,
        (FileSystem.walk_eq_ok_iff.1 (FileSystem.walk_of_find? he)).1.2⟩

/-! ## Gets of what has no artifact -/

theorem isFresh_eq_false (h : c.files.isFile (c.config.artifactPath name) = false) :
    c.isFresh name = false := by
  rw [← Bool.not_eq_true]
  intro hfresh
  obtain ⟨-, text, htext⟩ := isFresh_iff.1 hfresh
  obtain ⟨e, he, hread, -⟩ := Config.freshText?_eq_some_iff.1 htext
  have hregular : e.isFile = true := by
    cases hbytes : e.bytes? with
    | none => simp [hbytes] at hread
    | some bytes => simp [Entry.isFile, hbytes]
  simp [FileSystem.isFile, he, hregular] at h

theorem builds_get (h : c.files.isFile (c.config.artifactPath name) = false) {text : Text}
    (hget : (c.get name).1 = .ok text) : (c.get name).2.builds = c.builds + 1 := by
  rcases get_eq_ok_cases hget with ⟨-, hfresh⟩ | ⟨build, -, -, hkept, hstate⟩
  · have hstale := isFresh_eq_false h
    rw [isFresh_iff.2 ⟨(contains_iff.1 (contains_of_get hget)).1, text, hfresh⟩] at hstale
    cases hstale
  · rw [hstate, builds_keep hkept]

def afterGets (c : Cache) : List Text → Cache
  | [] => c
  | name :: names => (c.get name).2.afterGets names

theorem config_afterGets (c : Cache) (names : List Text) :
    (c.afterGets names).config = c.config := by
  induction names generalizing c with
  | nil => rfl
  | cons name names ih => rw [afterGets, ih, config_get]

def AllMiss (c : Cache) (name : Text) : List Text → Prop
  | [] => True
  | other :: others =>
    (c.config.artifactPath other = c.config.artifactPath name → ∃ e, (c.get other).1 = .error e) ∧
      (c.get other).2.AllMiss name others

theorem addsAround_of_keep_error {build : Build} {e : Failure}
    (h : (c.keep name build).1 = .error e) (place : Place) :
    c.config.AddsAround place c.files (c.keep name build).2.files := by
  unfold keep at h ⊢
  dsimp only at h ⊢
  split at h
  · intro other
    rcases FileSystem.at?_makeDirectories c.files c.config.cacheRoot other with
      hsame | ⟨hway, hnone, -⟩
    · exact Or.inl hsame
    · exact Or.inr (Or.inl ⟨hway, hnone⟩)
  · cases h

theorem isFile_get_eq_false (hext : Path.slash ∉ c.config.artifactExtension)
    (haround : c.config.IsReachedFromAround c.files)
    (hmiss : c.config.artifactPath other = c.config.artifactPath name →
      ∃ e, (c.get other).1 = .error e)
    (h : c.files.isFile (c.config.artifactPath name) = false) :
    (c.get other).2.files.isFile (c.config.artifactPath name) = false := by
  rcases get_cases c other with ⟨e, hget, -⟩ | ⟨text, hget, -⟩ | ⟨build, -, -, hget⟩
  · rw [hget, h]
  · rw [hget, h]
  · have hadds : c.config.AddsAround (c.files.target (c.config.artifactPath name)) c.files
        (c.keep other build).2.files := by
      cases hkept : (c.keep other build).1 with
      | error e => exact addsAround_of_keep_error hkept _
      | ok =>
          have hne : c.config.artifactPath other ≠ c.config.artifactPath name := by
            intro hsame
            obtain ⟨e, he⟩ := hmiss hsame
            rw [hget, hkept] at he
            cases he
          exact addsAround_keep build (target_artifactPath_ne hext hne c.files).symm
    rw [hget, ← Bool.not_eq_true]
    dsimp only
    intro hfile
    obtain ⟨e, he, hregular⟩ := (Option.any_eq_true ..).1 hfile
    have hbefore := Config.find?_artifactPath_of_addsAround haround hext
      (current_keep c other build) hadds he
    simp [FileSystem.isFile, hbefore, hregular] at h

theorem isReachedFromAround_get (h : c.config.IsReachedFromAround c.files) (name : Text) :
    (c.get name).2.config.IsReachedFromAround (c.get name).2.files := by
  rw [config_get]
  rcases get_cases c name with ⟨e, hget, -⟩ | ⟨text, hget, -⟩ | ⟨build, -, -, hget⟩
  · rwa [hget]
  · rwa [hget]
  · rw [hget]
    dsimp only
    exact h.keep name build

theorem isFile_afterGets_eq_false (hext : Path.slash ∉ c.config.artifactExtension)
    (haround : c.config.IsReachedFromAround c.files) {others : List Text}
    (hmiss : c.AllMiss name others)
    (h : c.files.isFile (c.config.artifactPath name) = false) :
    (c.afterGets others).files.isFile (c.config.artifactPath name) = false := by
  induction others generalizing c with
  | nil => exact h
  | cons other others ih =>
      have hget := isFile_get_eq_false hext haround hmiss.1 h
      rw [← config_get c other] at hext hget ⊢
      exact ih hext (isReachedFromAround_get haround other) hmiss.2 hget

/-! ## The cache after clearing -/

/-- What clearing leaves.  An artifact is left just if clearing finds none at all; otherwise nothing
is fresh, and the next get of each template that succeeds builds.  Other gets may come before it if
these make no directories but around the cache. -/
structure IsCleared (c : Cache) : Prop where
  left_iff : ∀ name, c.clear.2.files.isFile (c.config.artifactPath name) = true ↔
    c.files.isFile (c.config.artifactPath name) = true ∧ ¬ c.config.FindsArtifacts
  stale : c.config.FindsArtifacts → ∀ name, c.clear.2.isFresh name = false
  builds : c.config.FindsArtifacts → ∀ name text, (c.clear.2.get name).1 = .ok text →
    (c.clear.2.get name).2.builds = c.clear.2.builds + 1
  buildsLater : c.config.FindsArtifacts → c.config.IsReachedFromAround c.clear.2.files →
    ∀ name others, c.clear.2.AllMiss name others →
      ∀ text, ((c.clear.2.afterGets others).get name).1 = .ok text →
        ((c.clear.2.afterGets others).get name).2.builds =
          (c.clear.2.afterGets others).builds + 1

theorem isCleared {start : FileSystem} (hvalid : c.config.validate start = .ok ())
    (names : List Text) {n : Nat} (hclear : (c.afterGets names).clear.1 = .ok n) :
    (c.afterGets names).IsCleared := by
  have hext := Config.notMem_of_checkExtension (Config.validate_eq_ok_iff.1 hvalid).2.1
  rw [← config_afterGets c names] at hext
  generalize c.afterGets names = after at hclear hext ⊢
  have hconfig := after.clear_leaves.1
  have hleft := isFile_clear_iff hext hclear
  have hgone : after.config.FindsArtifacts → ∀ name,
      after.clear.2.files.isFile (after.clear.2.config.artifactPath name) = false := by
    intro hfinds name
    rw [hconfig, ← Bool.not_eq_true, hleft]
    exact fun h => h.2 hfinds
  constructor
  · exact hleft
  · exact fun hfinds name => isFresh_eq_false (hgone hfinds name)
  · exact fun hfinds name text hget => builds_get (hgone hfinds name) hget
  · intro hfinds haround name others hmiss text hget
    rw [← hconfig] at hext haround
    have hlater := isFile_afterGets_eq_false hext haround hmiss (hgone hfinds name)
    rw [← config_afterGets] at hlater
    exact builds_get hlater hget

end Cache

/-! ## A cache that is found -/

theorem Paired.findsArtifacts : cache.config.FindsArtifacts where
  named := by decide
  undotted := by decide

theorem Paired.cleared :
    (cache.config.validate cache.files).toOption = some () ∧
      (cache.afterGets [['p'], ['l']]).clear.1.toOption = some 2 := by
  decide +kernel

theorem Cache.isCleared_paired :
    (Paired.cache.config.validate Paired.cache.files = .ok () ∧
      (Paired.cache.afterGets [['p'], ['l']]).clear.1 = .ok 2) ∧
      Paired.cache.config.FindsArtifacts ∧
      (Paired.cache.afterGets [['p'], ['l']]).IsCleared :=
  ⟨⟨Siblings.eq_ok_of_toOption Paired.cleared.1, Siblings.eq_ok_of_toOption Paired.cleared.2⟩,
    Paired.findsArtifacts,
    Cache.isCleared (Siblings.eq_ok_of_toOption Paired.cleared.1) _
      (Siblings.eq_ok_of_toOption Paired.cleared.2)⟩

/-! ## Artifacts that are not found -/

namespace Dotted

def config : Config := ⟨⟨['v']⟩, ⟨['c']⟩, ['t'], "x.a".toList, false⟩

def files : FileSystem := Siblings.filesOf [(['p'], ['p'])]

def cache : Cache := (Cache.new config files).afterGets [['p']]

theorem clear_leaves_artifact :
    (cache.config.validate files).toOption = some () ∧ cache.clear.1.toOption = some 0 ∧
      cache.clear.2.files.isFile (cache.config.artifactPath ['p']) = true := by
  decide +kernel

end Dotted

namespace Unnamed

def config : Config := ⟨⟨['v']⟩, ⟨[]⟩, ['t'], ['a'], false⟩

def cache : Cache := (Cache.new config Dotted.files).afterGets [['p']]

theorem clear_leaves_artifact_undotted :
    (cache.config.validate Dotted.files).toOption = some () ∧
      '.' ∉ cache.config.artifactExtension ∧ cache.clear.1.toOption = some 0 ∧
      cache.clear.2.files.isFile (cache.config.artifactPath ['p']) = true := by
  decide +kernel

end Unnamed

/-- Clearing can leave artifacts: it finds none where their extension has a dot. -/
theorem Cache.not_forall_isFile_clear :
    ¬∀ (c : Cache) (start : FileSystem), c.config.validate start = .ok () →
      ∀ n, c.clear.1 = .ok n →
        ∀ name, c.clear.2.files.isFile (c.config.artifactPath name) = false := by
  intro h
  obtain ⟨hvalid, hclear, hleft⟩ := Dotted.clear_leaves_artifact
  rw [h Dotted.cache Dotted.files (Siblings.eq_ok_of_toOption hvalid) 0
    (Siblings.eq_ok_of_toOption hclear) ['p']] at hleft
  cases hleft

theorem Cache.not_forall_isFile_clear_of_undotted :
    ¬∀ (c : Cache) (start : FileSystem), c.config.validate start = .ok () →
      '.' ∉ c.config.artifactExtension → ∀ n, c.clear.1 = .ok n →
        ∀ name, c.clear.2.files.isFile (c.config.artifactPath name) = false := by
  intro h
  obtain ⟨hvalid, hundotted, hclear, hleft⟩ := Unnamed.clear_leaves_artifact_undotted
  rw [h Unnamed.cache Dotted.files (Siblings.eq_ok_of_toOption hvalid) hundotted 0
    (Siblings.eq_ok_of_toOption hclear) ['p']] at hleft
  cases hleft

theorem Detour.cleared :
    (config.validate files).toOption = some () ∧ cache.clear.1.toOption = some 0 ∧
      ((cache.clear.2.get ['p']).2.get ['q']).1.toOption = some "old".toList ∧
      ((cache.clear.2.get ['p']).2.get ['q']).2.builds = (cache.clear.2.get ['p']).2.builds := by
  decide +kernel

theorem Cache.not_forall_builds_clear :
    ¬∀ (c : Cache) (start : FileSystem), c.config.validate start = .ok () →
      c.config.FindsArtifacts → ∀ n, c.clear.1 = .ok n →
        ∀ name others, c.clear.2.AllMiss name others →
          ∀ text, ((c.clear.2.afterGets others).get name).1 = .ok text →
            ((c.clear.2.afterGets others).get name).2.builds =
              (c.clear.2.afterGets others).builds + 1 := by
  intro h
  obtain ⟨hvalid, hclear, hget, hbuilds⟩ := Detour.cleared
  have hmiss : Detour.cache.clear.2.AllMiss ['q'] [['p']] := by
    refine ⟨fun hsame => ?_, trivial⟩
    rw [Detour.cache.clear_leaves.1] at hsame
    exact absurd hsame Detour.get_changes_get.1
  have hlater : ((Detour.cache.clear.2.get ['p']).2.get ['q']).2.builds =
      (Detour.cache.clear.2.get ['p']).2.builds + 1 :=
    h Detour.cache Detour.cache.files (Siblings.eq_ok_of_toOption hvalid)
      ⟨by decide, by decide⟩ 0 (Siblings.eq_ok_of_toOption hclear) ['q'] [['p']] hmiss _
      (Siblings.eq_ok_of_toOption hget)
  omega

end Stencil
