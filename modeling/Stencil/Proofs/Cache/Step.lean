import Stencil.Cache.Basic
import Stencil.Proofs.Cache.Location

/-!
# What a cache does to its files

A get leaves the files alone or keeps one artifact, and clearing takes away
artifacts only.  Besides that, directories appear on the way to the cache.
-/

namespace Stencil

/-! ## Freshness -/

theorem notAfter_iff {files : FileSystem} {p : Path} {time : Int} :
    notAfter files p time = true ↔ ∃ e, files.find? p = some e ∧ e.modified ≤ time := by
  simp only [notAfter, FileSystem.modified?, Option.any_map]
  simp [Option.any_eq_true]

theorem Config.freshText?_eq_some_iff {c : Config} {files : FileSystem} {source artifact : Path}
    {text : Text} :
    c.freshText? files source artifact = some text ↔
      ∃ e, files.find? artifact = some e ∧ e.bytes?.bind Text.ofBytes? = some text ∧
        notAfter files source e.modified = true ∧
        ∀ layout ∈ Artifact.dependencies text, isTemplateName layout = true ∧
          notAfter files (c.sourceFile layout) e.modified = true := by
  unfold freshText? FileSystem.modified?
  cases hfind : files.find? artifact with
  | none => simp
  | some e =>
      have hread : ∀ t, files.readText artifact = .ok t ↔
          e.bytes?.bind Text.ofBytes? = some t := by
        intro t
        simp [FileSystem.readText_eq_ok_iff, hfind]
      simp only [Option.map_some, Option.some.injEq, exists_eq_left']
      constructor
      · intro h
        split at h
        · next hsource =>
          split at h
          · cases h
          · next t ht =>
            split at h
            · next hall =>
              cases h
              simp only [List.all_eq_true, Bool.and_eq_true] at hall
              exact ⟨(hread _).1 ht, hsource, hall⟩
            · cases h
        · cases h
      · rintro ⟨ht, hsource, hall⟩
        have hall' : (Artifact.dependencies text).all (fun layout =>
            isTemplateName layout && notAfter files (c.sourceFile layout) e.modified) = true := by
          simpa [List.all_eq_true] using hall
        rw [if_pos hsource, (hread text).2 ht]
        exact if_pos hall'

namespace Cache

/-! ## Keeping an artifact -/

theorem config_report (c : Cache) (e : Event) : (c.report e).config = c.config := by
  unfold report
  split <;> rfl

theorem files_report (c : Cache) (e : Event) : (c.report e).files = c.files := by
  unfold report
  split <;> rfl

theorem config_keep (c : Cache) (name : Text) (build : Build) :
    (c.keep name build).2.config = c.config := by
  unfold keep
  dsimp only
  split
  · rfl
  · rw [config_report]

theorem current_keep (c : Cache) (name : Text) (build : Build) :
    (c.keep name build).2.files.current = c.files.current := by
  unfold keep
  dsimp only
  split
  · exact FileSystem.current_makeDirectories ..
  · next files hw =>
    rw [files_report]
    exact (FileSystem.of_write? hw).1.trans (FileSystem.current_makeDirectories ..)

theorem at?_keep (c : Cache) (name : Text) (build : Build) (place : Place) :
    (c.keep name build).2.files.at? place = c.files.at? place ∨
      (place ∈ c.files.way c.config.cacheRoot ∧ c.files.at? place = none ∧
        ∃ time, (c.keep name build).2.files.at? place = some (.directory time)) ∨
      (place = c.files.target (c.config.artifactPath name) ∧
        (c.keep name build).2.files.at? place =
          some (.file (Text.bytes build.text).toByteArray (build.stamp.getD
            (c.files.makeDirectories c.config.cacheRoot).now))) := by
  have hmade := FileSystem.at?_makeDirectories c.files c.config.cacheRoot place
  unfold keep
  dsimp only
  split
  · rcases hmade with h | h
    · exact Or.inl h
    · exact Or.inr (Or.inl h)
  · next files hw =>
    have hwrite := (FileSystem.of_write? hw).2 place
    rw [FileSystem.target_congr (FileSystem.current_makeDirectories ..)] at hwrite
    rw [files_report]
    dsimp only
    rw [hwrite]
    by_cases hp : place = c.files.target (c.config.artifactPath name)
    · exact Or.inr (Or.inr ⟨hp, by rw [if_pos hp]⟩)
    · rw [if_neg hp]
      rcases hmade with h | h
      · exact Or.inl h
      · exact Or.inr (Or.inl h)

/-! ## Getting -/

theorem get_cases (c : Cache) (name : Text) :
    (∃ e, c.get name = (.error e, c) ∧
      (c.contains name = true → Build.ofFiles c.config c.files name = .error e)) ∨
    (∃ text, c.get name = (.ok text, c) ∧ isTemplateName name = true ∧
      c.config.freshText? c.files (c.config.sourceFile name) (c.config.artifactPath name) =
        some text) ∨
    (∃ build, isTemplateName name = true ∧ Build.ofFiles c.config c.files name = .ok build ∧
      c.get name = ((c.keep name build).1.map fun _ => build.text, (c.keep name build).2)) := by
  unfold get contains Config.sourcePath
  by_cases hname : isTemplateName name = true
  · rw [if_pos hname]
    dsimp only
    by_cases hfile : c.files.isFile (c.config.sourceFile name) = true
    · rw [if_pos hfile]
      cases hfresh : c.config.freshText? c.files (c.config.sourceFile name)
          (c.config.artifactPath name) with
      | some text => exact Or.inr (Or.inl ⟨text, rfl, hname, rfl⟩)
      | none =>
          dsimp only
          cases hbuild : Build.ofFiles c.config c.files name with
          | error e => exact Or.inl ⟨e, rfl, fun _ => rfl⟩
          | ok build =>
              refine Or.inr (Or.inr ⟨build, hname, rfl, ?_⟩)
              dsimp only
              rcases hkeep : c.keep name build with ⟨e | ⟨⟩, kept⟩ <;> rfl
    · exact Or.inl ⟨_, by rw [if_neg hfile], fun h => absurd h (by simp [hfile])⟩
  · exact Or.inl ⟨_, by rw [if_neg hname], fun h => absurd h (by simp [hname])⟩

theorem config_get (c : Cache) (name : Text) : (c.get name).2.config = c.config := by
  rcases get_cases c name with ⟨e, hget, -⟩ | ⟨text, hget, -, -⟩ | ⟨build, -, -, hget⟩
  · rw [hget]
  · rw [hget]
  · rw [hget, config_keep]

/-! ## Clearing -/

theorem clear_leaves (c : Cache) :
    c.clear.2.config = c.config ∧ c.clear.2.files.current = c.files.current ∧
      ∀ place, c.clear.2.files.at? place = c.files.at? place ∨
        c.files.target c.config.cacheRoot <:+ place ∧ c.clear.2.files.at? place = none := by
  unfold clear
  dsimp only
  split
  · exact ⟨rfl, rfl, fun _ => Or.inl rfl⟩
  · exact ⟨rfl, rfl, fun _ => Or.inl rfl⟩
  · next root hw =>
    split
    · exact ⟨rfl, rfl, fun _ => Or.inl rfl⟩
    · split
      · rw [config_report, files_report]
        refine ⟨rfl, FileSystem.current_removeAll .., fun place => ?_⟩
        rw [← FileSystem.eq_target_of_walk hw]
        exact FileSystem.at?_removeAll ..
      · exact ⟨rfl, rfl, fun _ => Or.inl rfl⟩

end Cache

end Stencil
