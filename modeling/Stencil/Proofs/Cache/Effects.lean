import Stencil.Proofs.Cache.Reuse
import Stencil.Proofs.Storage.Changes

/-!
# What a get leaves behind

A get looks for everything that can go wrong before it writes, so a get that
fails leaves every file as it was and counts nothing.  A get that succeeds
writes the one file of its artifact, or no file at all.
-/

namespace Stencil

/-- No file was made, changed or removed, except in certain places. -/
def FileSystem.KeepsFiles (before after : FileSystem) (written : Set Place) : Prop :=
  ∀ place ∉ written, ∀ e : Entry, e.isFile = true →
    (after.at? place = some e ↔ before.at? place = some e)

namespace FileSystem

variable {before after : FileSystem} {written : Set Place} {p : Path}

theorem KeepsFiles.refl (fs : FileSystem) (written : Set Place) : fs.KeepsFiles fs written :=
  fun _ _ _ _ => Iff.rfl

theorem keepsFiles_makeDirectories (fs : FileSystem) (p : Path) (written : Set Place) :
    fs.KeepsFiles (fs.makeDirectories p) written := by
  intro place _ e hfile
  rcases fs.at?_makeDirectories p place with hsame | ⟨-, hnone, time, hmade⟩
  · rw [hsame]
  · -- what is new is a directory
    rw [hnone, hmade]
    refine ⟨fun h => ?_, fun h => by cases h⟩
    cases h
    cases hfile

theorem KeepsFiles.write? {bytes : ByteArray} {time : Int} {between : FileSystem}
    (h : before.KeepsFiles between {between.target p})
    (hwrite : between.write? p bytes time = some after) :
    before.KeepsFiles after {between.target p} := by
  intro place hplace e hfile
  rw [(of_write? hwrite).2, if_neg (Set.mem_singleton_iff.not.1 hplace)]
  exact h place hplace e hfile

theorem readText_of_write? {t : Text} {time : Int}
    (h : before.write? p (Text.bytes t).toByteArray time = some after) :
    after.readText p = .ok t :=
  readText_eq_ok_iff.2 ⟨_, find?_of_write? h, Text.ofBytes?_bytes t⟩

end FileSystem

namespace Cache

variable {c : Cache} {name : Text}

def Writes (c : Cache) (name text : Text) (after : FileSystem) : Prop :=
  ∃ time, (c.files.makeDirectories c.config.cacheRoot).write? (c.config.artifactPath name)
    (Text.bytes text).toByteArray time = some after

theorem Writes.keepsFiles {text : Text} {after : FileSystem} (h : c.Writes name text after) :
    c.files.KeepsFiles after {c.files.target (c.config.artifactPath name)} := by
  obtain ⟨time, hwrite⟩ := h
  have htarget := FileSystem.target_congr
    (c.files.current_makeDirectories c.config.cacheRoot) (c.config.artifactPath name)
  have hmade := c.files.keepsFiles_makeDirectories c.config.cacheRoot
    {(c.files.makeDirectories c.config.cacheRoot).target (c.config.artifactPath name)}
  rw [← htarget]
  exact hmade.write? hwrite

theorem Writes.readText {text : Text} {after : FileSystem} (h : c.Writes name text after) :
    after.readText (c.config.artifactPath name) = .ok text := by
  obtain ⟨time, hwrite⟩ := h
  exact FileSystem.readText_of_write? hwrite

theorem keep_eq_error_or_writes (c : Cache) (name : Text) (build : Build) :
    (c.keep name build = (.error (.writeFailed (c.config.artifactPath name)),
      { c with files := c.files.makeDirectories c.config.cacheRoot })) ∨
    ((c.keep name build).1 = .ok () ∧
      c.Writes name build.text (c.keep name build).2.files) := by
  unfold keep Writes
  dsimp only
  split
  · exact Or.inl rfl
  · next files hwrite =>
    refine Or.inr ⟨rfl, build.stamp.getD (c.files.makeDirectories c.config.cacheRoot).now, ?_⟩
    rw [files_report]
    exact hwrite

/-! ## Failures -/

theorem get_eq_error_cases {e : Failure} (h : (c.get name).1 = .error e) :
    (c.get name).2 = c ∨ e = .writeFailed (c.config.artifactPath name) ∧
      (c.get name).2 = { c with files := c.files.makeDirectories c.config.cacheRoot } := by
  rcases get_cases c name with ⟨e', hget, -⟩ | ⟨text, hget, -⟩ | ⟨build, -, -, hget⟩
  · exact Or.inl (by rw [hget])
  · rw [hget] at h
    cases h
  · rcases keep_eq_error_or_writes c name build with hkeep | ⟨hkept, -⟩
    · rw [hget, hkeep] at h ⊢
      cases h
      exact Or.inr ⟨rfl, rfl⟩
    · rw [hget, hkept] at h
      cases h

/-! ## Successes -/

theorem get_eq_ok_writes {text : Text} (h : (c.get name).1 = .ok text) :
    (c.isFresh name = true ∧ (c.get name).2 = c ∧
      c.files.readText (c.config.artifactPath name) = .ok text) ∨
    (c.isFresh name = false ∧ (c.get name).2.builds = c.builds + 1 ∧
      c.Writes name text (c.get name).2.files) := by
  have hcontains := contains_of_get h
  cases hfresh : c.config.freshText? c.files (c.config.sourceFile name)
      (c.config.artifactPath name) with
  | some found =>
      have hget := get_of_freshText? hcontains hfresh
      obtain ⟨e, he, htext, -⟩ := Config.freshText?_eq_some_iff.1 hfresh
      rw [hget] at h ⊢
      cases h
      exact Or.inl ⟨isFresh_iff.2 ⟨(contains_iff.1 hcontains).1, text, hfresh⟩, rfl,
        FileSystem.readText_eq_ok_iff.2 ⟨e, he, htext⟩⟩
  | none =>
      have hstale : c.isFresh name = false := by
        rw [isFresh, Config.isFresh, hfresh, Option.isSome_none, Bool.and_false]
      rcases get_eq_ok_cases h with ⟨-, hfound⟩ | ⟨build, -, rfl, hkept, hget⟩
      · rw [hfresh] at hfound
        cases hfound
      · rcases keep_eq_error_or_writes c name build with hkeep | ⟨-, hwrites⟩
        · rw [hkeep] at hkept
          cases hkept
        · have hsame : (c.get name).2 = (c.keep name build).2 := by rw [hget]
          rw [hsame]
          exact Or.inr ⟨hstale, builds_keep hkept, hwrites⟩

/-! ## A get -/

/-- A get does all that it is for, or nothing that matters. -/
structure IsAtomic (c : Cache) (name : Text) : Prop where
  failed : ∀ e, (c.get name).1 = .error e →
    c.files.KeepsFiles (c.get name).2.files ∅ ∧ (c.get name).2.builds = c.builds
  succeeded : ∀ text, (c.get name).1 = .ok text →
    c.files.KeepsFiles (c.get name).2.files {c.files.target (c.config.artifactPath name)} ∧
      (c.get name).2.files.readText (c.config.artifactPath name) = .ok text
  counted : ∀ text, (c.get name).1 = .ok text →
    (c.isFresh name = true ∧ (c.get name).2 = c) ∨
      (c.isFresh name = false ∧ (c.get name).2.builds = c.builds + 1 ∧
        c.Writes name text (c.get name).2.files)

theorem isAtomic (c : Cache) (name : Text) : c.IsAtomic name where
  failed e h := by
    rcases get_eq_error_cases h with hsame | ⟨-, hmade⟩
    · rw [hsame]
      exact ⟨.refl _ _, rfl⟩
    · rw [hmade]
      exact ⟨c.files.keepsFiles_makeDirectories _ _, rfl⟩
  succeeded text h := by
    rcases get_eq_ok_writes h with ⟨-, hsame, hshown⟩ | ⟨-, -, hwrites⟩
    · rw [hsame]
      exact ⟨.refl _ _, hshown⟩
    · exact ⟨hwrites.keepsFiles, hwrites.readText⟩
  counted text h := by
    rcases get_eq_ok_writes h with ⟨hfresh, hsame, -⟩ | hwritten
    · exact Or.inl ⟨hfresh, hsame⟩
    · exact Or.inr hwritten

end Cache

end Stencil
