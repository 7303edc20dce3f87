import Stencil.Proofs.Cache.Sources

/-!
# Reuse

A get reuses an artifact if it succeeds and neither builds anything nor changes
a file.  Whether it would is foreseen from the files alone: the artifact is
fresh, and the source is a file.  Freshness by itself does not tell, since it
asks for the time of the source and not for what it is.
-/

namespace Stencil

namespace Cache

variable {c : Cache} {name : Text}

structure Reuses (c : Cache) (name text : Text) : Prop where
  result : (c.get name).1 = .ok text
  builds : (c.get name).2.builds = c.builds
  files : (c.get name).2.files = c.files

/-! ## What tells a build from reuse -/

theorem builds_report (c : Cache) (e : Event) : (c.report e).builds = c.builds := by
  unfold report
  split <;> rfl

theorem builds_keep {build : Build} (h : (c.keep name build).1 = .ok ()) :
    (c.keep name build).2.builds = c.builds + 1 := by
  unfold keep at h ⊢
  dsimp only at h ⊢
  split at h
  · cases h
  · rw [builds_report]

/-! ## What a get finds -/

theorem contains_iff : c.contains name = true ↔
    isTemplateName name = true ∧ c.files.isFile (c.config.sourceFile name) = true := by
  rw [contains, Bool.and_eq_true]

theorem isFresh_iff : c.isFresh name = true ↔ isTemplateName name = true ∧
    ∃ text, c.config.freshText? c.files (c.config.sourceFile name) (c.config.artifactPath name) =
      some text := by
  rw [isFresh, Config.isFresh, Bool.and_eq_true, Option.isSome_iff_exists]

theorem get_of_freshText? {text : Text} (hcontains : c.contains name = true)
    (hfresh : c.config.freshText? c.files (c.config.sourceFile name) (c.config.artifactPath name) =
      some text) : c.get name = (.ok text, c) := by
  obtain ⟨hname, hfile⟩ := contains_iff.1 hcontains
  simp [get, Config.sourcePath, hname, hfile, hfresh]

theorem get_eq_ok_cases {text : Text} (h : (c.get name).1 = .ok text) :
    (c.get name = (.ok text, c) ∧
      c.config.freshText? c.files (c.config.sourceFile name) (c.config.artifactPath name) =
        some text) ∨
    (∃ build, Build.ofFiles c.config c.files name = .ok build ∧ build.text = text ∧
      (c.keep name build).1 = .ok () ∧ c.get name = (.ok text, (c.keep name build).2)) := by
  rcases get_cases c name with ⟨e, hget, -⟩ | ⟨found, hget, -, hfresh⟩ | ⟨build, -, hbuild, hget⟩
  · rw [hget] at h
    cases h
  · rw [hget] at h
    cases h
    exact Or.inl ⟨hget, hfresh⟩
  · cases hkept : (c.keep name build).1 with
    | error e => simp [hget, hkept, Except.map] at h
    | ok =>
        rw [hkept] at hget
        rw [hget] at h
        cases h
        exact Or.inr ⟨build, hbuild, rfl, hkept, hget⟩

theorem reuses_iff {text : Text} : c.Reuses name text ↔ c.contains name = true ∧
    c.config.freshText? c.files (c.config.sourceFile name) (c.config.artifactPath name) =
      some text := by
  constructor
  · rintro ⟨hresult, hbuilds, -⟩
    refine ⟨contains_of_get hresult, ?_⟩
    rcases get_eq_ok_cases hresult with ⟨-, hfresh⟩ | ⟨build, -, -, hkept, hget⟩
    · exact hfresh
    · -- what was kept would have been counted
      rw [hget, builds_keep hkept] at hbuilds
      omega
  · rintro ⟨hcontains, hfresh⟩
    have hget := get_of_freshText? hcontains hfresh
    constructor <;> rw [hget]

/-! ## What freshness tells of reuse -/

theorem exists_reuses_iff : (∃ text, c.Reuses name text) ↔
    c.isFresh name = true ∧ c.files.isFile (c.config.sourceFile name) = true := by
  simp only [reuses_iff, contains_iff, isFresh_iff]
  constructor
  · rintro ⟨text, ⟨hname, hfile⟩, hfresh⟩
    exact ⟨⟨hname, text, hfresh⟩, hfile⟩
  · rintro ⟨⟨hname, text, hfresh⟩, hfile⟩
    exact ⟨text, ⟨hname, hfile⟩, hfresh⟩

theorem isDirectory_of_isFresh (h : c.isFresh name = true) :
    c.files.isDirectory (c.config.sourceFile name) =
      !c.files.isFile (c.config.sourceFile name) := by
  obtain ⟨-, text, htext⟩ := isFresh_iff.1 h
  obtain ⟨artifact, -, -, hsource, -⟩ := Config.freshText?_eq_some_iff.1 htext
  obtain ⟨e, he, -⟩ := notAfter_iff.1 hsource
  rw [FileSystem.isDirectory, FileSystem.isFile, he]
  exact e.isDirectory_eq_not_isFile

/-- How far freshness foresees reuse.  An artifact that is fresh is not reused just if its source
is a directory by now; a get fails then. -/
structure IsForeseen (c : Cache) (name : Text) : Prop where
  reused : (∃ text, c.Reuses name text) ↔
    c.isFresh name = true ∧ c.files.isFile (c.config.sourceFile name) = true
  shown : ∀ text, c.Reuses name text →
    c.files.readText (c.config.artifactPath name) = .ok text
  refused : c.isFresh name = true → c.files.isDirectory (c.config.sourceFile name) = true →
    c.get name = (.error (.templateNotFound name (c.config.sourceFile name)), c)
  agrees_iff : (c.isFresh name = true ↔ ∃ text, c.Reuses name text) ↔
    ¬ (c.isFresh name = true ∧ c.files.isDirectory (c.config.sourceFile name) = true)

theorem isForeseen (c : Cache) (name : Text) : c.IsForeseen name where
  reused := exists_reuses_iff
  shown text hreuses := by
    obtain ⟨e, he, htext, -⟩ := Config.freshText?_eq_some_iff.1 (reuses_iff.1 hreuses).2
    exact FileSystem.readText_eq_ok_iff.2 ⟨e, he, htext⟩
  refused hfresh hdirectory := by
    refine get_of_not_contains ?_
    rw [isDirectory_of_isFresh hfresh, Bool.not_eq_true'] at hdirectory
    rw [contains, hdirectory, Bool.and_false]
  agrees_iff := by
    rw [exists_reuses_iff]
    by_cases hfresh : c.isFresh name = true
    · simp [hfresh, isDirectory_of_isFresh hfresh]
    · simp [hfresh]

end Cache

/-! ## A directory in the place of a source -/

namespace Replaced

def cache : Cache where
  config := Sample.config
  files :=
    ((((FileSystem.empty.put ['v'] [] (.directory 0)).put ['c'] [] (.directory 0)).put
      ['p', '.', 't'] [['v']] (.directory 5)).write? (Sample.config.artifactPath ['p'])
        (Text.bytes ['o', 'l', 'd']).toByteArray 5).getD .empty
  builds := 1
  events := []

end Replaced

theorem Cache.not_reuses_of_isFresh :
    ¬ (Replaced.cache.isFresh ['p'] = true ↔ ∃ text, Replaced.cache.Reuses ['p'] text) := by
  have hfresh : Replaced.cache.isFresh ['p'] = true := by decide +kernel
  have hfailed : (Replaced.cache.get ['p']).1.toOption = none := by decide +kernel
  intro hforeseen
  obtain ⟨text, hreuses⟩ := hforeseen.1 hfresh
  rw [hreuses.result] at hfailed
  cases hfailed

end Stencil
