import Stencil.Proofs.Cache.Collision
import Stencil.Proofs.Cache.Unedited
import Stencil.Proofs.Storage.Alike

/-!
# What an artifact leaves alone

To keep an artifact changes its place, and makes directories on the way to the
cache.  If these are around the cache and outside of the templates, the sources
of templates and the artifacts of others are found as they were.
-/

namespace Stencil

/-! ## The way to the cache -/

/-- Directories that are missing on the way to the cache directory are around it, and none of them
is among the templates. -/
structure Config.HasOwnWay (c : Config) (files : FileSystem) : Prop where
  around : ∀ place ∈ files.way c.cacheRoot, files.at? place = none →
    place <:+ files.target c.cacheRoot
  outside : ∀ place ∈ files.way c.cacheRoot, files.at? place = none →
    ∀ inner, inner ≠ [] → place ≠ inner ++ files.target c.viewRoot

def Config.IsReachedFromAround (c : Config) (files : FileSystem) : Prop :=
  ∀ place ∈ files.way c.cacheRoot, files.at? place = none → place <:+ files.target c.cacheRoot

namespace FileSystem

theorem mem_passed_append {place other : Place} {steps more : List Text}
    (h : other ∈ passed place (steps ++ more)) :
    other ∈ passed place steps ∨ other ∈ passed (steps.foldl advance place) more := by
  induction steps generalizing place with
  | nil => exact Or.inr h
  | cons step steps ih =>
      rcases List.mem_cons.1 h with rfl | h
      · exact Or.inl List.mem_cons_self
      · rcases ih h with h | h
        · exact Or.inl (List.mem_cons_of_mem _ h)
        · exact Or.inr h

theorem of_mem_passed {place other : Place} {steps : List Text}
    (hsteps : ∀ step ∈ steps, step ≠ Path.here ∧ step ≠ Path.up) (h : other ∈ passed place steps) :
    (∃ inner, other = inner ++ place) ∧ other <:+ steps.foldl advance place := by
  induction steps generalizing place with
  | nil =>
      rw [List.mem_singleton.1 h]
      exact ⟨⟨[], rfl⟩, List.suffix_refl _⟩
  | cons step steps ih =>
      obtain ⟨hstep, hrest⟩ := List.forall_mem_cons.1 hsteps
      rcases List.mem_cons.1 h with rfl | h
      · refine ⟨⟨[], rfl⟩, ?_⟩
        rw [foldl_advance hsteps]
        exact List.suffix_append ..
      · rw [advance_of_ne hstep.1 hstep.2] at h
        obtain ⟨⟨inner, hinner⟩, hsuffix⟩ := ih hrest h
        rw [List.foldl_cons, advance_of_ne hstep.1 hstep.2]
        exact ⟨⟨inner ++ [step], by simp [hinner]⟩, hsuffix⟩

theorem suffix_of_mem_passed {place other : Place} {steps : List Text} (hup : Path.up ∉ steps)
    (h : other ∈ passed place steps) : other <:+ steps.foldl advance place := by
  have hlast : ∀ {steps : List Text} {place : Place}, Path.up ∉ steps →
      place <:+ steps.foldl advance place := by
    intro steps
    induction steps with
    | nil => exact fun _ => List.suffix_refl _
    | cons step steps ih =>
        intro place hup
        obtain ⟨hstep, hsteps⟩ := not_or.1 (List.mem_cons.not.1 hup)
        refine List.IsSuffix.trans ?_ (ih hsteps)
        unfold advance
        split
        · exact List.suffix_refl _
        · rw [if_neg (Ne.symm hstep)]
          exact List.suffix_cons ..
  induction steps generalizing place with
  | nil =>
      rw [List.mem_singleton.1 h]
      exact List.suffix_refl _
  | cons step steps ih =>
      rcases List.mem_cons.1 h with rfl | h
      · exact hlast hup
      · exact ih (fun hmem => hup (List.mem_cons_of_mem _ hmem)) h

theorem isDirectoryAt_of_walkFrom {fs : FileSystem} {place last other : Place}
    {steps more : List Text} (h : fs.walkFrom place (steps ++ more) = .ok last) (hmore : more ≠ [])
    (hother : other ∈ passed place steps) : fs.isDirectoryAt other = true := by
  induction steps generalizing place with
  | nil =>
      obtain ⟨step, more, rfl⟩ := List.exists_cons_of_ne_nil hmore
      rw [List.mem_singleton.1 hother]
      exact (walkFrom_cons_eq_ok_iff.1 h).1
  | cons step steps ih =>
      obtain ⟨hdirectory, -, hrest⟩ := walkFrom_cons_eq_ok_iff.1 h
      rcases List.mem_cons.1 hother with rfl | hother
      · exact hdirectory
      · exact ih hrest hother

end FileSystem

namespace Config

variable {c : Config} {files : FileSystem} {name : Text} {place : Place}

theorem of_mem_way_sourceFile (hext : Path.slash ∉ c.templateExtension)
    (hname : isTemplateName name = true) (h : place ∈ files.way (c.sourceFile name)) :
    place ∈ files.way c.viewRoot ∨
      (∃ inner, inner ≠ [] ∧ place = inner ++ files.target c.viewRoot) ∧
        place <:+ files.target (c.sourceFile name) := by
  obtain ⟨front, last, hsplit⟩ := Text.exists_splitOn_eq_concat Path.slash name
  have hpieces : (c.sourceFile name).pieces =
      c.viewRoot.pieces ++ (front ++ [last ++ '.' :: c.templateExtension]) := by
    rw [pieces_sourceFile hname hsplit (Text.splitOn_of_notMem hext), List.append_assoc]
    rfl
  rw [FileSystem.way, hpieces, start_sourceFile hname] at h
  rcases FileSystem.mem_passed_append h with h | h
  · exact Or.inl h
  · obtain ⟨⟨inner, hinner⟩, hsuffix⟩ :=
      FileSystem.of_mem_passed (fun step hstep => (ne_of_mem_named hname hsplit hstep).2) h
    rw [← FileSystem.target_eq_foldl_pieces] at hinner hsuffix
    rw [foldl_advance_named hname hsplit, ← target_sourceFile hname hext] at hsuffix
    by_cases hnil : inner = []
    · left
      rw [hinner, hnil]
      exact files.target_mem_way c.viewRoot
    · exact Or.inr ⟨⟨inner, hnil, hinner⟩, hsuffix⟩

theorem isDirectoryAt_of_mem_way_viewRoot (hext : Path.slash ∉ c.templateExtension)
    (hname : isTemplateName name = true) (hfile : files.isFile (c.sourceFile name) = true)
    (h : place ∈ files.way c.viewRoot) : files.isDirectoryAt place = true := by
  obtain ⟨e, he, -⟩ := (Option.any_eq_true ..).1 hfile
  have hwalk := FileSystem.walk_of_find? he
  obtain ⟨front, last, hsplit⟩ := Text.exists_splitOn_eq_concat Path.slash name
  obtain ⟨more, hne, hmore⟩ : ∃ more, more ≠ [] ∧ (c.sourceFile name).steps =
      c.viewRoot.pieces ++ more := by
    unfold Path.steps
    rw [pieces_sourceFile hname hsplit (Text.splitOn_of_notMem hext)]
    split
    · exact ⟨front ++ (last ++ '.' :: c.templateExtension) :: [Path.here], by simp, by simp⟩
    · exact ⟨front ++ [last ++ '.' :: c.templateExtension], by simp, by simp⟩
  unfold FileSystem.walk at hwalk
  split at hwalk
  · cases hwalk
  · split at hwalk
    · cases hwalk
    · rw [hmore, start_sourceFile hname] at hwalk
      exact FileSystem.isDirectoryAt_of_walkFrom hwalk hne h

theorem isReachedFromAround_of_up_notMem (hup : Path.up ∉ c.cacheRoot.pieces)
    (files : FileSystem) : c.IsReachedFromAround files := by
  intro place hplace _
  rw [FileSystem.target_eq_foldl_pieces]
  exact FileSystem.suffix_of_mem_passed hup hplace

theorem exists_at?_of_mem_way (haround : c.IsReachedFromAround files)
    (hext : Path.slash ∉ c.artifactExtension) {e : Entry}
    (he : files.at? (files.target (c.artifactPath name)) = some e)
    (hplace : place ∈ files.way (c.artifactPath name)) : ∃ e', files.at? place = some e' := by
  have htarget := target_artifactPath hext name files
  rw [← Option.ne_none_iff_exists']
  intro hnone
  have hsuffix : place <:+ files.target (c.artifactPath name) := by
    rcases of_mem_way_sourceFile (c := c.ofArtifacts) hext
      (isTemplateName_artifactKey name) hplace with hplace | ⟨-, hsuffix⟩
    · rw [htarget]
      exact (haround place hplace hnone).trans (List.suffix_cons ..)
    · exact hsuffix
  have hne : place ≠ files.target (c.artifactPath name) := by
    rintro rfl
    rw [he] at hnone
    cases hnone
  obtain ⟨e', he', -⟩ := FileSystem.exists_of_isDirectoryAt
    (FileSystem.isDirectoryAt_of_suffix he hsuffix hne)
  rw [hnone] at he'
  cases he'

/-- Nothing changes but that directories are made on the way to the cache directory, and files
are written elsewhere than in `kept`. -/
def AddsAround (c : Config) (kept : Place) (before after : FileSystem) : Prop :=
  ∀ place, after.at? place = before.at? place ∨
    (place ∈ before.way c.cacheRoot ∧ before.at? place = none) ∨
    (place ≠ kept ∧ ∃ e, after.at? place = some e ∧ e.isFile = true)

theorem find?_artifactPath_of_addsAround {after : FileSystem}
    (haround : c.IsReachedFromAround files) (hext : Path.slash ∉ c.artifactExtension)
    (hcurrent : after.current = files.current)
    (hadds : c.AddsAround (files.target (c.artifactPath name)) files after) {e : Entry}
    (hafter : after.find? (c.artifactPath name) = some e) :
    files.find? (c.artifactPath name) = some e := by
  have hat := FileSystem.at?_of_find? hafter
  rw [FileSystem.target_congr hcurrent] at hat
  have hbefore : files.at? (files.target (c.artifactPath name)) = some e := by
    rcases hadds (files.target (c.artifactPath name)) with hsame | ⟨hway, hnone⟩ | ⟨hne, -⟩
    · rw [← hsame, hat]
    · -- an artifact is below the cache directory, and what is made is around it
      have hlength := (haround _ hway hnone).length_le
      rw [target_artifactPath hext, List.length_cons] at hlength
      omega
    · exact absurd rfl hne
  have hkeeps : after.KeepsDirectories files (after.way (c.artifactPath name)) := by
    rw [FileSystem.way_congr hcurrent]
    intro other hother hdirectory
    obtain ⟨e', he'⟩ := exists_at?_of_mem_way haround hext hbefore hother
    rcases hadds other with hsame | ⟨-, hnone⟩ | ⟨-, file, hfile, hregular⟩
    · rwa [FileSystem.isDirectoryAt_of_at? hsame] at hdirectory
    · rw [he'] at hnone
      cases hnone
    · rw [FileSystem.isDirectoryAt, hfile, Option.any_some, Entry.isDirectory_eq_not_isFile,
        hregular] at hdirectory
      cases hdirectory
  rw [FileSystem.find?_of_keepsDirectories hcurrent.symm hkeeps hafter,
    FileSystem.target_congr hcurrent, hbefore]

end Config

/-! ## Keeping as storing -/

namespace Cache

variable {c c' : Cache} {name other : Text} {build : Build} {time : Int}

def canKeep (c : Cache) (name : Text) : Bool :=
  (c.files.makeDirectories c.config.cacheRoot).isWritable (c.config.artifactPath name)

theorem keep_cases (htime : build.stamp = some time) :
    ((c.keep name build).1 =
        if c.canKeep name then .ok () else .error (.writeFailed (c.config.artifactPath name))) ∧
      (c.keep name build).2.files = c.files.store c.config.cacheRoot (c.config.artifactPath name)
        (Text.bytes build.text).toByteArray time ∧
      (c.keep name build).2.builds = c.builds + (c.canKeep name).toNat := by
  rw [canKeep, ← FileSystem.isSome_write? _ _ (Text.bytes build.text).toByteArray time]
  unfold keep FileSystem.store
  dsimp only
  rw [htime, Option.getD_some]
  split
  · next hw => simp [hw]
  · next hw => simp [hw, files_report, builds_report]

/-! ## What keeping leaves alone -/

/-- The source of a template is there, and nothing of others is in the way of its artifact. -/
structure KeepsApart (c : Cache) (name : Text) : Prop where
  separate : c.IsSeparate
  ownWay : c.config.HasOwnWay c.files
  contains : c.contains name = true

theorem KeepsApart.isSameOn_source (h : c.KeepsApart name) (build : Build)
    (hother : isTemplateName other = true) :
    FileSystem.IsSameOn (c.config.sourceFile other) c.files (c.keep name build).2.files := by
  have htemplate := Config.notMem_of_checkExtension h.separate.template
  have hartifact := Config.notMem_of_checkExtension h.separate.artifact
  obtain ⟨hname, hfile⟩ := contains_iff.1 h.contains
  refine ⟨current_keep .., fun place hplace => ?_⟩
  rcases Config.of_mem_way_sourceFile htemplate hother hplace with hview |
    ⟨⟨inner, hinner, hbelow⟩, hsuffix⟩
  · -- the source is reached by way of the view root, so all on that way is there
    have hdirectory := Config.isDirectoryAt_of_mem_way_viewRoot htemplate hname hfile hview
    rcases c.at?_keep name build place with hsame | ⟨-, hnone, -⟩ | ⟨-, hkept⟩
    · exact hsame
    · obtain ⟨e, he, -⟩ := FileSystem.exists_of_isDirectoryAt hdirectory
      rw [hnone] at he
      cases he
    · have hafter : (c.keep name build).2.files.isDirectoryAt place = true :=
        isDirectoryAt_keep hdirectory
      rw [FileSystem.isDirectoryAt, hkept] at hafter
      cases hafter
  · rcases c.at?_keep name build place with hsame | ⟨hway, hnone, -⟩ | ⟨heq, -⟩
    · exact hsame
    · exact absurd hbelow (h.ownWay.outside place hway hnone inner hinner)
    · rw [heq, Config.target_artifactPath hartifact] at hsuffix
      exact absurd ((List.suffix_cons ..).trans hsuffix) (h.separate.apart.below other hother)

theorem target_artifactPath_ne (hext : Path.slash ∉ c.config.artifactExtension)
    (hne : c.config.artifactPath name ≠ c.config.artifactPath other) (files : FileSystem) :
    files.target (c.config.artifactPath name) ≠ files.target (c.config.artifactPath other) := by
  rw [Config.target_artifactPath hext, Config.target_artifactPath hext]
  intro heq
  refine hne ?_
  rw [Config.artifactPath, (List.cons.inj heq).1]
  rfl

theorem addsAround_keep {place : Place} (build : Build)
    (hne : place ≠ c.files.target (c.config.artifactPath name)) :
    c.config.AddsAround place c.files (c.keep name build).2.files := by
  intro other
  rcases c.at?_keep name build other with hsame | ⟨hway, hnone, -⟩ | ⟨rfl, hkept⟩
  · exact Or.inl hsame
  · exact Or.inr (Or.inl ⟨hway, hnone⟩)
  · exact Or.inr (Or.inr ⟨hne.symm, _, hkept, rfl⟩)

theorem KeepsApart.at?_artifact (h : c.KeepsApart name) (build : Build)
    (hne : c.config.artifactPath name ≠ c.config.artifactPath other) :
    (c.keep name build).2.files.at? (c.files.target (c.config.artifactPath other)) =
      c.files.at? (c.files.target (c.config.artifactPath other)) := by
  have hext := Config.notMem_of_checkExtension h.separate.artifact
  rcases c.at?_keep name build (c.files.target (c.config.artifactPath other)) with
    hsame | ⟨hway, hnone, -⟩ | ⟨heq, -⟩
  · exact hsame
  · -- an artifact is below the cache directory, and what is made is around it
    have hlength := (h.ownWay.around _ hway hnone).length_le
    rw [Config.target_artifactPath hext, List.length_cons] at hlength
    omega
  · exact absurd heq.symm (target_artifactPath_ne hext hne c.files)

theorem KeepsApart.find?_artifact (h : c.KeepsApart name) (build : Build)
    (hne : c.config.artifactPath name ≠ c.config.artifactPath other) :
    (c.keep name build).2.files.find? (c.config.artifactPath other) =
      c.files.find? (c.config.artifactPath other) := by
  have hext := Config.notMem_of_checkExtension h.separate.artifact
  have hcurrent := current_keep c name build
  cases hbefore : c.files.find? (c.config.artifactPath other) with
  | some e =>
      rw [FileSystem.find?_of_keepsDirectories hcurrent
        (fun _ _ hdirectory => isDirectoryAt_keep hdirectory) hbefore, h.at?_artifact build hne,
        FileSystem.at?_of_find? hbefore]
  | none =>
      rw [Option.eq_none_iff_forall_ne_some]
      intro e hafter
      -- the artifact was there, so its way was too, and it would have been found
      have hfound := Config.find?_artifactPath_of_addsAround h.ownWay.around hext hcurrent
        (addsAround_keep build (target_artifactPath_ne hext hne c.files).symm) hafter
      rw [hbefore] at hfound
      cases hfound

end Cache

theorem Cache.at?_eq_none_of_keep {c : Cache} {name : Text} {build : Build} {place : Place}
    (h : (c.keep name build).2.files.at? place = none) : c.files.at? place = none := by
  rcases c.at?_keep name build place with hsame | ⟨-, hbefore, -⟩ | ⟨-, hkept⟩
  · rw [← hsame, h]
  · exact hbefore
  · rw [h] at hkept
    cases hkept

theorem Config.IsReachedFromAround.keep {c : Cache} (h : c.config.IsReachedFromAround c.files)
    (name : Text) (build : Build) :
    c.config.IsReachedFromAround (c.keep name build).2.files := by
  have hcurrent := Cache.current_keep c name build
  intro place hplace hnone
  rw [FileSystem.way_congr hcurrent] at hplace
  rw [FileSystem.target_congr hcurrent]
  exact h place hplace (Cache.at?_eq_none_of_keep hnone)

theorem Config.HasOwnWay.keep {c : Cache} (h : c.config.HasOwnWay c.files) (name : Text)
    (build : Build) : c.config.HasOwnWay (c.keep name build).2.files := by
  have hcurrent := Cache.current_keep c name build
  constructor
  · exact Config.IsReachedFromAround.keep h.around name build
  · intro place hplace hnone
    rw [FileSystem.way_congr hcurrent] at hplace
    rw [FileSystem.target_congr hcurrent]
    exact h.outside place hplace (Cache.at?_eq_none_of_keep hnone)

end Stencil
