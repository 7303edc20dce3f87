import Stencil.Proofs.Cache.Collision
import Stencil.Proofs.Cache.Order
import Stencil.Proofs.Storage.Listing

/-!
# Which templates are found

The templates are told by the names on the way to each file below the view
root, and a source is looked for by the name of its template.  Both lead to the
same files: a template is found just if its source is a file, unless the path of
the source is too long to be followed.  Such a template is found if the path of
its directory is not too long, and then getting all templates fails.
-/

namespace Stencil

namespace Config

variable {c : Config} {files : FileSystem} {name : Text} {way : List Text}

def sourceWay (c : Config) (name : Text) : List Text :=
  Text.splitOn Path.slash (name ++ '.' :: c.templateExtension)

section

variable (hslash : Path.slash ∉ c.templateExtension)
include hslash

theorem sourceWay_eq {front : List Text} {last : Text}
    (hname : Text.splitOn Path.slash name = front ++ [last]) :
    c.sourceWay name = front ++ [last ++ '.' :: c.templateExtension] := by
  have hextension : Path.slash ∉ '.' :: c.templateExtension := by
    rw [List.mem_cons, not_or]
    exact ⟨by decide, hslash⟩
  exact Text.splitOn_append hname (Text.splitOn_of_notMem hextension)

theorem dropLast_sourceWay (name : Text) :
    (c.sourceWay name).dropLast = (Text.splitOn Path.slash name).dropLast := by
  obtain ⟨front, last, hname⟩ := Text.exists_splitOn_eq_concat Path.slash name
  rw [sourceWay_eq hslash hname, hname, List.dropLast_concat, List.dropLast_concat]

theorem isStep_of_mem_sourceWay (h : isTemplateName name = true) {part : Text}
    (hpart : part ∈ c.sourceWay name) : Path.IsStep part := by
  obtain ⟨front, last, hname⟩ := Text.exists_splitOn_eq_concat Path.slash name
  have hnotMem := Text.notMem_of_mem_splitOn hpart
  rw [sourceWay_eq hslash hname] at hpart
  obtain ⟨hempty, hhere, hup⟩ := ne_of_mem_named h hname hpart
  exact ⟨hempty, hhere, hup, hnotMem⟩

theorem sourceFile_eq_along (h : isTemplateName name = true) :
    c.sourceFile name = c.viewRoot.along (c.sourceWay name) := by
  have hne : c.sourceWay name ≠ [] := Text.splitOn_ne_nil _ _
  rw [Path.along_eq_join hne fun _ => isStep_of_mem_sourceWay hslash h, sourceWay,
    Text.join_splitOn, sourceFile]

theorem target_sourceFile_eq (h : isTemplateName name = true) (files : FileSystem) :
    files.target (c.sourceFile name) =
      (c.sourceWay name).reverse ++ files.target c.viewRoot := by
  obtain ⟨front, last, hname⟩ := Text.exists_splitOn_eq_concat Path.slash name
  rw [target_sourceFile h hslash, namedPlace_eq hname, sourceWay_eq hslash hname]
  simp

theorem templateOf?_eq_some_iff (hdot : '.' ∉ c.templateExtension)
    (hway : ∀ part ∈ way, Path.slash ∉ part) :
    c.templateOf? way = some name ↔ isTemplateName name = true ∧ way = c.sourceWay name := by
  constructor
  · intro h
    obtain ⟨hname, -, front, last, hparts, rfl⟩ := way_of_templateOf? h hway
    exact ⟨hname, (sourceWay_eq hslash hparts).symm⟩
  · rintro ⟨hname, rfl⟩
    obtain ⟨front, last, hparts⟩ := Text.exists_splitOn_eq_concat Path.slash name
    have hlast : last ≠ [] :=
      (part_of_isTemplateName hname (hparts ▸ List.mem_concat_self)).1
    have hfile : FileName.split? (last ++ '.' :: c.templateExtension) =
        some (last, c.templateExtension) :=
      FileName.split?_eq_some_iff.2 ⟨rfl, hlast, hdot⟩
    have hjoin : Text.join [Path.slash] (last :: front.reverse).reverse = name := by
      rw [List.reverse_cons, List.reverse_reverse, ← hparts, Text.join_splitOn]
    unfold templateOf?
    rw [sourceWay_eq hslash hparts, List.reverse_append]
    simp only [List.reverse_cons, List.reverse_nil, List.nil_append, List.singleton_append, hfile]
    rw [← List.reverse_cons, hjoin, if_pos ⟨trivial, hname⟩]

end

/-! ## Names and files -/

theorem isFile_sourceFile_iff (hslash : Path.slash ∉ c.templateExtension)
    (hroot : c.viewRoot.text ≠ []) (h : isTemplateName name = true) :
    files.isFile (c.sourceFile name) = true ↔
      (∃ place, files.walk c.viewRoot = .ok place ∧ c.sourceWay name ∈ files.filesBelow place) ∧
        FileSystem.CanFollow (c.sourceFile name) (c.sourceWay name) := by
  have hfind := fun e => @FileSystem.find?_along_eq_some_iff files c.viewRoot (c.sourceWay name) e
    hroot fun _ => isStep_of_mem_sourceWay hslash h
  rw [← sourceFile_eq_along hslash h] at hfind
  rw [FileSystem.isFile, Option.any_eq_true]
  simp only [hfind, FileSystem.mem_filesBelow_iff]
  constructor
  · rintro ⟨e, ⟨⟨place, hplace, hat⟩, hfollow⟩, hfile⟩
    exact ⟨⟨place, hplace, e, hat, hfile⟩, hfollow⟩
  · rintro ⟨⟨place, hplace, e, hat, hfile⟩, hfollow⟩
    exact ⟨e, ⟨⟨place, hplace, hat⟩, hfollow⟩, hfile⟩

structure TellsNames (c : Config) (files : FileSystem) : Prop where
  root : c.viewRoot.text ≠ []
  slash : Path.slash ∉ c.templateExtension
  dot : '.' ∉ c.templateExtension
  proper : files.IsProper

theorem TellsNames.templateOf?_eq_some_iff (h : c.TellsNames files) {place : Place}
    (hway : way ∈ files.filesBelow place) :
    c.templateOf? way = some name ↔ isTemplateName name = true ∧ way = c.sourceWay name :=
  Config.templateOf?_eq_some_iff h.slash h.dot fun _ hpart =>
    (h.proper.of_mem_filesBelow hway hpart).slash

theorem mem_templates_iff (h : c.TellsNames files) :
    name ∈ c.templates files ↔ isTemplateName name = true ∧
      (∃ place, files.walk c.viewRoot = .ok place ∧ c.sourceWay name ∈ files.filesBelow place) ∧
        c.isListed (c.sourceWay name) = true := by
  unfold templates
  cases files.walk c.viewRoot with
  | error fault => simp
  | ok place =>
      simp only [List.mem_filterMap, List.mem_filter, Except.ok.injEq, exists_eq_left']
      constructor
      · rintro ⟨way, ⟨hmem, hlisted⟩, htemplate⟩
        obtain ⟨hname, rfl⟩ := (h.templateOf?_eq_some_iff hmem).1 htemplate
        exact ⟨hname, hmem, hlisted⟩
      · rintro ⟨hname, hmem, hlisted⟩
        exact ⟨_, ⟨hmem, hlisted⟩, (h.templateOf?_eq_some_iff hmem).2 ⟨hname, rfl⟩⟩

theorem nodup_templates (h : c.TellsNames files) : (c.templates files).Nodup := by
  unfold templates
  cases files.walk c.viewRoot with
  | error fault => exact List.nodup_nil
  | ok place =>
      have hways := List.Pairwise.and_mem.1 ((files.nodup_filesBelow place).filter c.isListed)
      refine hways.filterMap _ ?_
      rintro way other ⟨hway, hother, hne⟩ name hname _ hname' rfl
      obtain ⟨-, hsame⟩ := (h.templateOf?_eq_some_iff (List.mem_filter.1 hway).1).1 hname
      obtain ⟨-, hsame'⟩ := (h.templateOf?_eq_some_iff (List.mem_filter.1 hother).1).1 hname'
      exact hne (hsame.trans hsame'.symm)

/-- The source of a template is a file in a directory that can be looked into by its path, but the
path of the file itself cannot be followed. -/
structure IsOutOfReach (c : Config) (files : FileSystem) (name : Text) : Prop where
  root : files.isDirectory c.viewRoot = true
  directory : Text.utf8Length
    (c.viewRoot.along (Text.splitOn Path.slash name).dropLast).text ≤ FileSystem.pathLimit
  file : ∃ e, files.at? (files.target (c.sourceFile name)) = some e ∧ e.isFile = true
  long : FileSystem.pathLimit < Text.utf8Length (c.sourceFile name).text

theorem utf8Length_directory_le (hslash : Path.slash ∉ c.templateExtension)
    (h : isTemplateName name = true) :
    Text.utf8Length (c.viewRoot.along (Text.splitOn Path.slash name).dropLast).text ≤
      Text.utf8Length (c.sourceFile name).text := by
  obtain ⟨front, last, hname⟩ := Text.exists_splitOn_eq_concat Path.slash name
  have hlast := isStep_of_mem_sourceWay hslash h
    (sourceWay_eq hslash hname ▸ List.mem_concat_self)
  rw [sourceFile_eq_along hslash h, sourceWay_eq hslash hname, hname, List.dropLast_concat,
    Path.along_concat]
  exact Path.utf8Length_join_le hlast.isAbsolute

theorem mem_templates_iff_isFile (h : c.TellsNames files) (name : Text) :
    name ∈ c.templates files ↔ isTemplateName name = true ∧
      (files.isFile (c.sourceFile name) = true ∨ c.IsOutOfReach files name) := by
  rw [mem_templates_iff h]
  refine and_congr_right fun hname => ?_
  have hlisted : c.isListed (c.sourceWay name) = true ↔ Text.utf8Length
      (c.viewRoot.along (Text.splitOn Path.slash name).dropLast).text ≤ FileSystem.pathLimit := by
    rw [isListed, decide_eq_true_eq, dropLast_sourceWay h.slash]
  rw [isFile_sourceFile_iff h.slash h.root hname, hlisted]
  constructor
  · rintro ⟨⟨place, hplace, hmem⟩, hdirectory⟩
    by_cases hshort : Text.utf8Length (c.sourceFile name).text ≤ FileSystem.pathLimit
    · have hparts := fun part (hpart : part ∈ c.sourceWay name) =>
        h.proper.of_mem_filesBelow hmem hpart
      exact Or.inl ⟨⟨place, hplace, hmem⟩, fun part hpart => (hparts part hpart).nul,
        fun part hpart => (hparts part hpart).short, hshort⟩
    · right
      obtain ⟨e, hat, hfile⟩ := FileSystem.mem_filesBelow_iff.1 hmem
      have hne : place ≠ (c.sourceWay name).reverse ++ place := by
        simpa [sourceWay] using Text.splitOn_ne_nil _ _
      obtain rfl := FileSystem.eq_target_of_walk hplace
      have hroot := FileSystem.isDirectoryAt_of_suffix hat (List.suffix_append _ _) hne
      refine ⟨?_, hdirectory, ⟨e, ?_, hfile⟩, Nat.lt_of_not_le hshort⟩
      · rw [FileSystem.isDirectory, FileSystem.find?, hplace]
        exact hroot
      · rw [target_sourceFile_eq h.slash hname, hat]
  · rintro (⟨hmem, hfollow⟩ | ⟨hroot, hdirectory, ⟨e, hat, hfile⟩, -⟩)
    · exact ⟨hmem, (utf8Length_directory_le h.slash hname).trans hfollow.path⟩
    · obtain ⟨root, hfind, -⟩ := (Option.any_eq_true _ _).1 hroot
      rw [target_sourceFile_eq h.slash hname] at hat
      exact ⟨⟨_, FileSystem.walk_of_find? hfind, FileSystem.mem_filesBelow_iff.2 ⟨e, hat, hfile⟩⟩,
        hdirectory⟩

end Config

namespace Cache

variable {c : Cache}

theorem utf8Length_of_getAll {names : List Text} (h : (c.getAll names).1 = .ok ()) :
    ∀ name ∈ names,
      Text.utf8Length (c.config.sourceFile name).text ≤ FileSystem.pathLimit := by
  induction names generalizing c with
  | nil => simp
  | cons first names ih =>
      obtain ⟨⟨text, hfirst⟩, hrest⟩ := getAll_cons_eq_ok_iff.1 h
      have hlater := ih hrest
      rw [config_get] at hlater
      refine List.forall_mem_cons.2 ⟨?_, hlater⟩
      obtain ⟨-, hfile⟩ := contains_iff.1 (contains_of_get hfirst)
      obtain ⟨e, he, -⟩ := (Option.any_eq_true _ _).1 hfile
      exact (FileSystem.walk_eq_ok_iff.1 (FileSystem.walk_of_find? he)).1.2

theorem warm_eq_ok_iff {n : Nat} :
    c.warm.1 = .ok n ↔
      (c.getAll (c.config.templates c.files)).1 = .ok () ∧
        n = (c.config.templates c.files).length := by
  unfold warm
  dsimp only
  rcases c.getAll (c.config.templates c.files) with ⟨e | ⟨⟩, c'⟩ <;> simp [eq_comm]

/-- What getting all templates goes through, and when it can succeed. -/
structure IsSurveyed (c : Cache) : Prop where
  nodup : (c.config.templates c.files).Nodup
  mem_iff : ∀ name, name ∈ c.config.templates c.files ↔ isTemplateName name = true ∧
    (c.files.isFile (c.config.sourceFile name) = true ∨ c.config.IsOutOfReach c.files name)
  /-- A template that is out of reach lets it fail. -/
  warmed : ∀ n, c.warm.1 = .ok n → n = (c.config.templates c.files).length ∧
    ∀ name, name ∈ c.config.templates c.files ↔
      isTemplateName name = true ∧ c.files.isFile (c.config.sourceFile name) = true

theorem isSurveyed {start : FileSystem} (hvalid : c.config.validate start = .ok ())
    (hdot : '.' ∉ c.config.templateExtension) (hproper : c.files.IsProper) : c.IsSurveyed := by
  obtain ⟨hext, -, -, hroot⟩ := Config.validate_eq_ok_iff.1 hvalid
  obtain ⟨e, he, -⟩ := (Option.any_eq_true _ _).1 hroot
  have hnamed := (FileSystem.walk_eq_ok_iff.1 (FileSystem.walk_of_find? he)).2.1
  have htells : c.config.TellsNames c.files :=
    ⟨hnamed, Config.notMem_of_checkExtension hext, hdot, hproper⟩
  have hmem := Config.mem_templates_iff_isFile htells
  refine ⟨Config.nodup_templates htells, hmem, fun n hwarm => ?_⟩
  obtain ⟨hall, hn⟩ := warm_eq_ok_iff.1 hwarm
  refine ⟨hn, fun name => ⟨fun hname => ?_, ?_⟩⟩
  · obtain ⟨htemplate, hfile | hfar⟩ := (hmem name).1 hname
    · exact ⟨htemplate, hfile⟩
    · -- a get would have had to find its source
      exact absurd (utf8Length_of_getAll hall name hname) (Nat.not_le_of_lt hfar.long)
  · exact fun ⟨htemplate, hfile⟩ => (hmem name).2 ⟨htemplate, Or.inl hfile⟩

end Cache

theorem Paired.proper :
    (cache.config.validate cache.files).toOption = some () ∧ cache.files.IsProper := by
  decide +kernel

theorem Cache.isSurveyed_paired :
    (Paired.cache.config.validate Paired.cache.files = .ok () ∧
      '.' ∉ Paired.cache.config.templateExtension ∧ Paired.cache.files.IsProper) ∧
      Paired.cache.IsSurveyed :=
  ⟨⟨Siblings.eq_ok_of_toOption Paired.proper.1, by decide, Paired.proper.2⟩,
    Cache.isSurveyed (Siblings.eq_ok_of_toOption Paired.proper.1) (by decide)
      Paired.proper.2⟩

/-! ## A template out of reach -/

namespace Slashed

def config : Config :=
  ⟨⟨"views".toList ++ List.replicate 4088 '/'⟩, ⟨"cache".toList⟩, "tmpl".toList, "tmplc".toList,
    false⟩

def files : FileSystem :=
  (FileSystem.empty.put "views".toList [] (.directory 0)).put "p.tmpl".toList ["views".toList]
    (.file (Text.bytes ['x']).toByteArray 1000)

def cache : Cache := .new config files

theorem listed_without_source :
    (config.validate files).toOption = some () ∧ files.IsProper ∧
      ['p'] ∈ config.templates files ∧ files.isFile (config.sourceFile ['p']) = false := by
  decide +kernel

end Slashed

theorem Cache.not_forall_mem_templates_iff :
    ¬∀ (c : Cache) (start : FileSystem), c.config.validate start = .ok () →
      '.' ∉ c.config.templateExtension → c.files.IsProper →
        ∀ name, name ∈ c.config.templates c.files ↔
          isTemplateName name = true ∧ c.files.isFile (c.config.sourceFile name) = true := by
  intro h
  obtain ⟨hvalid, hproper, hfound, hmissing⟩ := Slashed.listed_without_source
  obtain ⟨-, hfile⟩ := (h Slashed.cache Slashed.files (Siblings.eq_ok_of_toOption hvalid)
    (by decide) hproper ['p']).1 hfound
  have hfile' : Slashed.files.isFile (Slashed.config.sourceFile ['p']) = true := hfile
  rw [hmissing] at hfile'
  cases hfile'

end Stencil
