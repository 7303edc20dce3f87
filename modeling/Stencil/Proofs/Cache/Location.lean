import Stencil.Cache.Location
import Stencil.Proofs.Storage.Path

/-!
# Where sources and artifacts lie

An artifact lies in the cache directory itself.  A source lies below the
directory of the templates, and the way to it passes a place from which its
name can be told.
-/

namespace Stencil

/-! ## Names -/

theorem part_of_isTemplateName {name part : Text} (h : isTemplateName name = true)
    (hpart : part ∈ Text.splitOn Path.slash name) :
    part ≠ [] ∧ part ≠ Path.here ∧ part ≠ Path.up := by
  simp only [isTemplateName, Bool.and_eq_true, List.all_eq_true, bne_iff_ne] at h
  obtain ⟨⟨hempty, hhere⟩, hup⟩ := h.2 part hpart
  exact ⟨hempty, hhere, hup⟩

structure IsPart (part : Text) : Prop where
  nonempty : part ≠ []
  here : part ≠ Path.here
  up : part ≠ Path.up
  slash : Path.slash ∉ part
  backslash : '\\' ∉ part

theorem isTemplateName_iff {name : Text} :
    isTemplateName name = true ↔ ∀ part ∈ Text.splitOn Path.slash name, IsPart part := by
  have hne : '\\' ≠ Path.slash := by decide
  constructor
  · intro h part hpart
    obtain ⟨hempty, hhere, hup⟩ := part_of_isTemplateName h hpart
    refine ⟨hempty, hhere, hup, Text.notMem_of_mem_splitOn hpart, fun hmem => ?_⟩
    simp only [isTemplateName, Bool.and_eq_true, Bool.not_eq_true', List.contains_eq_mem,
      decide_eq_false_iff_not] at h
    exact h.1 ((Text.mem_iff_of_splitOn hne).2 ⟨part, hpart, hmem⟩)
  · intro h
    simp only [isTemplateName, Bool.and_eq_true, Bool.not_eq_true', List.contains_eq_mem,
      decide_eq_false_iff_not, List.all_eq_true, bne_iff_ne]
    refine ⟨fun hmem => ?_, fun part hpart => ⟨⟨(h part hpart).nonempty, (h part hpart).here⟩,
      (h part hpart).up⟩⟩
    obtain ⟨part, hpart, hmem⟩ := (Text.mem_iff_of_splitOn hne).1 hmem
    exact (h part hpart).backslash hmem

theorem ne_nil_of_isTemplateName {name : Text} (h : isTemplateName name = true) : name ≠ [] := by
  rintro rfl
  have hempty : [] ∈ Text.splitOn Path.slash [] := by simp [Text.splitOn]
  exact (part_of_isTemplateName h hempty).1 rfl

theorem isAbsolute_of_isTemplateName {name : Text} (h : isTemplateName name = true)
    (more : Text) : Path.isAbsolute ⟨name ++ more⟩ = false := by
  cases name with
  | nil => exact absurd rfl (ne_nil_of_isTemplateName h)
  | cons c t =>
      have hc : c ≠ Path.slash := by
        rintro rfl
        have hempty : [] ∈ Text.splitOn Path.slash (Path.slash :: t) := by
          simp [Text.splitOn_cons_mark]
        exact (part_of_isTemplateName h hempty).1 rfl
      simp [Path.isAbsolute, hc]

theorem ne_here_up_of_extension {stem : Text} (extension : Text) (hempty : stem ≠ [])
    (hhere : stem ≠ Path.here) :
    stem ++ '.' :: extension ≠ Path.here ∧ stem ++ '.' :: extension ≠ Path.up := by
  cases stem with
  | nil => exact absurd rfl hempty
  | cons c stem =>
      cases stem with
      | nil =>
          refine ⟨by simp [Path.here], ?_⟩
          intro h
          simp only [Path.up, List.cons_append, List.nil_append, List.cons.injEq] at h
          exact hhere (by rw [h.1]; rfl)
      | cons d stem => simp [Path.here, Path.up]

def namedPlace (base : Place) (first name : Text) : Place :=
  match (Text.splitOn Path.slash name).reverse with
  | [] => base
  | last :: front => (last ++ '.' :: first) :: (front ++ base)

theorem namedPlace_eq {base : Place} {first name last : Text} {front : List Text}
    (h : Text.splitOn Path.slash name = front ++ [last]) :
    namedPlace base first name = (last ++ '.' :: first) :: (front.reverse ++ base) := by
  simp [namedPlace, h]

theorem namedPlace_inj {base : Place} {first name name' : Text}
    (h : namedPlace base first name = namedPlace base first name') : name = name' := by
  obtain ⟨front, last, hname⟩ := Text.exists_splitOn_eq_concat Path.slash name
  obtain ⟨front', last', hname'⟩ := Text.exists_splitOn_eq_concat Path.slash name'
  rw [namedPlace_eq hname, namedPlace_eq hname'] at h
  obtain ⟨hlast, hfront⟩ := List.cons.inj h
  have hparts : Text.splitOn Path.slash name = Text.splitOn Path.slash name' := by
    rw [hname, hname', List.reverse_inj.1 (List.append_cancel_right hfront),
      List.append_cancel_right hlast]
  rw [← Text.join_splitOn Path.slash name, hparts, Text.join_splitOn]

namespace Config

/-! ## Sources -/

theorem sourcePath_eq_ok_iff {c : Config} {name : Text} {source : Path} :
    c.sourcePath name = .ok source ↔ isTemplateName name = true ∧ source = c.sourceFile name := by
  unfold sourcePath
  cases isTemplateName name with
  | true => simp [eq_comm]
  | false => simp

theorem pieces_named {name extension last first : Text} {front rest : List Text}
    (h : isTemplateName name = true) (hname : Text.splitOn Path.slash name = front ++ [last])
    (hext : Text.splitOn Path.slash extension = first :: rest) :
    Path.pieces ⟨name ++ '.' :: extension⟩ =
      front ++ (last ++ '.' :: first) :: rest.filter (· ≠ []) := by
  have hdot : Text.splitOn Path.slash ('.' :: extension) = ('.' :: first) :: rest :=
    Text.splitOn_cons_of_ne (by decide) hext
  have hfront : front.filter (· ≠ []) = front := by
    refine List.filter_eq_self.2 fun part hpart => ?_
    simpa using (part_of_isTemplateName h (by rw [hname]; exact List.mem_append_left _ hpart)).1
  rw [Path.pieces, Text.splitOn_append hname hdot, List.filter_append, hfront]
  simp

theorem pieces_sourceFile {c : Config} {name last first : Text} {front rest : List Text}
    (h : isTemplateName name = true) (hname : Text.splitOn Path.slash name = front ++ [last])
    (hext : Text.splitOn Path.slash c.templateExtension = first :: rest) :
    (c.sourceFile name).pieces =
      c.viewRoot.pieces ++ front ++ (last ++ '.' :: first) :: rest.filter (· ≠ []) := by
  rw [sourceFile, Path.pieces_join (isAbsolute_of_isTemplateName h _), pieces_named h hname hext,
    List.append_assoc]

theorem ne_of_mem_named {name last extension part : Text} {front : List Text}
    (h : isTemplateName name = true) (hname : Text.splitOn Path.slash name = front ++ [last])
    (hpart : part ∈ front ++ [last ++ '.' :: extension]) :
    part ≠ [] ∧ part ≠ Path.here ∧ part ≠ Path.up := by
  rcases List.mem_append.1 hpart with hpart | hpart
  · exact part_of_isTemplateName h (hname ▸ List.mem_append_left _ hpart)
  · obtain ⟨hempty, hhere, -⟩ := part_of_isTemplateName h (hname ▸ List.mem_concat_self)
    rw [List.mem_singleton.1 hpart]
    exact ⟨by simp, ne_here_up_of_extension extension hempty hhere⟩

theorem isPart_of_mem_named {name last extension part : Text} {front : List Text}
    (h : isTemplateName name = true) (hname : Text.splitOn Path.slash name = front ++ [last])
    (hslash : Path.slash ∉ extension) (hbackslash : '\\' ∉ extension)
    (hpart : part ∈ front ++ [last ++ '.' :: extension]) : IsPart part := by
  have hparts : ∀ part ∈ front ++ [last], IsPart part := hname ▸ isTemplateName_iff.1 h
  obtain ⟨hempty, hhere, hup⟩ := ne_of_mem_named h hname hpart
  rcases List.mem_append.1 hpart with hpart | hpart
  · exact hparts part (List.mem_append_left _ hpart)
  · have hlast := hparts last List.mem_concat_self
    obtain rfl := List.mem_singleton.1 hpart
    refine ⟨hempty, hhere, hup, ?_, ?_⟩
    · rw [List.mem_append, List.mem_cons, not_or, not_or]
      exact ⟨hlast.slash, by decide, hslash⟩
    · rw [List.mem_append, List.mem_cons, not_or, not_or]
      exact ⟨hlast.backslash, by decide, hbackslash⟩

theorem parts_sourceFile {c : Config} {name last : Text} {front : List Text}
    (h : isTemplateName name = true) (hname : Text.splitOn Path.slash name = front ++ [last])
    (hext : Path.slash ∉ c.templateExtension) :
    (c.sourceFile name).parts =
      c.viewRoot.parts ++ (front ++ [last ++ '.' :: c.templateExtension]) := by
  have hpieces : Path.pieces ⟨name ++ '.' :: c.templateExtension⟩ =
      front ++ [last ++ '.' :: c.templateExtension] :=
    pieces_named h hname (Text.splitOn_of_notMem hext)
  rw [sourceFile, Path.parts_join (isAbsolute_of_isTemplateName h _), hpieces]
  rw [hpieces]
  exact fun hmem => (ne_of_mem_named h hname hmem).2.1 rfl

theorem isAbsolute_sourceFile {c : Config} {name : Text} (h : isTemplateName name = true) :
    (c.sourceFile name).isAbsolute = c.viewRoot.isAbsolute :=
  Path.isAbsolute_join (isAbsolute_of_isTemplateName h _)

theorem foldl_advance_named {name last first : Text} {front : List Text}
    (h : isTemplateName name = true) (hname : Text.splitOn Path.slash name = front ++ [last])
    (base : Place) :
    (front ++ [last ++ '.' :: first]).foldl FileSystem.advance base =
      namedPlace base first name := by
  rw [FileSystem.foldl_advance fun step hstep => (ne_of_mem_named h hname hstep).2,
    namedPlace_eq hname]
  simp

theorem start_sourceFile {c : Config} {name : Text} (h : isTemplateName name = true)
    (fs : FileSystem) : fs.start (c.sourceFile name) = fs.start c.viewRoot := by
  rw [FileSystem.start, isAbsolute_sourceFile h]
  rfl

theorem namedPlace_mem_passed {c : Config} {name first : Text} {rest : List Text}
    (h : isTemplateName name = true)
    (hext : Text.splitOn Path.slash c.templateExtension = first :: rest) (fs : FileSystem) :
    namedPlace (fs.target c.viewRoot) first name ∈
      FileSystem.passed (fs.start (c.sourceFile name)) (c.sourceFile name).steps := by
  obtain ⟨front, last, hname⟩ := Text.exists_splitOn_eq_concat Path.slash name
  have hplace : namedPlace (fs.target c.viewRoot) first name =
      (c.viewRoot.pieces ++ (front ++ [last ++ '.' :: first])).foldl FileSystem.advance
        (fs.start c.viewRoot) := by
    rw [List.foldl_append, ← FileSystem.target_eq_foldl_pieces, foldl_advance_named h hname]
  obtain ⟨more, hmore⟩ : ∃ more, (c.sourceFile name).steps =
      (c.viewRoot.pieces ++ (front ++ [last ++ '.' :: first])) ++ more := by
    unfold Path.steps
    rw [pieces_sourceFile h hname hext]
    split
    · exact ⟨rest.filter (· ≠ []) ++ [Path.here], by simp⟩
    · exact ⟨rest.filter (· ≠ []), by simp⟩
  rw [hplace, start_sourceFile h, hmore]
  exact FileSystem.foldl_advance_mem_passed ..

theorem target_sourceFile {c : Config} {name : Text} (h : isTemplateName name = true)
    (hext : Path.slash ∉ c.templateExtension) (fs : FileSystem) :
    fs.target (c.sourceFile name) = namedPlace (fs.target c.viewRoot) c.templateExtension name := by
  obtain ⟨front, last, hname⟩ := Text.exists_splitOn_eq_concat Path.slash name
  rw [FileSystem.target_eq_foldl_pieces, start_sourceFile h,
    pieces_sourceFile h hname (Text.splitOn_of_notMem hext), List.append_assoc, List.foldl_append,
    ← FileSystem.target_eq_foldl_pieces]
  exact foldl_advance_named h hname _

theorem way_of_templateOf? {c : Config} {way : List Text} {name : Text}
    (h : c.templateOf? way = some name) (hway : ∀ part ∈ way, Path.slash ∉ part) :
    isTemplateName name = true ∧ Path.slash ∉ c.templateExtension ∧
      ∃ front last, Text.splitOn Path.slash name = front ++ [last] ∧
        way = front ++ [last ++ '.' :: c.templateExtension] := by
  unfold templateOf? at h
  split at h
  · cases h
  · next file outer hreverse =>
    have hfront : way = outer.reverse ++ [file] := by
      rw [← List.reverse_reverse way, hreverse, List.reverse_cons]
    split at h
    · cases h
    · next stem extension hfile =>
      dsimp only at h
      split at h
      · next hvalid =>
        cases h
        obtain ⟨rfl, hname⟩ := hvalid
        obtain rfl := FileName.eq_of_split? hfile
        rw [hfront, List.forall_mem_append] at hway
        have hlast := hway.2 _ List.mem_cons_self
        rw [List.mem_append, List.mem_cons, not_or, not_or] at hlast
        refine ⟨hname, hlast.2.2, outer.reverse, stem, ?_, hfront⟩
        rw [List.reverse_cons]
        refine Text.splitOn_join (by simp) (List.forall_mem_append.2 ⟨hway.1, ?_⟩)
        simpa using hlast.1
      · cases h

theorem target_of_templateOf? {c : Config} {way : List Text} {name : Text}
    (h : c.templateOf? way = some name) (hway : ∀ part ∈ way, Path.slash ∉ part)
    (files : FileSystem) :
    isTemplateName name = true ∧
      files.target (c.sourceFile name) = way.reverse ++ files.target c.viewRoot := by
  obtain ⟨hname, hext, front, last, hparts, rfl⟩ := way_of_templateOf? h hway
  refine ⟨hname, ?_⟩
  rw [target_sourceFile hname hext, namedPlace_eq hparts]
  simp

/-! ## Artifacts -/

theorem notMem_of_checkExtension {field : Field} {extension : Text}
    (h : checkExtension field extension = .ok ()) : Path.slash ∉ extension := by
  unfold checkExtension at h
  split at h
  · cases h
  · split at h
    · next hbare =>
      simp only [isBare, Bool.and_eq_true, Bool.not_eq_true', List.contains_eq_mem,
        decide_eq_false_iff_not] at hbare
      exact hbare.1.2
    · cases h

theorem backslash_notMem_of_checkExtension {field : Field} {extension : Text}
    (h : checkExtension field extension = .ok ()) : '\\' ∉ extension := by
  unfold checkExtension at h
  split at h
  · cases h
  · split at h
    · next hbare =>
      simp only [isBare, Bool.and_eq_true, Bool.not_eq_true', List.contains_eq_mem,
        decide_eq_false_iff_not] at hbare
      exact hbare.2
    · cases h

theorem notMem_artifactKey (name : Text) : Path.slash ∉ artifactKey name := by
  intro h
  exact absurd (Hex.isSome_value?_of_mem_encode h) (by decide)

theorem artifactKey_ne_nil (name : Text) : artifactKey name ≠ [] := by
  intro h
  have hlength := length_artifactKey name
  simp [h] at hlength

theorem isAbsolute_artifactFile (c : Config) (name : Text) :
    Path.isAbsolute ⟨artifactKey name ++ '.' :: c.artifactExtension⟩ = false := by
  obtain ⟨d, t, ht⟩ := List.exists_cons_of_ne_nil (artifactKey_ne_nil name)
  have hd : d ≠ Path.slash := by
    rintro rfl
    exact notMem_artifactKey name (ht ▸ List.mem_cons_self)
  simp [Path.isAbsolute, ht, hd]

theorem pieces_artifactFile {c : Config} (hext : Path.slash ∉ c.artifactExtension) (name : Text) :
    Path.pieces ⟨artifactKey name ++ '.' :: c.artifactExtension⟩ =
      [artifactKey name ++ '.' :: c.artifactExtension] := by
  have hkey : Path.slash ∉ artifactKey name ++ '.' :: c.artifactExtension := by
    simp only [List.mem_append, List.mem_cons, not_or]
    exact ⟨notMem_artifactKey name, by decide, hext⟩
  simp [Path.pieces, Text.splitOn_of_notMem hkey]

theorem target_artifactPath {c : Config}
    (hext : Path.slash ∉ c.artifactExtension) (name : Text) (fs : FileSystem) :
    fs.target (c.artifactPath name) =
      (artifactKey name ++ '.' :: c.artifactExtension) :: fs.target c.cacheRoot := by
  have hhere : artifactKey name ≠ Path.here := by
    intro h
    have hlength := length_artifactKey name
    simp [h, Path.here] at hlength
  have hup := ne_here_up_of_extension c.artifactExtension (artifactKey_ne_nil name) hhere
  rw [artifactPath, FileSystem.target_join fs (isAbsolute_artifactFile c name),
    pieces_artifactFile hext]
  exact FileSystem.advance_of_ne hup.1 hup.2

end Config

end Stencil
