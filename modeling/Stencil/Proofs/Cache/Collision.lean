import Stencil.Proofs.Cache.Run

/-!
# Artifacts in the place of sources

An artifact lies in the place of a source just if the cache directory is the
directory of the templates, or lies in it, and the files of artifacts end as
those of templates do.  A valid configuration may be like that: all that is
ruled out are equal extensions in one directory.
-/

namespace Stencil

/-! ## Parts of names -/

theorem splitOn_join_of_isPart {front : List Text} {last : Text}
    (h : ∀ part ∈ front ++ [last], IsPart part) :
    Text.splitOn Path.slash (Text.join [Path.slash] (front ++ [last])) = front ++ [last] :=
  Text.splitOn_join (by simp) fun part hpart => (h part hpart).slash

theorem isTemplateName_join {front : List Text} {last : Text}
    (h : ∀ part ∈ front ++ [last], IsPart part) :
    isTemplateName (Text.join [Path.slash] (front ++ [last])) = true :=
  isTemplateName_iff.2 (by rwa [splitOn_join_of_isPart h])

namespace Config

/-! ## Keys -/

theorem notMem_artifactKey_of_value? (name : Text) {d : Char} (hd : Hex.value? d = none) :
    d ∉ artifactKey name := by
  intro hmem
  have hvalue := Hex.isSome_value?_of_mem_encode hmem
  rw [hd] at hvalue
  cases hvalue

theorem isPart_artifactKey_append (name : Text) {stem : Text} (hslash : Path.slash ∉ stem)
    (hbackslash : '\\' ∉ stem) : IsPart (artifactKey name ++ stem) := by
  have hlength : 64 ≤ (artifactKey name ++ stem).length := by
    rw [List.length_append, length_artifactKey]
    exact Nat.le_add_right ..
  have hlonger : ∀ {t : Text}, t.length < 64 → artifactKey name ++ stem ≠ t := by
    rintro t ht rfl
    omega
  constructor
  · exact hlonger (by decide)
  · exact hlonger (by decide)
  · exact hlonger (by decide)
  · rw [List.mem_append, not_or]
    exact ⟨notMem_artifactKey name, hslash⟩
  · rw [List.mem_append, not_or]
    exact ⟨notMem_artifactKey_of_value? name (by decide), hbackslash⟩

def ofArtifacts (c : Config) : Config :=
  { c with viewRoot := c.cacheRoot, templateExtension := c.artifactExtension }

theorem isTemplateName_artifactKey (name : Text) : isTemplateName (artifactKey name) = true := by
  have hpart : IsPart (artifactKey name ++ []) :=
    isPart_artifactKey_append name List.not_mem_nil List.not_mem_nil
  rw [List.append_nil] at hpart
  refine isTemplateName_iff.2 fun part hmem => ?_
  rw [Text.splitOn_of_notMem hpart.slash, List.mem_singleton] at hmem
  exact hmem ▸ hpart

theorem isAbsolute_artifactPath (c : Config) (name : Text) :
    (c.artifactPath name).isAbsolute = c.cacheRoot.isAbsolute :=
  isAbsolute_sourceFile (c := c.ofArtifacts) (isTemplateName_artifactKey name)

theorem parts_artifactPath {c : Config} (hext : Path.slash ∉ c.artifactExtension) (name : Text) :
    (c.artifactPath name).parts =
      c.cacheRoot.parts ++ [artifactKey name ++ '.' :: c.artifactExtension] := by
  have hsplit : Text.splitOn Path.slash (artifactKey name) = [] ++ [artifactKey name] :=
    Text.splitOn_of_notMem (notMem_artifactKey name)
  exact parts_sourceFile (c := c.ofArtifacts) (isTemplateName_artifactKey name) hsplit hext

theorem fileName_eq_iff (c : Config) (other last : Text) :
    last ++ '.' :: c.templateExtension = artifactKey other ++ '.' :: c.artifactExtension ↔
      ∃ stem, last = artifactKey other ++ stem ∧
        '.' :: c.artifactExtension = stem ++ '.' :: c.templateExtension := by
  rw [eq_comm, List.append_eq_append_iff]
  constructor
  · rintro (⟨stem, hlast, hext⟩ | ⟨stem, hkey, hext⟩)
    · exact ⟨stem, hlast, hext⟩
    · cases stem with
      | nil => exact ⟨[], by simpa using hkey.symm, hext.symm⟩
      | cons d stem =>
          -- the name of a template would end within the key, in which there is no dot
          obtain ⟨rfl, -⟩ := List.cons.inj hext
          refine absurd ?_ (notMem_artifactKey_of_value? other (d := '.') (by decide))
          rw [hkey]
          exact List.mem_append_right _ List.mem_cons_self
  · rintro ⟨stem, hlast, hext⟩
    exact Or.inl ⟨stem, hlast, hext⟩

/-! ## One directory in the other -/

/-- The cache directory is written as the directory of the templates with parts behind it that a
template name can have. -/
structure Encloses (c : Config) (inner : List Text) : Prop where
  isAbsolute : c.cacheRoot.isAbsolute = c.viewRoot.isAbsolute
  parts : c.cacheRoot.parts = c.viewRoot.parts ++ inner
  valid : ∀ part ∈ inner, IsPart part

structure EnclosesAt (c : Config) (files : FileSystem) (inner : List Text) : Prop where
  target : files.target c.cacheRoot = inner.reverse ++ files.target c.viewRoot
  valid : ∀ part ∈ inner, IsPart part

def EndsAlike (c : Config) : Prop := '.' :: c.templateExtension <:+ '.' :: c.artifactExtension

def nameOfArtifact (inner : List Text) (other stem : Text) : Text :=
  Text.join [Path.slash] (inner ++ [artifactKey other ++ stem])

structure HasBareExtensions (c : Config) : Prop where
  template : Path.slash ∉ c.templateExtension
  artifact : Path.slash ∉ c.artifactExtension
  backslash : '\\' ∉ c.artifactExtension

section

variable {c : Config} {inner : List Text} {name other stem : Text}

theorem HasBareExtensions.isPart (hc : c.HasBareExtensions)
    (hstem : '.' :: c.artifactExtension = stem ++ '.' :: c.templateExtension) (other : Text) :
    IsPart (artifactKey other ++ stem) := by
  have hbare : ∀ {d : Char}, d ≠ '.' → d ∉ c.artifactExtension → d ∉ stem := by
    intro d hdot hext hmem
    have hmem' : d ∈ '.' :: c.artifactExtension := hstem ▸ List.mem_append_left _ hmem
    rcases List.mem_cons.1 hmem' with heq | hmem'
    · exact hdot heq
    · exact hext hmem'
  exact isPart_artifactKey_append other (hbare (by decide) hc.artifact)
    (hbare (by decide) hc.backslash)

theorem HasBareExtensions.forall_isPart (hc : c.HasBareExtensions)
    (hinner : ∀ part ∈ inner, IsPart part)
    (hstem : '.' :: c.artifactExtension = stem ++ '.' :: c.templateExtension) :
    ∀ part ∈ inner ++ [artifactKey other ++ stem], IsPart part := by
  intro part hpart
  rcases List.mem_append.1 hpart with hpart | hpart
  · exact hinner part hpart
  · exact List.mem_singleton.1 hpart ▸ hc.isPart hstem other

theorem exists_nameOfArtifact_iff (hc : c.HasBareExtensions) (Leads : List Text → Prop)
    (other : Text) {front : List Text} {last : Text}
    (hsplit : Text.splitOn Path.slash name = front ++ [last]) :
    ((Leads front ∧ ∀ part ∈ front, IsPart part) ∧
        last ++ '.' :: c.templateExtension = artifactKey other ++ '.' :: c.artifactExtension) ↔
      ∃ inner stem, (Leads inner ∧ ∀ part ∈ inner, IsPart part) ∧
        '.' :: c.artifactExtension = stem ++ '.' :: c.templateExtension ∧
        name = nameOfArtifact inner other stem := by
  rw [fileName_eq_iff]
  constructor
  · rintro ⟨hfront, stem, rfl, hstem⟩
    exact ⟨front, stem, hfront, hstem, by rw [nameOfArtifact, ← hsplit, Text.join_splitOn]⟩
  · rintro ⟨inner, stem, hinner, hstem, rfl⟩
    rw [nameOfArtifact, splitOn_join_of_isPart (hc.forall_isPart hinner.2 hstem)] at hsplit
    obtain ⟨rfl, hlast⟩ := List.append_inj' hsplit rfl
    exact ⟨hinner, stem, (List.singleton_inj.1 hlast).symm, hstem⟩

theorem isPart_of_splitOn {front : List Text} {last : Text} (hname : isTemplateName name = true)
    (hsplit : Text.splitOn Path.slash name = front ++ [last]) : ∀ part ∈ front, IsPart part :=
  fun part hpart =>
    isTemplateName_iff.1 hname part (hsplit ▸ List.mem_append_left _ hpart)

theorem same_artifactPath_iff (hc : c.HasBareExtensions) (hname : isTemplateName name = true) :
    (c.sourceFile name).same (c.artifactPath other) = true ↔
      ∃ inner stem, c.Encloses inner ∧
        '.' :: c.artifactExtension = stem ++ '.' :: c.templateExtension ∧
        name = nameOfArtifact inner other stem := by
  obtain ⟨front, last, hsplit⟩ := Text.exists_splitOn_eq_concat Path.slash name
  have hparts : (c.sourceFile name).parts = (c.artifactPath other).parts ↔
      c.cacheRoot.parts = c.viewRoot.parts ++ front ∧
        last ++ '.' :: c.templateExtension = artifactKey other ++ '.' :: c.artifactExtension := by
    rw [parts_sourceFile hname hsplit hc.template, parts_artifactPath hc.artifact,
      ← List.append_assoc]
    constructor
    · intro h
      obtain ⟨hfront, hlast⟩ := List.append_inj' h rfl
      exact ⟨hfront.symm, List.singleton_inj.1 hlast⟩
    · rintro ⟨hfront, hlast⟩
      rw [hfront, hlast]
  have hexists := exists_nameOfArtifact_iff hc
    (fun inner => c.cacheRoot.isAbsolute = c.viewRoot.isAbsolute ∧
      c.cacheRoot.parts = c.viewRoot.parts ++ inner) other hsplit
  rw [Path.same, Bool.and_eq_true, beq_iff_eq, beq_iff_eq, hparts, isAbsolute_sourceFile hname,
    isAbsolute_artifactPath]
  constructor
  · rintro ⟨habsolute, hfront, hlast⟩
    obtain ⟨inner, stem, ⟨⟨h₁, h₂⟩, h₃⟩, hstem, rfl⟩ :=
      hexists.1 ⟨⟨⟨habsolute.symm, hfront⟩, isPart_of_splitOn hname hsplit⟩, hlast⟩
    exact ⟨inner, stem, ⟨h₁, h₂, h₃⟩, hstem, rfl⟩
  · rintro ⟨inner, stem, ⟨h₁, h₂, h₃⟩, hstem, hjoin⟩
    obtain ⟨⟨⟨habsolute, hfront⟩, -⟩, hlast⟩ :=
      hexists.2 ⟨inner, stem, ⟨⟨h₁, h₂⟩, h₃⟩, hstem, hjoin⟩
    exact ⟨habsolute.symm, hfront, hlast⟩

theorem target_artifactPath_iff (hc : c.HasBareExtensions) (hname : isTemplateName name = true)
    (files : FileSystem) :
    files.target (c.sourceFile name) = files.target (c.artifactPath other) ↔
      ∃ inner stem, c.EnclosesAt files inner ∧
        '.' :: c.artifactExtension = stem ++ '.' :: c.templateExtension ∧
        name = nameOfArtifact inner other stem := by
  obtain ⟨front, last, hsplit⟩ := Text.exists_splitOn_eq_concat Path.slash name
  have hexists := exists_nameOfArtifact_iff hc
    (fun inner => files.target c.cacheRoot = inner.reverse ++ files.target c.viewRoot) other hsplit
  rw [target_sourceFile hname hc.template, namedPlace_eq hsplit, target_artifactPath hc.artifact,
    List.cons.injEq]
  constructor
  · rintro ⟨hlast, hfront⟩
    obtain ⟨inner, stem, ⟨h₁, h₂⟩, hstem, rfl⟩ :=
      hexists.1 ⟨⟨hfront.symm, isPart_of_splitOn hname hsplit⟩, hlast⟩
    exact ⟨inner, stem, ⟨h₁, h₂⟩, hstem, rfl⟩
  · rintro ⟨inner, stem, ⟨h₁, h₂⟩, hstem, hjoin⟩
    obtain ⟨⟨hfront, -⟩, hlast⟩ := hexists.2 ⟨inner, stem, ⟨h₁, h₂⟩, hstem, hjoin⟩
    exact ⟨hlast, hfront.symm⟩

end

/-! ## What a valid configuration rules out -/

theorem validate_eq_ok_iff {c : Config} {files : FileSystem} :
    c.validate files = .ok () ↔
      checkExtension .templateExtension c.templateExtension = .ok () ∧
      checkExtension .artifactExtension c.artifactExtension = .ok () ∧
      ¬(c.viewRoot.same c.cacheRoot = true ∧ c.templateExtension = c.artifactExtension) ∧
      files.isDirectory c.viewRoot = true := by
  unfold validate
  cases checkExtension .templateExtension c.templateExtension with
  | error e => simp [bind, Except.bind]
  | ok =>
      cases checkExtension .artifactExtension c.artifactExtension with
      | error e => simp [bind, Except.bind]
      | ok =>
          by_cases hsame : c.viewRoot.same c.cacheRoot = true ∧
              c.templateExtension = c.artifactExtension
          · simp [hsame, bind, Except.bind, throw, throwThe, MonadExceptOf.throw]
          · cases files.isDirectory c.viewRoot
            · simp [hsame, bind, Except.bind, throw, throwThe, MonadExceptOf.throw]
            · simp [hsame, bind, Except.bind, pure, Except.pure]

structure IsToldApart (c : Config) : Prop where
  same_iff : ∀ name source other, c.sourcePath name = .ok source →
    (source.same (c.artifactPath other) = true ↔ ∃ inner stem, c.Encloses inner ∧
      '.' :: c.artifactExtension = stem ++ '.' :: c.templateExtension ∧
      name = nameOfArtifact inner other stem)
  exists_same_iff : (∃ name source other, c.sourcePath name = .ok source ∧
    source.same (c.artifactPath other) = true) ↔ (∃ inner, c.Encloses inner) ∧ c.EndsAlike
  /-- Equal extensions in one directory are ruled out, and nothing else. -/
  guarded : ¬(c.Encloses [] ∧ c.artifactExtension = c.templateExtension)
  target_iff : ∀ (files : FileSystem) name source other, c.sourcePath name = .ok source →
    (files.target source = files.target (c.artifactPath other) ↔ ∃ inner stem,
      c.EnclosesAt files inner ∧
      '.' :: c.artifactExtension = stem ++ '.' :: c.templateExtension ∧
      name = nameOfArtifact inner other stem)
  spared : ∀ cache : Cache, cache.config = c →
    ¬((∃ inner, c.EnclosesAt cache.files inner) ∧ c.EndsAlike) →
    ∀ name source e, c.sourcePath name = .ok source →
      cache.files.at? (cache.files.target source) = some e →
      ∀ other, (cache.get other).2.files.at? (cache.files.target source) = some e
  unlisted : ∀ files : FileSystem, ¬((∃ inner, c.EnclosesAt files inner) ∧ c.EndsAlike) →
    ∀ way other, (∀ part ∈ way, Path.slash ∉ part) →
      way.reverse ++ files.target c.viewRoot = files.target (c.artifactPath other) →
      c.templateOf? way = none

theorem encloses_nil_iff {c : Config} : c.Encloses [] ↔ c.viewRoot.same c.cacheRoot = true := by
  rw [Path.same, Bool.and_eq_true, beq_iff_eq, beq_iff_eq]
  constructor
  · rintro ⟨habsolute, hparts, -⟩
    rw [List.append_nil] at hparts
    exact ⟨habsolute.symm, hparts.symm⟩
  · rintro ⟨habsolute, hparts⟩
    exact ⟨habsolute.symm, by rw [List.append_nil, hparts], by simp⟩

section

variable {c : Config}

theorem target_ne_artifactPath (hc : c.HasBareExtensions) {files : FileSystem}
    (hapart : ¬((∃ inner, c.EnclosesAt files inner) ∧ c.EndsAlike)) {name : Text}
    (hname : isTemplateName name = true) (other : Text) :
    files.target (c.sourceFile name) ≠ files.target (c.artifactPath other) := by
  intro heq
  obtain ⟨inner, stem, hinner, hstem, -⟩ := (target_artifactPath_iff hc hname files).1 heq
  exact hapart ⟨⟨inner, hinner⟩, stem, hstem.symm⟩

theorem at?_get_of_target_ne {cache : Cache} {place : Place} {other : Text}
    (hne : place ≠ cache.files.target (cache.config.artifactPath other)) {e : Entry}
    (he : cache.files.at? place = some e) : (cache.get other).2.files.at? place = some e := by
  rcases cache.get_cases other with ⟨e', hget, -⟩ | ⟨text, hget, -⟩ | ⟨build, -, -, hget⟩
  · rw [hget, he]
  · rw [hget, he]
  · rw [hget]
    dsimp only
    rcases cache.at?_keep other build place with hsame | ⟨-, hnone, -⟩ | ⟨heq, -⟩
    · exact hsame.trans he
    · rw [he] at hnone
      cases hnone
    · exact absurd heq hne

theorem exists_same_artifactPath_iff (hc : c.HasBareExtensions) :
    (∃ name source other, c.sourcePath name = .ok source ∧
      source.same (c.artifactPath other) = true) ↔
      (∃ inner, c.Encloses inner) ∧ c.EndsAlike := by
  constructor
  · rintro ⟨name, source, other, hsource, hsame⟩
    obtain ⟨hname, rfl⟩ := sourcePath_eq_ok_iff.1 hsource
    obtain ⟨inner, stem, hinner, hstem, -⟩ := (same_artifactPath_iff hc hname).1 hsame
    exact ⟨⟨inner, hinner⟩, stem, hstem.symm⟩
  · rintro ⟨⟨inner, hinner⟩, stem, hstem⟩
    have hname : isTemplateName (nameOfArtifact inner [] stem) = true :=
      isTemplateName_join (hc.forall_isPart hinner.valid hstem.symm)
    exact ⟨_, _, [], sourcePath_eq_ok_iff.2 ⟨hname, rfl⟩,
      (same_artifactPath_iff hc hname).2 ⟨inner, stem, hinner, hstem.symm, rfl⟩⟩

theorem isToldApart {files : FileSystem} (h : c.validate files = .ok ()) : c.IsToldApart := by
  obtain ⟨htemplate, hartifact, hguard, -⟩ := validate_eq_ok_iff.1 h
  have hc : c.HasBareExtensions := ⟨notMem_of_checkExtension htemplate,
    notMem_of_checkExtension hartifact, backslash_notMem_of_checkExtension hartifact⟩
  constructor
  · intro name source other hsource
    obtain ⟨hname, rfl⟩ := sourcePath_eq_ok_iff.1 hsource
    exact same_artifactPath_iff hc hname
  · exact exists_same_artifactPath_iff hc
  · rintro ⟨hnil, hext⟩
    exact hguard ⟨encloses_nil_iff.1 hnil, hext.symm⟩
  · intro files name source other hsource
    obtain ⟨hname, rfl⟩ := sourcePath_eq_ok_iff.1 hsource
    exact target_artifactPath_iff hc hname files
  · rintro cache rfl hapart name source e hsource he other
    obtain ⟨hname, rfl⟩ := sourcePath_eq_ok_iff.1 hsource
    exact at?_get_of_target_ne (target_ne_artifactPath hc hapart hname other) he
  · intro files hapart way other hway hplace
    rw [Option.eq_none_iff_forall_ne_some]
    intro name htemplate
    obtain ⟨hname, hsource⟩ := target_of_templateOf? htemplate hway files
    exact target_ne_artifactPath hc hapart hname other (hsource.trans hplace)

end

end Config

theorem Config.isApart_of {c : Config} {files : FileSystem}
    (hext : checkExtension .templateExtension c.templateExtension = .ok ())
    (hway : ∀ place ∈ files.way c.cacheRoot, ∀ part ∈ place,
      ¬ '.' :: c.templateExtension <:+ part)
    (houter : ¬files.target c.cacheRoot <:+ files.target c.viewRoot)
    (hinner : ¬∃ inner, c.EnclosesAt files inner) : c.IsApart files := by
  have hslash := notMem_of_checkExtension hext
  have hplace : ∀ {name : Text} {front : List Text} {last : Text}, isTemplateName name = true →
      Text.splitOn Path.slash name = front ++ [last] → files.target (c.sourceFile name) =
        (last ++ '.' :: c.templateExtension) :: front.reverse ++ files.target c.viewRoot := by
    intro name front last hname hsplit
    rw [target_sourceFile hname hslash, namedPlace_eq hsplit]
    rfl
  constructor
  · intro name hname place hmem hsuffix
    obtain ⟨front, last, hsplit⟩ := Text.exists_splitOn_eq_concat Path.slash name
    rw [hplace hname hsplit] at hsuffix
    exact hway place hmem _ (hsuffix.subset List.mem_cons_self) (List.suffix_append ..)
  · rintro name hname ⟨between, hbetween⟩
    obtain ⟨front, last, hsplit⟩ := Text.exists_splitOn_eq_concat Path.slash name
    rw [hplace hname hsplit, List.append_eq_append_iff] at hbetween
    rcases hbetween with ⟨inner, hnamed, htarget⟩ | ⟨outer, -, hview⟩
    · refine hinner ⟨inner.reverse, by rw [htarget, List.reverse_reverse], fun part hpart => ?_⟩
      have hmem : part ∈ (last ++ '.' :: c.templateExtension) :: front.reverse :=
        hnamed ▸ List.mem_append_right _ (List.mem_reverse.1 hpart)
      refine isPart_of_mem_named hname hsplit hslash (backslash_notMem_of_checkExtension hext) ?_
      rwa [← List.mem_reverse, List.reverse_append, List.reverse_singleton]
    · exact houter ⟨outer, hview.symm⟩

/-! ## A cache among the templates -/

namespace Nested

def config : Config := ⟨⟨['v']⟩, ⟨"v/c".toList⟩, ['t'], ['t'], false⟩

def name : Text := Config.nameOfArtifact [['c']] ['m'] []

def files : FileSystem :=
  (FileSystem.empty.put ['v'] [] (.directory 0)).put ['m', '.', 't'] [['v']]
    (.file (Text.bytes ['x']).toByteArray 5)

theorem sourceFile_same_artifactPath :
    isTemplateName name = true ∧
      (config.sourceFile name).same (config.artifactPath ['m']) = true ∧
      files.isDirectory config.viewRoot = true := by
  decide +kernel

theorem isValid : config.validate files = .ok () :=
  Config.validate_eq_ok_iff.2 ⟨by decide, by decide, by decide, sourceFile_same_artifactPath.2.2⟩

end Nested

theorem Config.isToldApart_nested :
    Nested.config.validate Nested.files = .ok () ∧ Nested.config.IsToldApart :=
  ⟨Nested.isValid, Config.isToldApart Nested.isValid⟩

theorem Config.not_forall_source_ne_artifact :
    ¬∀ (c : Config) (files : FileSystem), c.validate files = .ok () →
      ∀ name source other, c.sourcePath name = .ok source →
        source.same (c.artifactPath other) = false := by
  intro h
  obtain ⟨hname, hsame, -⟩ := Nested.sourceFile_same_artifactPath
  rw [h _ _ Nested.isValid _ _ _ (sourcePath_eq_ok_iff.2 ⟨hname, rfl⟩)] at hsame
  cases hsame

end Stencil
