import Stencil.Proofs.Cache.Apart
import Stencil.Proofs.Cache.Inquiry

/-!
# The order of gets

A get asks for sources and for the artifact of its template, and it keeps at
most this artifact.  So gets of templates with different artifacts have the same
results in any order, and leave the same files behind, unless the way to the
cache leads through places that others look at.  Templates can be warmed in any
order.
-/

namespace Stencil

/-! ## What a get comes to -/

namespace Inquiry

variable {c : Config} {fs fs' : FileSystem} {name : Text}

theorem answer_eq {q : Question} (h : FileSystem.IsSameOn q.path fs fs') :
    fs'.answer q = fs.answer q := by
  obtain ⟨role, p, aspect⟩ := q
  cases aspect with
  | isFile => exact congrArg (Option.any Entry.isFile) h.find?
  | modified => exact congrArg (Option.map Entry.modified) h.find?
  | text => exact h.readText

theorem freshText?_congr
    (hsources : ∀ other, isTemplateName other = true →
      FileSystem.IsSameOn (c.sourceFile other) fs fs')
    (hname : isTemplateName name = true)
    (hartifact : fs'.find? (c.artifactPath name) = fs.find? (c.artifactPath name)) :
    c.freshText? fs' (c.sourceFile name) (c.artifactPath name) =
      c.freshText? fs (c.sourceFile name) (c.artifactPath name) := by
  have hnot : ∀ other, isTemplateName other = true → ∀ time,
      notAfter fs' (c.sourceFile other) time = notAfter fs (c.sourceFile other) time := by
    intro other hother time
    rw [notAfter, notAfter, FileSystem.modified?, FileSystem.modified?,
      (hsources other hother).find?]
  refine Option.ext fun text => ?_
  rw [Config.freshText?_eq_some_iff, Config.freshText?_eq_some_iff, hartifact]
  refine exists_congr fun e => and_congr_right fun _ => and_congr_right fun _ => ?_
  rw [hnot name hname]
  refine and_congr_right fun _ => forall₂_congr fun layout _ => and_congr_right fun hlayout => ?_
  rw [hnot layout hlayout]

theorem result_get_congr (fuel : Nat)
    (hsources : ∀ other, isTemplateName other = true →
      FileSystem.IsSameOn (c.sourceFile other) fs fs')
    (hartifact : fs'.find? (c.artifactPath name) = fs.find? (c.artifactPath name)) :
    (get c fuel name).result fs' = (get c fuel name).result fs := by
  have hanswer : ∀ q, Question.IsSource c q → fs'.answer q = fs.answer q := by
    rintro _ ⟨hsource⟩
    obtain ⟨hother, rfl⟩ := Config.sourcePath_eq_ok_iff.1 hsource
    exact answer_eq (hsources _ hother)
  unfold get
  cases hsource : c.sourcePath name with
  | error e => rfl
  | ok source =>
      obtain ⟨hname, rfl⟩ := Config.sourcePath_eq_ok_iff.1 hsource
      have hthere : fs'.isFile (c.sourceFile name) = fs.isFile (c.sourceFile name) :=
        congrArg (Option.any Entry.isFile) (hsources name hname).find?
      have hbuild : (build c fuel name).result fs' = (build c fuel name).result fs :=
        result_congr fun q hq => hanswer q ((within_build hname fuel).asked fs q hq)
      dsimp only
      rw [result_bind, result_bind, result_isFile, result_isFile, hthere]
      split
      · rw [result_bind, result_bind, result_fresh, result_fresh,
          freshText?_congr hsources hname hartifact]
        split
        · rfl
        · rw [result_bind, result_bind, hbuild]
          split <;> rfl
      · rfl

theorem of_result_get_keeps {fuel : Nat} {build : Build}
    (h : (get c fuel name).result fs = .keeps build) :
    isTemplateName name = true ∧ fs.isFile (c.sourceFile name) = true ∧
      Build.onDisk c (fun _ => fs) fuel name = .ok build := by
  unfold get at h
  split at h
  · cases h
  · next source hsource =>
    obtain ⟨hname, rfl⟩ := Config.sourcePath_eq_ok_iff.1 hsource
    rw [result_bind, result_isFile] at h
    split at h
    · next hfile =>
      rw [result_bind, result_fresh] at h
      split at h
      · cases h
      · rw [result_bind, result_build] at h
        split at h
        · cases h
        · next built hbuilt =>
          cases h
          exact ⟨hname, hfile, hbuilt⟩
    · cases h

end Inquiry

namespace Cache

variable {c c' : Cache} {a b name : Text} {v : Inquiry.Verdict}

/-- A get comes to a verdict.  If this is to keep an artifact, the source is there, and the artifact
carries a time. -/
structure ComesTo (c : Cache) (name : Text) (v : Inquiry.Verdict) : Prop where
  settled : c.get name = c.settle name v
  stamped : ∀ build, v = .keeps build →
    c.contains name = true ∧ ∃ time, build.stamp = some time

theorem comesTo (c : Cache) {fuel : Nat} (hfuel : c.files.entries.length ≤ fuel) (name : Text) :
    c.ComesTo name ((Inquiry.get c.config fuel name).result c.files) where
  settled := c.get_eq_settle hfuel name
  stamped build hkeeps := by
    obtain ⟨hname, hfile, hbuild⟩ := Inquiry.of_result_get_keeps hkeeps
    rw [Build.onDisk_eq_ofFiles hname hfuel] at hbuild
    obtain ⟨pair, -, hstamp⟩ := Build.exists_entry_of_stamp hname hbuild
    exact ⟨contains_iff.2 ⟨hname, hfile⟩, _, hstamp⟩

theorem exists_comesTo (hconfig : c'.config = c.config)
    (hsources : ∀ other, isTemplateName other = true →
      FileSystem.IsSameOn (c.config.sourceFile other) c.files c'.files)
    (hartifact : c'.files.find? (c.config.artifactPath name) =
      c.files.find? (c.config.artifactPath name)) :
    ∃ v, c.ComesTo name v ∧ c'.ComesTo name v := by
  have hless : c.files.entries.length ≤ c.files.entries.length + c'.files.entries.length :=
    Nat.le_add_right ..
  have hmore : c'.files.entries.length ≤ c.files.entries.length + c'.files.entries.length :=
    Nat.le_add_left ..
  have hafter := c'.comesTo hmore name
  rw [hconfig, Inquiry.result_get_congr _ hsources hartifact] at hafter
  exact ⟨_, c.comesTo hless name, hafter⟩

theorem settle_keeps (c : Cache) (name : Text) (build : Build) :
    c.settle name (.keeps build) =
      ((c.keep name build).1.map fun _ => build.text, (c.keep name build).2) := by
  unfold settle
  dsimp only
  rcases hkeep : c.keep name build with ⟨e | ⟨⟩, kept⟩ <;> rfl

theorem ComesTo.of_keeps {build : Build} (h : c.ComesTo name (.keeps build)) :
    (c.get name).1 = (c.keep name build).1.map (fun _ => build.text) ∧
      (c.get name).2 = (c.keep name build).2 := by
  have hsettled := h.settled
  rw [settle_keeps] at hsettled
  rcases hget : c.get name with ⟨result, after⟩
  rw [hget] at hsettled
  exact Prod.mk.inj hsettled

def IsIdle (v : Inquiry.Verdict) (name : Text) (result : Except Failure Text) : Prop :=
  ∀ c : Cache, c.settle name v = (result, c)

theorem ComesTo.of_isIdle {result : Except Failure Text} (h : c.ComesTo name v)
    (hv : IsIdle v name result) : (c.get name).1 = result ∧ (c.get name).2 = c := by
  rw [h.settled, hv]
  exact ⟨rfl, rfl⟩

theorem isIdle_or_keeps (v : Inquiry.Verdict) (name : Text) :
    (∃ result, IsIdle v name result) ∨ ∃ build, v = .keeps build := by
  cases v with
  | fails e => exact Or.inl ⟨.error e, fun _ => rfl⟩
  | shows text => exact Or.inl ⟨.ok text, fun _ => rfl⟩
  | keeps build => exact Or.inr ⟨build, rfl⟩

/-! ## Two gets -/

/-- Caches that differ in what was reported at most, and in how their files are listed. -/
structure Alike (c c' : Cache) : Prop where
  config : c'.config = c.config
  files : c.files.Alike c'.files
  builds : c'.builds = c.builds

theorem Alike.refl (c : Cache) : c.Alike c := ⟨rfl, .refl _, rfl⟩

theorem Alike.trans {c'' : Cache} (h : c.Alike c') (h' : c'.Alike c'') : c.Alike c'' :=
  ⟨h'.config.trans h.config, h.files.trans h'.files, h'.builds.trans h.builds⟩

structure GetsCommute (c : Cache) (a b : Text) : Prop where
  first : ((c.get b).2.get a).1 = (c.get a).1
  second : ((c.get a).2.get b).1 = (c.get b).1
  alike : ((c.get a).2.get b).2.Alike ((c.get b).2.get a).2

theorem exists_comesTo_get (hc : c.IsSeparate) (hway : c.config.HasOwnWay c.files)
    (hne : c.config.artifactPath a ≠ c.config.artifactPath b) :
    ∃ v, c.ComesTo b v ∧ (c.get a).2.ComesTo b v := by
  obtain ⟨w, ha⟩ : ∃ w, c.ComesTo a w := ⟨_, c.comesTo (Nat.le_refl _) a⟩
  rcases isIdle_or_keeps w a with ⟨result, hw⟩ | ⟨build, rfl⟩
  · rw [(ha.of_isIdle hw).2]
    exact ⟨_, c.comesTo (Nat.le_refl _) b, c.comesTo (Nat.le_refl _) b⟩
  · have hapart : c.KeepsApart a := ⟨hc, hway, (ha.stamped build rfl).1⟩
    rw [ha.of_keeps.2]
    exact exists_comesTo (config_keep ..) (fun other hother => hapart.isSameOn_source build hother)
      (hapart.find?_artifact build hne)

theorem keep_keep (hext : Path.slash ∉ c.config.artifactExtension)
    (hne : c.config.artifactPath a ≠ c.config.artifactPath b) {build build' : Build}
    {time time' : Int} (htime : build.stamp = some time) (htime' : build'.stamp = some time') :
    ((c.keep a build).2.keep b build').1 = (c.keep b build').1 ∧
      ((c.keep a build).2.keep b build').2.Alike ((c.keep b build').2.keep a build).2 := by
  have hcan : ∀ {a b : Text} {build : Build} {time : Int}, build.stamp = some time →
      (c.keep a build).2.canKeep b = c.canKeep b := by
    intro a b build time htime
    rw [canKeep, config_keep, (keep_cases htime).2.1, FileSystem.makeDirectories_store,
      FileSystem.isWritable_store, canKeep]
  obtain ⟨hresult, hfiles, hbuilds⟩ := @keep_cases c a build time htime
  obtain ⟨hresult', hfiles', hbuilds'⟩ := @keep_cases c b build' time' htime'
  obtain ⟨hsecond, hafter, hcount⟩ := @keep_cases (c.keep a build).2 b build' time' htime'
  obtain ⟨-, hafter', hcount'⟩ := @keep_cases (c.keep b build').2 a build time htime
  rw [config_keep] at hsecond hafter hafter'
  rw [hcan htime] at hsecond hcount
  rw [hcan htime'] at hcount'
  refine ⟨by rw [hsecond, hresult'], ?_, ?_, ?_⟩
  · simp only [config_keep]
  · rw [hafter, hafter', hfiles, hfiles']
    exact FileSystem.alike_store_store _ _ (target_artifactPath_ne hext hne c.files)
  · rw [hcount, hcount', hbuilds, hbuilds']
    omega

theorem getsCommute (hc : c.IsSeparate) (hway : c.config.HasOwnWay c.files)
    (hne : c.config.artifactPath a ≠ c.config.artifactPath b) : c.GetsCommute a b := by
  have hext := Config.notMem_of_checkExtension hc.artifact
  obtain ⟨v, hb, hab⟩ := exists_comesTo_get hc hway hne
  obtain ⟨w, ha, hba⟩ := exists_comesTo_get hc hway hne.symm
  rcases isIdle_or_keeps v b with ⟨result, hv⟩ | ⟨build', rfl⟩
  · obtain ⟨hresult, hsame⟩ := hb.of_isIdle hv
    obtain ⟨hresult', hsame'⟩ := hab.of_isIdle hv
    rw [hsame] at hba
    refine ⟨by rw [hsame], by rw [hresult, hresult'], ?_⟩
    rw [hsame, hsame']
    exact .refl _
  · rcases isIdle_or_keeps w a with ⟨result, hw⟩ | ⟨build, rfl⟩
    · obtain ⟨hresult, hsame⟩ := ha.of_isIdle hw
      obtain ⟨hresult', hsame'⟩ := hba.of_isIdle hw
      refine ⟨by rw [hresult, hresult'], by rw [hsame], ?_⟩
      rw [hsame, hsame']
      exact .refl _
    · obtain ⟨time, htime⟩ := (ha.stamped build rfl).2
      obtain ⟨time', htime'⟩ := (hb.stamped build' rfl).2
      obtain ⟨hsecond, halike⟩ := keep_keep hext hne htime htime'
      obtain ⟨hfirst, -⟩ := keep_keep hext hne.symm htime' htime
      obtain ⟨hresult, hkept⟩ := ha.of_keeps
      obtain ⟨hresult', hkept'⟩ := hb.of_keeps
      obtain ⟨hresultba, hkeptba⟩ := hba.of_keeps
      obtain ⟨hresultab, hkeptab⟩ := hab.of_keeps
      rw [hkept'] at hresultba hkeptba
      rw [hkept] at hresultab hkeptab
      constructor
      · rw [hkept', hresultba, hfirst, hresult]
      · rw [hkept, hresultab, hsecond, hresult']
      · rw [hkept, hkept', hkeptab, hkeptba]
        exact halike

/-! ## Many gets -/

theorem Alike.keep (h : c.Alike c') (name : Text) {build : Build} {time : Int}
    (htime : build.stamp = some time) :
    (c'.keep name build).1 = (c.keep name build).1 ∧
      (c.keep name build).2.Alike (c'.keep name build).2 := by
  obtain ⟨hresult, hfiles, hbuilds⟩ := @keep_cases c name build time htime
  obtain ⟨hresult', hfiles', hbuilds'⟩ := @keep_cases c' name build time htime
  have hcan : c'.canKeep name = c.canKeep name := by
    rw [canKeep, canKeep, h.config, (h.files.makeDirectories _).isWritable]
  rw [hcan, h.config] at hresult'
  rw [h.config] at hfiles'
  rw [hcan, h.builds] at hbuilds'
  refine ⟨by rw [hresult, hresult'], ?_, ?_, by rw [hbuilds, hbuilds']⟩
  · rw [config_keep, config_keep, h.config]
  · rw [hfiles, hfiles']
    exact h.files.store ..

theorem Alike.get (h : c.Alike c') (name : Text) :
    (c'.get name).1 = (c.get name).1 ∧ (c.get name).2.Alike (c'.get name).2 := by
  obtain ⟨v, hbefore, hafter⟩ := exists_comesTo h.config (fun _ _ => h.files.isSameOn _)
    (h.files.isSameOn (c.config.artifactPath name)).find?
  rcases isIdle_or_keeps v name with ⟨result, hv⟩ | ⟨build, rfl⟩
  · obtain ⟨hresult, hsame⟩ := hbefore.of_isIdle hv
    obtain ⟨hresult', hsame'⟩ := hafter.of_isIdle hv
    rw [hresult, hresult', hsame, hsame']
    exact ⟨rfl, h⟩
  · obtain ⟨time, htime⟩ := (hbefore.stamped build rfl).2
    obtain ⟨hkept, halike⟩ := h.keep name htime
    obtain ⟨hresult, hsame⟩ := hbefore.of_keeps
    obtain ⟨hresult', hsame'⟩ := hafter.of_keeps
    rw [hresult, hresult', hsame, hsame', hkept]
    exact ⟨rfl, halike⟩

theorem getAll_cons_eq_ok_iff {names : List Text} :
    (c.getAll (name :: names)).1 = .ok () ↔
      (∃ text, (c.get name).1 = .ok text) ∧ ((c.get name).2.getAll names).1 = .ok () := by
  rw [getAll]
  rcases c.get name with ⟨e | text, c'⟩ <;> simp

theorem getAll_cons_of_ok {names : List Text} {text : Text} (h : (c.get name).1 = .ok text) :
    c.getAll (name :: names) = (c.get name).2.getAll names := by
  rw [getAll]
  rcases hget : c.get name with ⟨e | text', c'⟩
  · rw [hget] at h
    cases h
  · rfl

theorem getAll_cons_of_error {names : List Text} {e : Failure} (h : (c.get name).1 = .error e) :
    c.getAll (name :: names) = (.error e, (c.get name).2) := by
  rw [getAll]
  rcases hget : c.get name with ⟨e' | text, c'⟩
  · rw [hget] at h
    cases h
    rfl
  · rw [hget] at h
    cases h

theorem Alike.getAll (h : c.Alike c') (names : List Text) :
    (c'.getAll names).1 = (c.getAll names).1 ∧ (c.getAll names).2.Alike (c'.getAll names).2 := by
  induction names generalizing c c' with
  | nil => exact ⟨rfl, h⟩
  | cons name names ih =>
      obtain ⟨hresult, halike⟩ := h.get name
      cases hget : (c.get name).1 with
      | error e =>
          rw [getAll_cons_of_error hget, getAll_cons_of_error (hresult.trans hget)]
          exact ⟨rfl, halike⟩
      | ok text =>
          rw [getAll_cons_of_ok hget, getAll_cons_of_ok (hresult.trans hget)]
          exact ih halike

structure IsOrderly (c : Cache) : Prop where
  separate : c.IsSeparate
  ownWay : c.config.HasOwnWay c.files

theorem IsOrderly.keep (h : c.IsOrderly) (name : Text) (build : Build) :
    (c.keep name build).2.IsOrderly := by
  have hway := h.ownWay.keep name build
  have hcurrent := current_keep c name build
  have hconfig := config_keep c name build
  obtain ⟨⟨hapart, htemplate, hartifact⟩, -⟩ := h
  rw [← hconfig] at hway hapart htemplate hartifact
  exact ⟨⟨hapart.congr hcurrent, htemplate, hartifact⟩, hway⟩

theorem IsOrderly.get (h : c.IsOrderly) (name : Text) : (c.get name).2.IsOrderly := by
  rcases get_cases c name with ⟨e, hget, -⟩ | ⟨text, hget, -, -⟩ | ⟨build, -, -, hget⟩
  · rw [hget]
    exact h
  · rw [hget]
    exact h
  · rw [hget]
    dsimp only
    exact h.keep name build

def HasDistinctArtifacts (c : Config) (names : List Text) : Prop :=
  names.Pairwise fun a b => c.artifactPath a ≠ c.artifactPath b

theorem getAll_perm {names names' : List Text} (hperm : names.Perm names') (h : c.IsOrderly)
    (hdistinct : HasDistinctArtifacts c.config names) (hok : (c.getAll names).1 = .ok ()) :
    (c.getAll names').1 = .ok () ∧ (c.getAll names).2.Alike (c.getAll names').2 := by
  induction hperm generalizing c with
  | nil => exact ⟨hok, .refl _⟩
  | cons name hperm ih =>
      obtain ⟨⟨text, hget⟩, hrest⟩ := getAll_cons_eq_ok_iff.1 hok
      have htail := (List.pairwise_cons.1 hdistinct).2
      rw [← config_get c name] at htail
      rw [getAll_cons_of_ok hget, getAll_cons_of_ok hget]
      exact ih (h.get name) htail hrest
  | swap a b names =>
      obtain ⟨⟨text, hget⟩, hrest⟩ := getAll_cons_eq_ok_iff.1 hok
      obtain ⟨⟨text', hget'⟩, hrest'⟩ := getAll_cons_eq_ok_iff.1 hrest
      have hne := (List.pairwise_cons.1 hdistinct).1 a List.mem_cons_self
      have hcommute := getsCommute h.separate h.ownWay hne
      have hfirst : (c.get a).1 = .ok text' := hcommute.second.symm.trans hget'
      have hsecond : ((c.get a).2.get b).1 = .ok text := hcommute.first.trans hget
      rw [getAll_cons_of_ok hget, getAll_cons_of_ok hget', getAll_cons_of_ok hfirst,
        getAll_cons_of_ok hsecond]
      obtain ⟨hresult, halike⟩ := hcommute.alike.getAll names
      exact ⟨hresult.trans hrest', halike⟩
  | trans hperm _ ih ih' =>
      obtain ⟨hmiddle, halike⟩ := ih h hdistinct hok
      have hdistinct' := (hperm.pairwise_iff fun hne => hne.symm).1 hdistinct
      obtain ⟨hlast, halike'⟩ := ih' h hdistinct' hmiddle
      exact ⟨hlast, halike.trans halike'⟩

/-- The order of gets does not matter: of two, and of all that are warmed. -/
structure IsOrderless (c : Cache) : Prop where
  gets : ∀ a b, c.config.artifactPath a ≠ c.config.artifactPath b → c.GetsCommute a b
  warms : HasDistinctArtifacts c.config (c.config.templates c.files) →
    ∀ n, c.warm.1 = .ok n → ∀ names, names.Perm (c.config.templates c.files) →
      (c.getAll names).1 = .ok () ∧ c.warm.2.Alike (c.getAll names).2

theorem alike_report (c : Cache) (e : Event) : (c.report e).Alike c :=
  ⟨(config_report c e).symm, by rw [files_report]; exact .refl _, (builds_report c e).symm⟩

theorem IsOrderly.isOrderless (h : c.IsOrderly) : c.IsOrderless := by
  constructor
  · exact fun a b hne => getsCommute h.separate h.ownWay hne
  · intro hdistinct n hwarm names hperm
    unfold warm at hwarm ⊢
    dsimp only at hwarm ⊢
    rcases hall : c.getAll (c.config.templates c.files) with ⟨e | ⟨⟩, warmed⟩
    · rw [hall] at hwarm
      cases hwarm
    · obtain ⟨hok, halike⟩ := getAll_perm hperm.symm h hdistinct (by rw [hall])
      rw [hall] at halike
      exact ⟨hok, (alike_report ..).trans halike⟩

end Cache

/-! ## A page and its layout -/

namespace Paired

def cache : Cache := .new Siblings.config (Siblings.filesOf
  [(['p'], "@extends('l')@section('s','p')".toList), (['l'], "[@yield('s')]".toList)])

theorem isOrderly : cache.IsOrderly where
  separate :=
    { apart := Sample.isApart.congr (by decide +kernel)
      template := by decide
      artifact := by decide }
  ownWay :=
    { around := Config.isReachedFromAround_of_up_notMem (by decide) _
      outside := by
        have hway : cache.files.way cache.config.cacheRoot = [[], [['c']]] := by decide +kernel
        have hroot : cache.files.target cache.config.viewRoot = [['v']] := by decide +kernel
        intro place hplace hnone inner hinner
        rw [hroot]
        rw [hway] at hplace
        rintro rfl
        simp [List.append_eq_singleton_iff, hinner] at hplace }

-- evaluated together, since both read the templates
theorem warm_and_artifactPath_ne :
    cache.warm.1.toOption = some 2 ∧
      (cache.config.templates cache.files).Pairwise fun a b =>
        cache.config.artifactPath a ≠ cache.config.artifactPath b := by
  decide +kernel

end Paired

theorem Cache.isOrderless_paired :
    (Paired.cache.warm.1 = .ok 2 ∧ Cache.HasDistinctArtifacts Paired.cache.config
        (Paired.cache.config.templates Paired.cache.files)) ∧
      Paired.cache.IsOrderless :=
  ⟨⟨Siblings.eq_ok_of_toOption Paired.warm_and_artifactPath_ne.1,
    Paired.warm_and_artifactPath_ne.2⟩, Paired.isOrderly.isOrderless⟩

/-! ## A way to the cache that is not there yet -/

namespace Detour

def config : Config := ⟨⟨['v']⟩, ⟨"m/../c".toList⟩, ['t'], ['a'], false⟩

@[irreducible]
def files : FileSystem :=
  ((Siblings.filesOf [(['p'], ['p']), (['q'], ['q'])]).put ['c'] [] (.directory 0)).put
    (Config.artifactKey ['q'] ++ ['.', 'a']) [['c']] (.file (Text.bytes "old".toList).toByteArray 9)

def cache : Cache := .new config files

-- evaluated together, since all of it needs the artifacts of these templates
theorem get_changes_get :
    config.artifactPath ['p'] ≠ config.artifactPath ['q'] ∧
      (cache.get ['q']).1.toOption = some ['q'] ∧
      ((cache.get ['p']).2.get ['q']).1.toOption = some "old".toList := by
  decide +kernel

theorem isApart : config.IsApart files := by
  have hcache : files.target config.cacheRoot = [['c']] := by decide +kernel
  have hview : files.target config.viewRoot = [['v']] := by decide +kernel
  refine Config.isApart_of (by decide) (by decide +kernel) (by rw [hcache, hview]; decide) ?_
  rintro ⟨inner, htarget, -⟩
  rw [hcache, hview] at htarget
  have hsplit : [] ++ [['c']] = inner.reverse ++ [['v']] := htarget
  obtain ⟨-, hlast⟩ := List.append_inj' hsplit rfl
  exact absurd hlast (by decide)

theorem isSeparate : cache.IsSeparate where
  apart := isApart
  template := by decide
  artifact := by decide

end Detour

theorem Cache.not_forall_getsCommute :
    ¬∀ c : Cache, c.IsSeparate → ∀ a b, c.config.artifactPath a ≠ c.config.artifactPath b →
      c.GetsCommute a b := by
  intro h
  obtain ⟨hne, hbefore, hafter⟩ := Detour.get_changes_get
  have hcommute := h Detour.cache Detour.isSeparate ['p'] ['q'] hne
  rw [hcommute.second, hbefore] at hafter
  revert hafter
  decide

namespace Amid

def config : Config := ⟨⟨['v']⟩, ⟨"v/x/c\\d".toList⟩, ['t'], ['a'], false⟩

/-- A layout in the directory on that way, of a name that is too long for a file. -/
def layout : Text := "x/".toList ++ List.replicate 64 '𝒜'

@[irreducible]
def files : FileSystem :=
  Siblings.filesOf [(['p'], ['p']), (['q'], "@extends('".toList ++ layout ++ "')".toList)]

def cache : Cache := .new config files

def lacksLayout : Except Failure Text → Bool
  | .error (.layoutNotFound ..) => true
  | _ => false

theorem get_changes_failure :
    config.artifactPath ['p'] ≠ config.artifactPath ['q'] ∧
      lacksLayout (cache.get ['q']).1 = true ∧
      lacksLayout ((cache.get ['p']).2.get ['q']).1 = false := by
  decide +kernel

theorem isApart : config.IsApart files := by
  have hcache : files.target config.cacheRoot = [['c', '\\', 'd'], ['x'], ['v']] := by
    decide +kernel
  have hview : files.target config.viewRoot = [['v']] := by decide +kernel
  refine Config.isApart_of (by decide) (by decide +kernel) (by rw [hcache, hview]; decide) ?_
  rintro ⟨inner, htarget, hvalid⟩
  rw [hcache, hview] at htarget
  have hsplit : [['c', '\\', 'd'], ['x']] ++ [['v']] = inner.reverse ++ [['v']] := htarget
  have hinner : ['c', '\\', 'd'] ∈ inner.reverse :=
    List.append_cancel_right hsplit ▸ List.mem_cons_self
  exact (hvalid _ (List.mem_reverse.1 hinner)).backslash (by decide)

theorem isSeparate : cache.IsSeparate where
  apart := isApart
  template := by decide
  artifact := by decide

end Amid

theorem Cache.not_forall_getsCommute_of_around :
    ¬∀ c : Cache, c.IsSeparate →
      (∀ place ∈ c.files.way c.config.cacheRoot, c.files.at? place = none →
        place <:+ c.files.target c.config.cacheRoot) →
      ∀ a b, c.config.artifactPath a ≠ c.config.artifactPath b → c.GetsCommute a b := by
  intro h
  obtain ⟨hne, hbefore, hafter⟩ := Amid.get_changes_failure
  have hcommute := h Amid.cache Amid.isSeparate (by decide +kernel) ['p'] ['q'] hne
  rw [hcommute.second, hbefore] at hafter
  cases hafter

end Stencil
