import Stencil.Proofs.Cache.Unedited

/-!
# Edits during a build

A build looks at one file after the other, and files may be edited in between.
The time that its artifact carries is the latest that was found, each before its
file was read.  So an edit that comes after the time of its file was taken makes
the artifact stale, unless a file that is looked at later was edited after it:
then the time of that later edit covers the earlier one.
-/

namespace Stencil

open Stencil.Template

/-! ## Chains in files that change -/

namespace Reading

variable {c : Config} {disk : Looks} {earlier : List Text} {last r : Reading}
  {readings : List Reading}

structure IsTaken (c : Config) (disk : Looks) (i : Nat) (r : Reading) : Prop where
  content : ∃ source, (disk (2 * i + 1)).readText (c.sourceFile r.name) = .ok source ∧
    r.document = .ofSource source
  modified : r.modified = (disk (2 * i)).modified? (c.sourceFile r.name)

theorem isTaken_of_take {i : Nat} {name : Text} {missing : Failure}
    (h : take c disk i name missing = .ok r) : r.name = name ∧ IsTaken c disk i r := by
  unfold take at h
  dsimp only at h
  split at h
  · next source hsource =>
    cases h
    exact ⟨rfl, ⟨source, hsource, rfl⟩, rfl⟩
  · cases h
  · cases h

inductive IsFollowed (c : Config) (disk : Looks) : List Text → Reading → List Reading → Prop
  | root {earlier : List Text} {last : Reading} (h : last.document.layout = none) :
      IsFollowed c disk earlier last [last]
  | layout {earlier : List Text} {last next : Reading} {layout : Text} {readings : List Reading}
      (h : last.document.layout = some layout) (hnew : layout ∉ earlier ++ [last.name])
      (hname : isTemplateName layout = true) (hnext : next.name = layout)
      (htaken : IsTaken c disk (earlier.length + 1) next)
      (hrest : IsFollowed c disk (earlier ++ [last.name]) next readings) :
      IsFollowed c disk earlier last (last :: readings)

theorem isFollowed_of_follow {fuel : Nat} (h : follow c disk fuel earlier last = .ok readings) :
    IsFollowed c disk earlier last readings := by
  induction fuel generalizing earlier last readings with
  | zero =>
      unfold follow at h
      split at h
      · next hlayout =>
        cases h
        exact .root hlayout
      · dsimp only at h
        split at h
        · cases h
        · split at h <;> cases h
  | succ fuel ih =>
      unfold follow at h
      split at h
      · next hlayout =>
        cases h
        exact .root hlayout
      · next layout hlayout =>
        dsimp only at h
        split at h
        · cases h
        · next hnew =>
          split at h
          · cases h
          · next hname =>
            split at h
            · cases h
            · next next hnext =>
              split at h
              · cases h
              · next rest hrest =>
                cases h
                obtain ⟨hsame, htaken⟩ := isTaken_of_take hnext
                rw [List.length_append, List.length_singleton] at htaken
                exact .layout hlayout hnew (by simpa using hname) hsame htaken (ih hrest)

theorem IsFollowed.eq_cons (h : IsFollowed c disk earlier last readings) :
    readings = last :: readings.tail := by
  cases h <;> rfl

theorem IsFollowed.isTaken (h : IsFollowed c disk earlier last readings) {i : Nat}
    (hr : readings[i + 1]? = some r) :
    isTemplateName r.name = true ∧ IsTaken c disk (earlier.length + (i + 1)) r := by
  induction h generalizing i with
  | root => cases hr
  | layout h hnew hname hnext htaken hrest ih =>
      rw [List.getElem?_cons_succ] at hr
      cases i with
      | zero =>
          rw [hrest.eq_cons, List.getElem?_cons_zero] at hr
          cases hr
          exact ⟨hnext ▸ hname, htaken⟩
      | succ i =>
          have htail := ih hr
          rw [List.length_append, List.length_singleton, Nat.add_assoc, Nat.add_comm 1] at htail
          exact htail

theorem IsFollowed.nodup (h : IsFollowed c disk earlier last readings)
    (hearlier : (earlier ++ [last.name]).Nodup) : (earlier ++ readings.map name).Nodup := by
  induction h with
  | root => exact hearlier
  | layout _ hnew _ hnext _ _ ih =>
      have hnames := ih (by
        rw [hnext]
        exact List.nodup_append.2 ⟨hearlier, List.nodup_singleton _, by
          rintro a ha b hb rfl
          exact hnew (List.mem_singleton.1 hb ▸ ha)⟩)
      simpa using hnames

def IsAlike (r r' : Reading) : Prop := r'.name = r.name ∧ r'.document = r.document

theorem IsFollowed.exists_isChain (h : IsFollowed c disk earlier last readings)
    {files : FileSystem} {last' : Reading} (hlast : IsAlike last last')
    (hsame : ∀ r ∈ readings.tail, ∃ r', at? c files r.name = some r' ∧ IsAlike r r') :
    ∃ readings', IsChain c files earlier last' readings' ∧
      List.Forall₂ IsAlike readings readings' := by
  induction h generalizing last' with
  | root h => exact ⟨[last'], .root (hlast.2 ▸ h), .cons hlast .nil⟩
  | layout h hnew hname hnext htaken hrest ih =>
      rw [List.tail_cons] at hsame
      rw [hrest.eq_cons] at hsame
      obtain ⟨⟨next', hat, halike⟩, htail⟩ := List.forall_mem_cons.1 hsame
      obtain ⟨readings', hchain, hforall⟩ := ih halike htail
      rw [hnext] at hat
      rw [← hlast.1] at hnew hchain
      exact ⟨last' :: readings', .layout (hlast.2 ▸ h) hnew hname hat hchain, .cons hlast hforall⟩

theorem text_ofChain_congr {readings' : List Reading}
    (h : List.Forall₂ IsAlike readings readings') :
    (Build.ofChain readings').text = (Build.ofChain readings).text := by
  have hsame : readings'.map name = readings.map name ∧
      readings'.map document = readings.map document := by
    induction h with
    | nil => exact ⟨rfl, rfl⟩
    | cons hr _ ih => simp [hr.1, hr.2, ih.1, ih.2]
  rw [Build.ofChain, Build.ofChain, List.map_tail, hsame.1, hsame.2, List.map_tail]

end Reading

/-! ## Moments -/

/-- From one moment to the next, one place changes at most.  It is not in the cache directory, and
what is new there is newer than all that was seen. -/
structure Config.IsEditAt (c : Config) (files : Nat → FileSystem) (s : Nat) : Prop where
  edit : c.IsEdit ((List.range (s + 1)).map files) (files s) (files (s + 1))
  single : ∃ place, ∀ other, other ≠ place → (files (s + 1)).at? other = (files s).at? other

/-- A build whose looks fall on certain moments, with edits in between.  Its artifact is kept at a
moment that no look comes after, and more edits may follow. -/
structure IsInterleaved (c : Config) (name : Text) (files : Nat → FileSystem) (look : Nat → Nat)
    (last : Nat) (readings : List Reading) : Prop where
  valid : isTemplateName name = true
  apart : c.IsApart (files 0)
  template : Config.checkExtension .templateExtension c.templateExtension = .ok ()
  artifact : Config.checkExtension .artifactExtension c.artifactExtension = .ok ()
  ordered : ∀ k l, k ≤ l → look k ≤ look l
  before : ∀ k, look k ≤ last
  present : (files (look 0)).isFile (c.sourceFile name) = true
  read : ∃ fuel, Reading.chain c (fun k => files (look k)) fuel name = .ok readings
  kept : ∃ cache : Cache, cache.config = c ∧ cache.files = files last ∧
    (cache.keep name (.ofChain readings)).1 = .ok () ∧
    (cache.keep name (.ofChain readings)).2.files = files (last + 1)
  edits : ∀ s, s ≠ last → c.IsEditAt files s

def Comes (files : Nat → FileSystem) (s : Nat) (place : Place) (e : Entry) : Prop :=
  (files (s + 1)).at? place = some e ∧ (files s).at? place ≠ some e

theorem at?_eq_or_exists_comes (files : Nat → FileSystem) (place : Place) {s t : Nat} (h : s ≤ t)
    {e : Entry} (he : (files t).at? place = some e) :
    (files s).at? place = some e ∨ ∃ u, s ≤ u ∧ u < t ∧ Comes files u place e := by
  induction t, h using Nat.le_induction with
  | base => exact Or.inl he
  | succ t hle ih =>
      by_cases hbefore : (files t).at? place = some e
      · rcases ih hbefore with h | ⟨u, hu, hlt, hcomes⟩
        · exact Or.inl h
        · exact Or.inr ⟨u, hu, Nat.lt_succ_of_lt hlt, hcomes⟩
      · exact Or.inr ⟨t, hle, Nat.lt_succ_self t, he, hbefore⟩

namespace IsInterleaved

variable {c : Config} {name : Text} {files : Nat → FileSystem} {look : Nat → Nat} {last : Nat}
  {readings : List Reading}

def sourceAt (c : Config) (files : Nat → FileSystem) (name : Text) : Place :=
  (files 0).target (c.sourceFile name)

theorem current (h : IsInterleaved c name files look last readings) (s : Nat) :
    (files s).current = (files 0).current := by
  induction s with
  | zero => rfl
  | succ s ih =>
      rw [← ih]
      by_cases hs : s = last
      · obtain ⟨cache, -, hfiles, -, hkept⟩ := h.kept
        rw [hs, ← hkept, ← hfiles]
        exact Cache.current_keep ..
      · exact (h.edits s hs).edit.current

theorem target_source (h : IsInterleaved c name files look last readings) (s : Nat) (other : Text) :
    (files s).target (c.sourceFile other) = sourceAt c files other :=
  FileSystem.target_congr (h.current s) _

theorem at?_kept (h : IsInterleaved c name files look last readings) {other : Text}
    (hother : isTemplateName other = true) :
    (files (last + 1)).at? (sourceAt c files other) =
      (files last).at? (sourceAt c files other) := by
  obtain ⟨cache, rfl, hfiles, -, hkept⟩ := h.kept
  have hapart := h.apart.congr (h.current last)
  rw [← hfiles] at hapart
  rw [← h.target_source last, ← hkept, ← hfiles]
  exact cache.at?_keep_source hapart (Config.notMem_of_checkExtension h.artifact) name _ hother

theorem isOlder_of_comes (h : IsInterleaved c name files look last readings) {other : Text}
    (hother : isTemplateName other = true) {s : Nat} {e : Entry}
    (hcomes : Comes files s (sourceAt c files other) e) :
    s ≠ last ∧ ∀ t ≤ s, (files t).IsOlder e := by
  obtain ⟨hafter, hbefore⟩ := hcomes
  have hs : s ≠ last := by
    rintro rfl
    rw [h.at?_kept hother] at hafter
    exact hbefore hafter
  refine ⟨hs, fun t ht => ?_⟩
  rcases (h.edits s hs).edit.changes (sourceAt c files other) with hsame | hnone | ⟨e', he', hnewer⟩
  · exact absurd (hsame ▸ hafter) hbefore
  · rw [hnone] at hafter
    cases hafter
  · rw [hafter] at he'
    cases he'
    exact hnewer _ (List.mem_map_of_mem (List.mem_range.2 (Nat.lt_succ_of_le ht)))

theorem sourceAt_ne_nil (h : IsInterleaved c name files look last readings) {other : Text}
    (hother : isTemplateName other = true) : sourceAt c files other ≠ [] := by
  obtain ⟨front, file, hsplit⟩ := Text.exists_splitOn_eq_concat Path.slash other
  rw [sourceAt, Config.target_sourceFile hother (Config.notMem_of_checkExtension h.template),
    namedPlace_eq hsplit]
  exact List.cons_ne_nil _ _

theorem sourceAt_inj (h : IsInterleaved c name files look last readings) {other other' : Text}
    (hother : isTemplateName other = true) (hother' : isTemplateName other' = true)
    (hsame : sourceAt c files other = sourceAt c files other') : other = other' := by
  have hext := Config.notMem_of_checkExtension h.template
  rw [sourceAt, sourceAt, Config.target_sourceFile hother hext,
    Config.target_sourceFile hother' hext] at hsame
  exact namedPlace_inj hsame

theorem lt_of_comes (h : IsInterleaved c name files look last readings) {other other' : Text}
    (hother : isTemplateName other = true) (hother' : isTemplateName other' = true) {s t : Nat}
    {e f : Entry} (hcomes : Comes files s (sourceAt c files other) e)
    (hf : (files t).at? (sourceAt c files other') = some f) (ht : t ≤ s) :
    f.modified < e.modified :=
  (h.isOlder_of_comes hother hcomes).2 t ht _
    (((files t).mem_entries_iff (h.sourceAt_ne_nil hother')).2 hf)

theorem at?_of_comes_of_ne (h : IsInterleaved c name files look last readings) {other other' : Text}
    (hother : isTemplateName other = true) (hother' : isTemplateName other' = true)
    (hne : other' ≠ other) {s : Nat} {e : Entry}
    (hcomes : Comes files s (sourceAt c files other) e) :
    (files (s + 1)).at? (sourceAt c files other') = (files s).at? (sourceAt c files other') := by
  obtain ⟨place, hplace⟩ := (h.edits s (h.isOlder_of_comes hother hcomes).1).single
  obtain rfl : sourceAt c files other = place := by
    by_contra hother''
    exact hcomes.2 ((hplace _ hother'').symm.trans hcomes.1)
  exact hplace _ fun hsame => hne (h.sourceAt_inj hother' hother hsame)

/-! ## The documents of the chain -/

theorem exists_page (h : IsInterleaved c name files look last readings) :
    ∃ page, readings = page :: readings.tail ∧ page.name = name ∧
      Reading.IsTaken c (fun k => files (look k)) 0 page ∧
      Reading.IsFollowed c (fun k => files (look k)) [] page readings := by
  obtain ⟨fuel, hread⟩ := h.read
  unfold Reading.chain at hread
  split at hread
  · cases hread
  · next page hpage =>
    obtain ⟨hname, htaken⟩ := Reading.isTaken_of_take hpage
    have hfollowed := Reading.isFollowed_of_follow hread
    exact ⟨page, hfollowed.eq_cons, hname, htaken, hfollowed⟩

theorem isTaken (h : IsInterleaved c name files look last readings) {i : Nat} {r : Reading}
    (hr : readings[i]? = some r) :
    isTemplateName r.name = true ∧ Reading.IsTaken c (fun k => files (look k)) i r := by
  obtain ⟨page, hcons, hname, htaken, hfollowed⟩ := h.exists_page
  cases i with
  | zero =>
      rw [hcons, List.getElem?_cons_zero] at hr
      cases hr
      exact ⟨hname ▸ h.valid, htaken⟩
  | succ i => simpa using hfollowed.isTaken hr

theorem eq_of_name_eq (h : IsInterleaved c name files look last readings) {i j : Nat}
    {r r' : Reading} (hr : readings[i]? = some r) (hr' : readings[j]? = some r')
    (hname : r.name = r'.name) : i = j := by
  obtain ⟨page, -, -, -, hfollowed⟩ := h.exists_page
  have hnodup : (readings.map Reading.name).Nodup := by simpa using hfollowed.nodup (by simp)
  have hlength : i < (readings.map Reading.name).length := by
    rw [List.length_map]
    exact (List.getElem?_eq_some_iff.1 hr).1
  refine (List.getElem?_inj hlength hnodup).1 ?_
  rw [List.getElem?_map, List.getElem?_map, hr, hr', Option.map_some, Option.map_some, hname]

theorem modified_eq_some_iff (h : IsInterleaved c name files look last readings) {i : Nat}
    {r : Reading} (hr : readings[i]? = some r) {time : Int} :
    r.modified = some time ↔
      ∃ f, (files (look (2 * i))).find? (c.sourceFile r.name) = some f ∧ f.modified = time := by
  rw [(h.isTaken hr).2.modified, FileSystem.modified?, Option.map_eq_some_iff]

theorem at?_of_find? (h : IsInterleaved c name files look last readings) {s : Nat} {other : Text}
    {f : Entry} (hf : (files s).find? (c.sourceFile other) = some f) :
    (files s).at? (sourceAt c files other) = some f :=
  h.target_source s other ▸ FileSystem.at?_of_find? hf

theorem exists_stamp (h : IsInterleaved c name files look last readings) :
    ∃ time, (Build.ofChain readings).stamp = some time := by
  obtain ⟨page, hcons, hname, htaken, -⟩ := h.exists_page
  obtain ⟨e, he, -⟩ := (Option.any_eq_true ..).1 h.present
  have htime : page.modified = some e.modified := by
    rw [htaken.modified, hname, Nat.mul_zero]
    simp [FileSystem.modified?, he]
  have hpage : page ∈ readings := hcons ▸ List.mem_cons_self
  obtain ⟨time, hlatest, -⟩ := Build.le_latest hpage htime
  exact ⟨time, hlatest⟩

/-! ## Edits after a time was taken -/

/-- An edit of document `i` at some moment is overtaken: the time of a later document was taken
after that, and what was found had come after that too. -/
def IsOvertaken (c : Config) (files : Nat → FileSystem) (look : Nat → Nat) (readings : List Reading)
    (i s : Nat) : Prop :=
  ∃ j r f, i < j ∧ readings[j]? = some r ∧ s < look (2 * j) ∧
    (files (look (2 * j))).find? (c.sourceFile r.name) = some f ∧
    (files (s + 1)).at? (sourceAt c files r.name) ≠ some f

theorem le_stamp_iff (h : IsInterleaved c name files look last readings) {time : Int}
    (htime : (Build.ofChain readings).stamp = some time) {i s : Nat} {r : Reading} {e : Entry}
    (hr : readings[i]? = some r) (hs : look (2 * i) ≤ s)
    (hcomes : Comes files s (sourceAt c files r.name) e) :
    e.modified ≤ time ↔ IsOvertaken c files look readings i s := by
  have hvalid := (h.isTaken hr).1
  constructor
  · intro hle
    -- some look has found the time; not before the edit, since all was older then
    obtain ⟨page, hcons, -⟩ := h.exists_page
    obtain ⟨newest, hnewest, hlatest⟩ := Build.exists_modified_eq_latest page readings.tail
    rw [← hcons] at hnewest hlatest
    obtain ⟨j, hj⟩ := List.getElem?_of_mem hnewest
    obtain ⟨f, hf, hmodified⟩ := (h.modified_eq_some_iff hj).1 (hlatest.symm.trans htime)
    have hat := h.at?_of_find? hf
    have hvalid' := (h.isTaken hj).1
    have hafter : s < look (2 * j) := by
      by_contra hbefore
      have hlt := h.lt_of_comes hvalid hvalid' hcomes hat (Nat.le_of_not_lt hbefore)
      omega
    have hij : i < j := by
      by_contra hji
      have hlook := h.ordered (2 * j) (2 * i) (by omega)
      omega
    refine ⟨j, newest, f, hij, hj, hafter, hf, fun hthere => ?_⟩
    have hne : newest.name ≠ r.name := fun hname => by
      have := h.eq_of_name_eq hj hr hname
      omega
    rw [h.at?_of_comes_of_ne hvalid hvalid' hne hcomes] at hthere
    have hlt := h.lt_of_comes hvalid hvalid' hcomes hthere (Nat.le_refl s)
    omega
  · rintro ⟨j, r', f, -, hj, hafter, hf, hthere⟩
    have hvalid' := (h.isTaken hj).1
    obtain ⟨bound, hbound, hle⟩ := Build.le_latest (List.mem_of_getElem? hj)
      ((h.modified_eq_some_iff hj).2 ⟨f, hf, rfl⟩)
    cases hbound.symm.trans htime
    rcases at?_eq_or_exists_comes files _ hafter (h.at?_of_find? hf) with hsame |
      ⟨u, hu, -, hlater⟩
    · exact absurd hsame hthere
    · have hlt := h.lt_of_comes hvalid' hvalid hlater hcomes.1 hu
      omega

/-! ## What the artifact shows -/

theorem target_artifact (h : IsInterleaved c name files look last readings) (s : Nat) :
    (files s).target (c.artifactPath name) = (files 0).target (c.artifactPath name) :=
  FileSystem.target_congr (h.current s) _

theorem at?_artifact (h : IsInterleaved c name files look last readings) {n : Nat}
    (hn : last < n) :
    (files n).at? ((files 0).target (c.artifactPath name)) =
      (files (last + 1)).at? ((files 0).target (c.artifactPath name)) := by
  induction n, hn using Nat.le_induction with
  | base => rfl
  | succ n hle ih =>
      rw [← ih]
      refine (h.edits n (by omega)).edit.cache _ ?_
      rw [FileSystem.target_congr (h.current n),
        Config.target_artifactPath (Config.notMem_of_checkExtension h.artifact)]
      exact List.suffix_cons ..

theorem eq_of_find?_artifact (h : IsInterleaved c name files look last readings) {time : Int}
    (htime : (Build.ofChain readings).stamp = some time) {n : Nat} (hn : last < n) {e : Entry}
    (he : (files n).find? (c.artifactPath name) = some e) :
    e = .file (Text.bytes (Build.ofChain readings).text).toByteArray time := by
  have hat := FileSystem.at?_of_find? he
  rw [h.target_artifact, h.at?_artifact hn, ← h.target_artifact (last + 1)] at hat
  obtain ⟨cache, rfl, -, hok, hkept⟩ := h.kept
  have hfound := Cache.find?_artifact_keep hok htime
  rw [hkept] at hfound
  rw [FileSystem.at?_of_find? hfound] at hat
  exact (Option.some.inj hat).symm

theorem notAfter_of_freshText? (h : IsInterleaved c name files look last readings) {time : Int}
    (htime : (Build.ofChain readings).stamp = some time) {n : Nat} (hn : last < n) {text : Text}
    (hfresh : c.freshText? (files n) (c.sourceFile name) (c.artifactPath name) = some text) :
    text = (Build.ofChain readings).text ∧
      ∀ r ∈ readings, notAfter (files n) (c.sourceFile r.name) time = true := by
  obtain ⟨page, hcons, hname, -, -⟩ := h.exists_page
  obtain ⟨e, he, htext, hsource, hlayouts⟩ := Config.freshText?_eq_some_iff.1 hfresh
  obtain rfl := h.eq_of_find?_artifact htime hn he
  have hsame : text = (Build.ofChain readings).text :=
    Option.some.inj (htext.symm.trans (Text.ofBytes?_bytes _))
  have hempty : [] ∉ readings.tail.map Reading.name := by
    intro hmem
    obtain ⟨r, hr, hnil⟩ := List.mem_map.1 hmem
    obtain ⟨i, hi⟩ := List.getElem?_of_mem (List.mem_of_mem_tail hr)
    exact ne_nil_of_isTemplateName (h.isTaken hi).1 hnil
  refine ⟨hsame, fun r hr => ?_⟩
  rw [hcons] at hr
  rcases List.mem_cons.1 hr with rfl | hr
  · exact hname ▸ hsource
  · refine (hlayouts r.name ?_).2
    rw [hsame, Build.ofChain, Artifact.dependencies_header_append _ hempty]
    exact List.mem_append_left _ (List.mem_map_of_mem hr)

theorem exists_at?_isAlike (h : IsInterleaved c name files look last readings) {time : Int}
    (htime : (Build.ofChain readings).stamp = some time) {n : Nat} (hn : last < n) {i : Nat}
    {r : Reading} (hr : readings[i]? = some r)
    (hnot : notAfter (files n) (c.sourceFile r.name) time = true)
    (hovertaken : ∀ s e, look (2 * i) ≤ s → s < n → Comes files s (sourceAt c files r.name) e →
      ¬IsOvertaken c files look readings i s) :
    ∃ r', Reading.at? c (files n) r.name = some r' ∧ r.IsAlike r' := by
  obtain ⟨e, he, hle⟩ := notAfter_iff.1 hnot
  obtain ⟨source, hsource, hdocument⟩ := (h.isTaken hr).2.content
  obtain ⟨e', he', hcontent⟩ := FileSystem.readText_eq_ok_iff.1 hsource
  have hlook := h.ordered (2 * i) (2 * i + 1) (by omega)
  have hbefore : look (2 * i + 1) ≤ n := (h.before _).trans (Nat.le_of_lt hn)
  have hthere : (files (look (2 * i + 1))).at? (sourceAt c files r.name) = some e := by
    rcases at?_eq_or_exists_comes files _ hbefore (h.at?_of_find? he) with hsame |
      ⟨s, hs, hlt, hcomes⟩
    · exact hsame
    · exact absurd ((h.le_stamp_iff htime hr (hlook.trans hs) hcomes).1 hle)
        (hovertaken s e (hlook.trans hs) hlt hcomes)
  cases (h.at?_of_find? he').symm.trans hthere
  exact ⟨_, Reading.at?_of_find? he hcontent, rfl, hdocument.symm⟩

structure TellsEdits (c : Config) (name : Text) (files : Nat → FileSystem) (look : Nat → Nat)
    (last : Nat) (readings : List Reading) : Prop where
  stamp : ∃ time, (Build.ofChain readings).stamp = some time ∧
    ∀ i r s e, readings[i]? = some r → look (2 * i) ≤ s →
      Comes files s (sourceAt c files r.name) e →
      (e.modified ≤ time ↔ IsOvertaken c files look readings i s)
  /-- Without such edits a fresh artifact is what would be built now. -/
  current : ∀ n text, last < n →
    (∀ i r s e, readings[i]? = some r → look (2 * i) ≤ s → s < n →
      Comes files s (sourceAt c files r.name) e → ¬IsOvertaken c files look readings i s) →
    c.freshText? (files n) (c.sourceFile name) (c.artifactPath name) = some text →
    text = (Build.ofChain readings).text ∧
      ∃ build, Build.ofFiles c (files n) name = .ok build ∧ build.text = text
  /-- Only edits of a layout between the first look and the one that takes its time overtake
  others. -/
  settled : (∀ j r s e, readings[j]? = some r → look 0 ≤ s → s < look (2 * j) →
    ¬Comes files s (sourceAt c files r.name) e) →
    ∀ i s, look (2 * i) ≤ s → ¬IsOvertaken c files look readings i s

theorem tellsEdits (h : IsInterleaved c name files look last readings) :
    TellsEdits c name files look last readings := by
  obtain ⟨time, htime⟩ := h.exists_stamp
  constructor
  · exact ⟨time, htime, fun i r s e hr hs hcomes => h.le_stamp_iff htime hr hs hcomes⟩
  · intro n text hn hovertaken hfresh
    obtain ⟨htext, hnot⟩ := h.notAfter_of_freshText? htime hn hfresh
    have halike : ∀ i (r : Reading), readings[i]? = some r →
        ∃ r', Reading.at? c (files n) r.name = some r' ∧ r.IsAlike r' := fun i r hr =>
      h.exists_at?_isAlike htime hn hr (hnot r (List.mem_of_getElem? hr))
        fun s e => hovertaken i r s e hr
    obtain ⟨page, hcons, hname, -, hfollowed⟩ := h.exists_page
    obtain ⟨page', hpage, hsame⟩ := halike 0 page (by rw [hcons, List.getElem?_cons_zero])
    obtain ⟨readings', hchain, hforall⟩ := hfollowed.exists_isChain hsame fun r hr => by
      obtain ⟨i, hi⟩ := List.getElem?_of_mem (List.mem_of_mem_tail hr)
      exact halike i r hi
    rw [hname] at hpage
    exact ⟨htext, _, (Build.ofFiles_eq_ok_iff h.valid).2 ⟨page', readings', hpage, hchain, rfl⟩,
      (Reading.text_ofChain_congr hforall).trans htext.symm⟩
  · rintro hlayouts i s hs ⟨j, r, f, -, hj, hafter, hf, hthere⟩
    have hstart := h.ordered 0 (2 * i) (Nat.zero_le _)
    rcases at?_eq_or_exists_comes files _ hafter (h.at?_of_find? hf) with hsame |
      ⟨u, hu, hlt, hcomes⟩
    · exact hthere hsame
    · exact hlayouts j r u f hj (by omega) hlt hcomes

end IsInterleaved

/-! ## A page and then its layout are edited -/

namespace Overtaken

def page (content : Text) : Text :=
  "@extends('l')@section('s','".toList ++ content ++ "')".toList

def start : FileSystem := Siblings.filesOf [(['p'], page ['a']), (['l'], "(@yield('s'))".toList)]

def edit (files : FileSystem) (name source : Text) (time : Int) : FileSystem :=
  files.put (name ++ ['.', 't']) [['v']] (.file (Text.bytes source).toByteArray time)

def edited : FileSystem := edit start ['p'] (page ['b']) 10

def relaid : FileSystem := edit edited ['l'] "[@yield('s')]".toList 11

def look (k : Nat) : Nat := if k < 2 then 0 else 2

def disk (k : Nat) : FileSystem := if k < 2 then start else relaid

@[irreducible]
def readings : List Reading :=
  ((Reading.chain Siblings.config disk 1 ['p']).toOption).getD []

def cache : Cache := .new Siblings.config relaid

@[irreducible]
def kept : FileSystem := (cache.keep ['p'] (.ofChain readings)).2.files

def files : Nat → FileSystem
  | 0 => start
  | 1 => edited
  | 2 => relaid
  | _ + 3 => kept

-- evaluated together, since all of it follows from the same build
theorem fresh_but_outdated :
    ((Reading.chain Siblings.config disk 1 ['p']).isOk = true ∧
      (cache.keep ['p'] (.ofChain readings)).1.toOption = some ()) ∧
    (Siblings.config.freshText? kept (Siblings.config.sourceFile ['p'])
        (Siblings.config.artifactPath ['p']) = some "<?elle uses 'l' ?>[a]".toList ∧
      (Build.ofFiles Siblings.config kept ['p']).toOption.map Build.text =
        some "<?elle uses 'l' ?>[b]".toList) ∧
    (files 0).isFile (Siblings.config.sourceFile ['p']) = true := by
  decide +kernel

theorem isEditAt_edit {s : Nat} {name source : Text} {time : Int}
    (hfiles : files (s + 1) = edit (files s) name source time)
    (hplace : ¬(files s).target Siblings.config.cacheRoot <:+ [name ++ ['.', 't'], ['v']])
    (hnewer : ∀ old ∈ (List.range (s + 1)).map files,
      old.IsOlder (.file (Text.bytes source).toByteArray time)) :
    Siblings.config.IsEditAt files s := by
  constructor
  · rw [hfiles]
    exact .put hplace hnewer
  · rw [hfiles]
    exact ⟨_, fun other hother => FileSystem.at?_put_of_ne _ hother⟩

theorem isEditAt {s : Nat} (hs : s ≠ 2) : Siblings.config.IsEditAt files s := by
  match s with
  | 0 =>
      refine @isEditAt_edit 0 ['p'] (page ['b']) 10 rfl (by decide +kernel) ?_
      unfold FileSystem.IsOlder
      decide +kernel
  | 1 =>
      refine @isEditAt_edit 1 ['l'] "[@yield('s')]".toList 11 rfl (by decide +kernel) ?_
      unfold FileSystem.IsOlder
      decide +kernel
  | 2 => exact absurd rfl hs
  | s + 3 => exact ⟨⟨rfl, fun _ _ => rfl, fun _ => Or.inl rfl⟩, [], fun _ _ => rfl⟩

theorem disk_eq : (fun k => files (look k)) = disk := by
  funext k
  unfold look disk
  split <;> rfl

theorem isInterleaved : IsInterleaved Siblings.config ['p'] files look 2 readings where
  valid := by decide
  apart := Sample.isApart.congr (by decide +kernel)
  template := by decide
  artifact := by decide
  ordered k l hkl := by
    unfold look
    split
    · exact Nat.zero_le _
    · rw [if_neg (by omega)]
  before k := by
    unfold look
    split <;> omega
  present := fresh_but_outdated.2.2
  read := by
    refine ⟨1, ?_⟩
    obtain ⟨⟨hread, -⟩, -⟩ := fresh_but_outdated
    rw [disk_eq]
    unfold readings
    cases hchain : Reading.chain Siblings.config disk 1 ['p'] with
    | ok readings => rfl
    | error e => simp [hchain, Except.isOk, Except.toBool] at hread
  kept := by
    refine ⟨cache, rfl, rfl, Siblings.eq_ok_of_toOption fresh_but_outdated.1.2, ?_⟩
    rw [show files (2 + 1) = kept from rfl]
    unfold kept
    rfl
  edits s hs := isEditAt hs

end Overtaken

theorem IsInterleaved.tellsEdits_overtaken :
    TellsEdits Siblings.config ['p'] Overtaken.files Overtaken.look 2 Overtaken.readings :=
  Overtaken.isInterleaved.tellsEdits

theorem IsInterleaved.not_forall_current :
    ¬∀ (c : Config) (name : Text) (files : Nat → FileSystem) (look : Nat → Nat) (last : Nat)
      (readings : List Reading), IsInterleaved c name files look last readings →
        ∀ n text, last < n →
          c.freshText? (files n) (c.sourceFile name) (c.artifactPath name) = some text →
          ∃ build, Build.ofFiles c (files n) name = .ok build ∧ build.text = text := by
  intro h
  obtain ⟨-, ⟨hfresh, hnow⟩, -⟩ := Overtaken.fresh_but_outdated
  obtain ⟨build, hbuild, htext⟩ := h _ _ _ _ _ _ Overtaken.isInterleaved 3 _ (by decide) hfresh
  rw [show Overtaken.files 3 = Overtaken.kept from rfl] at hbuild
  rw [hbuild, Except.toOption, Option.map_some, htext] at hnow
  revert hnow
  decide

end Stencil
