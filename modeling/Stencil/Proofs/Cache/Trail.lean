import Mathlib.Data.List.Chain
import Stencil.Proofs.Cache.Nearest

/-!
# Where layouts lead

The documents that can be read make up a graph: each leads to the layout that it
names, if any.  A build follows the one trail through it that starts at a page.
A trail visits no name twice, so it has an end, and the kind of its end decides
what comes of the build.
-/

namespace Stencil

open Stencil.Template

namespace Config

def Names (c : Config) (files : FileSystem) (name : Text) (layout : Option Text) : Prop :=
  ∃ source, files.readText (c.sourceFile name) = .ok source ∧
    (Document.ofSource source).layout = layout

def Extends (c : Config) (files : FileSystem) (name layout : Text) : Prop :=
  c.Names files name (some layout)

def IsRoot (c : Config) (files : FileSystem) (name : Text) : Prop := c.Names files name none

/-- Templates without repetition, the page first, each of which extends the next. -/
structure IsTrail (c : Config) (files : FileSystem) (page : Text) (names : List Text) : Prop where
  starts : names.head? = some page
  leads : names.IsChain (c.Extends files)
  nodup : names.Nodup
  valid : ∀ name ∈ names, isTemplateName name = true

/-- How a trail ends at the template `last`, after the templates `names`. -/
inductive Ends (c : Config) (files : FileSystem) :
    (names : List Text) → (last : Text) → Except Failure Unit → Prop
  | root {names : List Text} {last : Text} (h : c.IsRoot files last) :
      Ends c files names last (.ok ())
  | cycle {names : List Text} {last layout : Text} (h : c.Extends files last layout)
      (hlayout : layout ∈ names ++ [last]) :
      Ends c files names last (.error (.cycle (names ++ [last, layout])))
  | missing {names : List Text} {last layout : Text} (h : c.Extends files last layout)
      (hlayout : isTemplateName layout = false ∨
        files.readText (c.sourceFile layout) = .error .absent) :
      Ends c files names last (.error (.layoutNotFound last layout (c.sourceFile layout)))
  | unreadable {names : List Text} {last : Text}
      (h : files.readText (c.sourceFile last) = .error .unreadable) :
      Ends c files names last (.error (.unreadable (c.sourceFile last)))
  | absent {last : Text} (h : files.readText (c.sourceFile last) = .error .absent) :
      Ends c files [] last (.error (.templateNotFound last (c.sourceFile last)))

section

variable {c : Config} {files : FileSystem} {page last next : Text} {names : List Text}

theorem IsTrail.single (h : isTemplateName page = true) : c.IsTrail files page [page] where
  starts := rfl
  leads := .singleton _
  nodup := List.nodup_singleton _
  valid _ hname := List.mem_singleton.1 hname ▸ h

theorem IsTrail.concat (h : c.IsTrail files page (names ++ [last]))
    (hnext : c.Extends files last next) (hnew : next ∉ names ++ [last])
    (hvalid : isTemplateName next = true) : c.IsTrail files page (names ++ [last] ++ [next]) where
  starts := by
    rw [List.head?_append, h.starts]
    rfl
  leads := by
    refine List.isChain_append.2 ⟨h.leads, .singleton _, ?_⟩
    intro x hx y hy
    rw [List.getLast?_append, List.getLast?_singleton, Option.some_or, Option.mem_some_iff] at hx
    rw [List.head?_cons, Option.mem_some_iff] at hy
    exact hx ▸ hy ▸ hnext
  nodup := by
    refine List.nodup_append.2 ⟨h.nodup, List.nodup_singleton _, ?_⟩
    rintro name hname other hother rfl
    exact hnew (List.mem_singleton.1 hother ▸ hname)
  valid name hname := by
    rcases List.mem_append.1 hname with hname | hname
    · exact h.valid name hname
    · exact List.mem_singleton.1 hname ▸ hvalid

theorem IsTrail.of_concat (h : c.IsTrail files page (names ++ [last] ++ [next])) :
    c.IsTrail files page (names ++ [last]) ∧ c.Extends files last next ∧
      next ∉ names ++ [last] ∧ isTemplateName next = true := by
  obtain ⟨hleads, -, hstep⟩ := List.isChain_append.1 h.leads
  obtain ⟨hnodup, -, hnew⟩ := List.nodup_append.1 h.nodup
  refine ⟨⟨?_, hleads, hnodup, fun name hname => h.valid name (List.mem_append_left _ hname)⟩,
    hstep last (by simp) next (by simp), fun hmem => hnew next hmem next (by simp) rfl,
    h.valid next (by simp)⟩
  have hstarts := h.starts
  rw [List.head?_append] at hstarts
  cases names with
  | nil => exact hstarts
  | cons name names => exact hstarts

theorem IsTrail.eq_page (h : c.IsTrail files page [last]) : last = page :=
  Option.some.inj h.starts

theorem IsTrail.exists_at? (h : c.IsTrail files page (names ++ [last])) {name : Text}
    (hname : name ∈ names) : ∃ r, Reading.at? c files name = some r := by
  induction names using List.reverseRecOn generalizing last with
  | nil => cases hname
  | append_singleton names previous ih =>
      obtain ⟨hbefore, ⟨source, hread, -⟩, -, -⟩ := h.of_concat
      rcases List.mem_append.1 hname with hname | hname
      · exact ih hbefore hname
      · rw [List.mem_singleton.1 hname]
        exact Reading.exists_at? hread

theorem IsTrail.length_lt (h : c.IsTrail files page (names ++ [last])) {r : Reading}
    (hlast : Reading.at? c files last = some r) : names.length < files.entries.length := by
  have hread : ∀ name ∈ names ++ [last],
      isTemplateName name = true ∧ ∃ r, Reading.at? c files name = some r := by
    intro name hname
    refine ⟨h.valid name hname, ?_⟩
    rcases List.mem_append.1 hname with hname | hname
    · exact h.exists_at? hname
    · exact ⟨r, List.mem_singleton.1 hname ▸ hlast⟩
  have hlength := Reading.length_le_entries h.nodup hread
  rwa [List.length_append, List.length_singleton] at hlength

theorem IsTrail.ends_or_concat (h : c.IsTrail files page (names ++ [last])) :
    (∃ names last verdict, c.IsTrail files page (names ++ [last]) ∧
      c.Ends files names last verdict) ∨
    (∃ r layout, Reading.at? c files last = some r ∧
      c.IsTrail files page (names ++ [last] ++ [layout])) := by
  cases hread : files.readText (c.sourceFile last) with
  | error fault =>
      left
      cases fault with
      | unreadable => exact ⟨names, last, _, h, .unreadable hread⟩
      | absent =>
          cases names using List.reverseRecOn with
          | nil => exact ⟨[], last, _, h, .absent hread⟩
          | append_singleton names previous =>
              obtain ⟨hbefore, hprevious, -, -⟩ := h.of_concat
              exact ⟨names, previous, _, hbefore, .missing hprevious (Or.inr hread)⟩
  | ok source =>
      cases hlayout : (Document.ofSource source).layout with
      | none => exact Or.inl ⟨names, last, _, h, .root ⟨source, hread, hlayout⟩⟩
      | some layout =>
          have hextends : c.Extends files last layout := ⟨source, hread, hlayout⟩
          by_cases hmem : layout ∈ names ++ [last]
          · exact Or.inl ⟨names, last, _, h, .cycle hextends hmem⟩
          · cases hvalid : isTemplateName layout with
            | false => exact Or.inl ⟨names, last, _, h, .missing hextends (Or.inl hvalid)⟩
            | true =>
                obtain ⟨r, hr⟩ := Reading.exists_at? hread
                exact Or.inr ⟨r, layout, hr, h.concat hextends hmem hvalid⟩

theorem exists_ends (c : Config) (files : FileSystem) (hpage : isTemplateName page = true) :
    ∃ names last verdict, c.IsTrail files page (names ++ [last]) ∧
      c.Ends files names last verdict := by
  have hextend : ∀ more names last, files.entries.length ≤ names.length + more →
      c.IsTrail files page (names ++ [last]) →
      ∃ names last verdict, c.IsTrail files page (names ++ [last]) ∧
        c.Ends files names last verdict := by
    intro more
    induction more with
    | zero =>
        intro names last hlength h
        rcases h.ends_or_concat with hend | ⟨r, layout, hr, -⟩
        · exact hend
        · have := h.length_lt hr
          omega
    | succ more ih =>
        intro names last hlength h
        rcases h.ends_or_concat with hend | ⟨r, layout, -, hlonger⟩
        · exact hend
        · refine ih (names ++ [last]) layout ?_ hlonger
          rw [List.length_append, List.length_singleton]
          omega
  exact hextend files.entries.length [] page (by simp) (IsTrail.single hpage)

end

end Config

theorem Config.names_iff {c : Config} {files : FileSystem} {name : Text} {layout : Option Text} :
    c.Names files name layout ↔
      ∃ r, Reading.at? c files name = some r ∧ r.name = name ∧ r.document.layout = layout := by
  constructor
  · rintro ⟨source, hread, hlayout⟩
    exact ⟨⟨name, .ofSource source, files.modified? (c.sourceFile name)⟩,
      by simp [Reading.at?, hread], rfl, hlayout⟩
  · rintro ⟨r, hr, -, hlayout⟩
    obtain ⟨-, e, he, -, -, source, hsource, hdocument⟩ := Reading.of_at? hr
    exact ⟨source, FileSystem.readText_eq_ok_iff.2 ⟨e, he, hsource⟩, hdocument ▸ hlayout⟩

theorem Config.IsTrail.notMem_of_missing {c : Config} {files : FileSystem}
    {page last layout : Text} {names : List Text} {r : Reading}
    (h : c.IsTrail files page (names ++ [last])) (hlast : Reading.at? c files last = some r)
    (hmissing : isTemplateName layout = false ∨
      files.readText (c.sourceFile layout) = .error .absent) : layout ∉ names ++ [last] := by
  intro hmem
  rcases hmissing with hinvalid | habsent
  · rw [h.valid _ hmem] at hinvalid
    cases hinvalid
  · have hread : ∃ r, Reading.at? c files layout = some r := by
      rcases List.mem_append.1 hmem with hmem | hmem
      · exact h.exists_at? hmem
      · exact ⟨r, List.mem_singleton.1 hmem ▸ hlast⟩
    obtain ⟨other, hother⟩ := hread
    simp [Reading.at?, habsent] at hother

/-! ## Following a trail -/

def verdict {α : Type} (result : Except Failure α) : Except Failure Unit := result.map fun _ => ()

namespace Reading

variable {c : Config} {files : FileSystem} {page last layout : Text} {names : List Text}
  {r first next : Reading} {fuel : Nat}

theorem verdict_follow_root (h : r.document.layout = none) :
    verdict (follow c (fun _ => files) fuel names r) = .ok () := by
  unfold follow
  simp only [h]
  rfl

theorem verdict_follow_cycle (h : r.document.layout = some layout)
    (hmem : layout ∈ names ++ [r.name]) :
    verdict (follow c (fun _ => files) fuel names r) =
      .error (.cycle (names ++ [r.name, layout])) := by
  unfold follow
  simp only [h, hmem, if_true, List.append_assoc]
  rfl

theorem verdict_follow_invalid (h : r.document.layout = some layout)
    (hnew : layout ∉ names ++ [r.name]) (hvalid : isTemplateName layout = false) :
    verdict (follow c (fun _ => files) fuel names r) =
      .error (.layoutNotFound r.name layout (c.sourceFile layout)) := by
  unfold follow
  simp only [h, hnew, if_false, hvalid, Bool.not_false, if_true]
  rfl

theorem verdict_follow_succ (h : r.document.layout = some layout)
    (hnew : layout ∉ names ++ [r.name]) (hvalid : isTemplateName layout = true) :
    verdict (follow c (fun _ => files) (fuel + 1) names r) =
      match take c (fun _ => files) (names ++ [r.name]).length layout
        (.layoutNotFound r.name layout (c.sourceFile layout)) with
      | .error e => .error e
      | .ok next => verdict (follow c (fun _ => files) fuel (names ++ [r.name]) next) := by
  conv_lhs => unfold follow
  simp only [h, hnew, if_false, hvalid, Bool.not_true, Bool.false_eq_true]
  cases take c (fun _ => files) (names ++ [r.name]).length layout
    (.layoutNotFound r.name layout (c.sourceFile layout)) with
  | error e => rfl
  | ok next =>
      dsimp only
      cases follow c (fun _ => files) fuel (names ++ [r.name]) next <;> rfl

theorem take_of_absent {i : Nat} {name : Text} {missing : Failure}
    (h : files.readText (c.sourceFile name) = .error .absent) :
    take c (fun _ => files) i name missing = .error missing := by
  simp [take, h]

theorem take_of_unreadable {i : Nat} {name : Text} {missing : Failure}
    (h : files.readText (c.sourceFile name) = .error .unreadable) :
    take c (fun _ => files) i name missing = .error (.unreadable (c.sourceFile name)) := by
  simp [take, h]

theorem verdict_follow_trail (h : c.IsTrail files page (names ++ [last]))
    (hfirst : at? c files page = some first) (hlast : at? c files last = some r) :
    verdict (follow c (fun _ => files) (fuel + names.length) [] first) =
      verdict (follow c (fun _ => files) fuel names r) := by
  induction names using List.reverseRecOn generalizing last r fuel with
  | nil =>
      rw [h.eq_page, hfirst] at hlast
      cases hlast
      rfl
  | append_singleton names previous ih =>
      obtain ⟨hbefore, hextends, hnew, hvalid⟩ := h.of_concat
      obtain ⟨p, hp, rfl, hlayout⟩ := Config.names_iff.1 hextends
      have hrest : verdict (follow c (fun _ => files) (fuel + 1 + names.length) [] first) =
          verdict (follow c (fun _ => files) (fuel + 1) names p) := ih hbefore hp
      rw [verdict_follow_succ hlayout hnew hvalid, take_eq_ok_iff.2 hlast] at hrest
      rw [List.length_append, List.length_singleton, Nat.add_comm names.length, ← Nat.add_assoc]
      exact hrest

theorem verdict_chain_of_trail (h : c.IsTrail files page (names ++ [last]))
    (hlast : at? c files last = some r) (hfuel : files.entries.length ≤ fuel) :
    ∃ more, verdict (chain c (fun _ => files) fuel page) =
      verdict (follow c (fun _ => files) (more + 1) names r) := by
  have hlength := h.length_lt hlast
  obtain ⟨more, rfl⟩ : ∃ more, fuel = more + 1 + names.length := ⟨fuel - 1 - names.length, by omega⟩
  obtain ⟨first, hfirst⟩ : ∃ first, at? c files page = some first := by
    cases names with
    | nil => exact ⟨r, h.eq_page ▸ hlast⟩
    | cons name names =>
        cases h.starts
        exact h.exists_at? List.mem_cons_self
  refine ⟨more, ?_⟩
  rw [← verdict_follow_trail h hfirst hlast, chain, take_eq_ok_iff.2 hfirst]

theorem verdict_chain_of_ends {result : Except Failure Unit}
    (h : c.IsTrail files page (names ++ [last])) (hends : c.Ends files names last result)
    (hfuel : files.entries.length ≤ fuel) :
    verdict (chain c (fun _ => files) fuel page) = result := by
  cases hends with
  | root hroot =>
      obtain ⟨r, hr, -, hlayout⟩ := Config.names_iff.1 hroot
      obtain ⟨more, hmore⟩ := verdict_chain_of_trail h hr hfuel
      rw [hmore, verdict_follow_root hlayout]
  | cycle hextends hmem =>
      obtain ⟨r, hr, rfl, hlayout⟩ := Config.names_iff.1 hextends
      obtain ⟨more, hmore⟩ := verdict_chain_of_trail h hr hfuel
      rw [hmore, verdict_follow_cycle hlayout hmem]
  | @missing _ _ layout hextends hmissing =>
      obtain ⟨r, hr, rfl, hlayout⟩ := Config.names_iff.1 hextends
      obtain ⟨more, hmore⟩ := verdict_chain_of_trail h hr hfuel
      have hnew := h.notMem_of_missing hr hmissing
      rw [hmore]
      cases hvalid : isTemplateName layout with
      | false => exact verdict_follow_invalid hlayout hnew hvalid
      | true =>
          have habsent := hmissing.resolve_left (by simp [hvalid])
          rw [verdict_follow_succ hlayout hnew hvalid, take_of_absent habsent]
  | unreadable hread =>
      cases names using List.reverseRecOn with
      | nil =>
          cases h.eq_page
          rw [chain, take_of_unreadable hread]
          rfl
      | append_singleton names previous =>
          obtain ⟨hbefore, hextends, hnew, hvalid⟩ := h.of_concat
          obtain ⟨p, hp, rfl, hlayout⟩ := Config.names_iff.1 hextends
          obtain ⟨more, hmore⟩ := verdict_chain_of_trail hbefore hp hfuel
          rw [hmore, verdict_follow_succ hlayout hnew hvalid, take_of_unreadable hread]
  | absent hread =>
      cases h.eq_page
      rw [chain, take_of_absent hread]
      rfl

end Reading

/-! ## What comes of a build -/

namespace Build

variable {c : Config} {files : FileSystem} {name : Text}

theorem verdict_onDisk (disk : Looks) (fuel : Nat) :
    verdict (onDisk c disk fuel name) = verdict (Reading.chain c disk fuel name) := by
  unfold onDisk
  cases Reading.chain c disk fuel name <;> rfl

theorem verdict_ofFiles_iff (hname : isTemplateName name = true) {result : Except Failure Unit} :
    verdict (ofFiles c files name) = result ↔
      ∃ names last, c.IsTrail files name (names ++ [last]) ∧ c.Ends files names last result := by
  have hends : ∀ names last other, c.IsTrail files name (names ++ [last]) →
      c.Ends files names last other → verdict (ofFiles c files name) = other := by
    intro names last other htrail hother
    rw [ofFiles, verdict_onDisk]
    exact Reading.verdict_chain_of_ends htrail hother (Nat.le_refl _)
  constructor
  · rintro rfl
    obtain ⟨names, last, other, htrail, hother⟩ := Config.exists_ends c files hname
    rw [hends names last other htrail hother]
    exact ⟨names, last, htrail, hother⟩
  · rintro ⟨names, last, htrail, hother⟩
    exact hends names last result htrail hother

theorem verdict_eq_ok_iff {α : Type} {result : Except Failure α} :
    verdict result = .ok () ↔ ∃ a, result = .ok a := by
  cases result <;> simp [verdict, Except.map]

theorem verdict_eq_error_iff {α : Type} {result : Except Failure α} {e : Failure} :
    verdict result = .error e ↔ result = .error e := by
  cases result <;> simp [verdict, Except.map]

theorem onDisk_eq_ofFiles (hname : isTemplateName name = true) {fuel : Nat}
    (hfuel : files.entries.length ≤ fuel) :
    onDisk c (fun _ => files) fuel name = ofFiles c files name := by
  obtain ⟨names, last, result, htrail, hends⟩ := Config.exists_ends c files hname
  have hless := Reading.verdict_chain_of_ends htrail hends (Nat.le_refl files.entries.length)
  have hmore := Reading.verdict_chain_of_ends htrail hends hfuel
  have hchain : Reading.chain c (fun _ => files) fuel name =
      Reading.chain c (fun _ => files) files.entries.length name := by
    cases hfound : Reading.chain c (fun _ => files) files.entries.length name with
    | ok readings =>
        obtain ⟨page, hpage, hc, -⟩ := Reading.chain_eq_ok_iff.1 hfound
        have hlength := hc.length_le hname hpage
        exact Reading.chain_eq_ok_iff.2 ⟨page, hpage, hc, by omega⟩
    | error e =>
        rw [hfound] at hless
        rw [← hless] at hmore
        exact verdict_eq_error_iff.1 hmore
  rw [ofFiles, onDisk, onDisk, hchain]

theorem exists_ofFiles_eq_ok_iff (hname : isTemplateName name = true) :
    (∃ build, ofFiles c files name = .ok build) ↔
      ∃ names last, c.IsTrail files name (names ++ [last]) ∧ c.IsRoot files last := by
  rw [← verdict_eq_ok_iff, verdict_ofFiles_iff hname]
  constructor
  · rintro ⟨names, last, htrail, hends⟩
    cases hends with
    | root h => exact ⟨names, last, htrail, h⟩
  · rintro ⟨names, last, htrail, h⟩
    exact ⟨names, last, htrail, .root h⟩

theorem ofFiles_eq_error_iff (hname : isTemplateName name = true) {e : Failure} :
    ofFiles c files name = .error e ↔
      ∃ names last, c.IsTrail files name (names ++ [last]) ∧
        c.Ends files names last (.error e) := by
  rw [← verdict_eq_error_iff, verdict_ofFiles_iff hname]

theorem ofFiles_ne_unfinished (hname : isTemplateName name = true) (other : Text) :
    ofFiles c files name ≠ .error (.unfinished other) := by
  intro h
  obtain ⟨names, last, -, hends⟩ := (ofFiles_eq_error_iff hname).1 h
  cases hends

/-- A build has a result after no more steps than there are files, and the trail of its page says
which it is. -/
structure IsDecided (c : Config) (files : FileSystem) (name : Text) : Prop where
  bounded : ∀ fuel, files.entries.length ≤ fuel →
    onDisk c (fun _ => files) fuel name = ofFiles c files name
  finished : ∀ other, ofFiles c files name ≠ .error (.unfinished other)
  built : (∃ build, ofFiles c files name = .ok build) ↔
    ∃ names last, c.IsTrail files name (names ++ [last]) ∧ c.IsRoot files last
  cycle : ∀ chain, ofFiles c files name = .error (.cycle chain) ↔
    ∃ names last layout, c.IsTrail files name (names ++ [last]) ∧ c.Extends files last layout ∧
      layout ∈ names ++ [last] ∧ chain = names ++ [last, layout]
  missing : ∀ last layout path, ofFiles c files name = .error (.layoutNotFound last layout path) ↔
    path = c.sourceFile layout ∧ ∃ names, c.IsTrail files name (names ++ [last]) ∧
      c.Extends files last layout ∧ (isTemplateName layout = false ∨
        files.readText (c.sourceFile layout) = .error .absent)
  unreadable : ∀ path, ofFiles c files name = .error (.unreadable path) ↔
    ∃ names last, c.IsTrail files name (names ++ [last]) ∧
      files.readText (c.sourceFile last) = .error .unreadable ∧ path = c.sourceFile last
  complete : files.isFile (c.sourceFile name) = true →
    (∃ build, ofFiles c files name = .ok build) ∨
    (∃ chain, ofFiles c files name = .error (.cycle chain)) ∨
    (∃ last layout path, ofFiles c files name = .error (.layoutNotFound last layout path)) ∨
    (∃ path, ofFiles c files name = .error (.unreadable path))

theorem isDecided (hname : isTemplateName name = true) : IsDecided c files name := by
  constructor
  · exact fun fuel hfuel => onDisk_eq_ofFiles hname hfuel
  · exact ofFiles_ne_unfinished hname
  · exact exists_ofFiles_eq_ok_iff hname
  · intro chain
    rw [ofFiles_eq_error_iff hname]
    constructor
    · rintro ⟨names, last, htrail, hends⟩
      cases hends with
      | cycle h hlayout => exact ⟨names, last, _, htrail, h, hlayout, rfl⟩
    · rintro ⟨names, last, layout, htrail, h, hlayout, rfl⟩
      exact ⟨names, last, htrail, .cycle h hlayout⟩
  · intro last layout path
    rw [ofFiles_eq_error_iff hname]
    constructor
    · rintro ⟨names, other, htrail, hends⟩
      cases hends with
      | missing h hlayout => exact ⟨rfl, names, htrail, h, hlayout⟩
    · rintro ⟨rfl, names, htrail, h, hlayout⟩
      exact ⟨names, last, htrail, .missing h hlayout⟩
  · intro path
    rw [ofFiles_eq_error_iff hname]
    constructor
    · rintro ⟨names, last, htrail, hends⟩
      cases hends with
      | unreadable h => exact ⟨names, last, htrail, h, rfl⟩
    · rintro ⟨names, last, htrail, h, rfl⟩
      exact ⟨names, last, htrail, .unreadable h⟩
  · intro hfile
    cases hbuild : ofFiles c files name with
    | ok build => exact Or.inl ⟨build, rfl⟩
    | error e =>
        obtain ⟨names, last, htrail, hends⟩ := (ofFiles_eq_error_iff hname).1 hbuild
        cases hends with
        | cycle h hlayout => exact Or.inr (Or.inl ⟨_, rfl⟩)
        | missing h hlayout => exact Or.inr (Or.inr (Or.inl ⟨_, _, _, rfl⟩))
        | unreadable h => exact Or.inr (Or.inr (Or.inr ⟨_, rfl⟩))
        | absent h =>
            rw [htrail.eq_page] at h
            exact (FileSystem.readText_ne_absent_of_isFile hfile h).elim

end Build

/-! ## A cycle behind a page -/

namespace Looped

def files : FileSystem :=
  Siblings.filesOf [(['p'], "@extends('a')".toList), (['a'], "@extends('b')".toList),
    (['b'], "@extends('a')".toList)]

theorem layout_of_source :
    ∀ pair ∈ [(['p'], ['a']), (['a'], ['b']), (['b'], ['a'])],
      (files.readText (Siblings.config.sourceFile pair.1)).toOption.bind
        (fun source => (Document.ofSource source).layout) = some pair.2 := by
  decide +kernel

theorem leads {name layout : Text} (h : (name, layout) ∈ [(['p'], ['a']), (['a'], ['b']),
    (['b'], ['a'])]) : Siblings.config.Extends files name layout := by
  obtain ⟨source, hread, hlayout⟩ := Option.bind_eq_some_iff.1 (layout_of_source _ h)
  exact ⟨source, Siblings.eq_ok_of_toOption hread, hlayout⟩

theorem isTrail : Siblings.config.IsTrail files ['p'] ([['p'], ['a']] ++ [['b']]) where
  starts := rfl
  leads := .cons_cons (leads (by decide)) (.cons_cons (leads (by decide)) (.singleton _))
  nodup := by decide
  valid := by decide

end Looped

theorem Build.isDecided_looped :
    ofFiles Siblings.config Looped.files ['p'] =
      .error (.cycle [['p'], ['a'], ['b'], ['a']]) :=
  ((Build.isDecided (by decide)).cycle _).2
    ⟨_, _, _, Looped.isTrail, Looped.leads (by decide), by decide, rfl⟩

end Stencil
