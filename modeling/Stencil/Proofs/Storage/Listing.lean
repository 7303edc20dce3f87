import Mathlib.Data.List.Induction
import Stencil.Proofs.Storage.Removal

/-!
# What lies below a directory

A file below a directory is found by the path of the directory, with the names
on the way to the file behind it, as long as that path can be followed.
-/

namespace Stencil

namespace Path

structure IsStep (name : Text) : Prop where
  nonempty : name ≠ []
  here : name ≠ Path.here
  up : name ≠ Path.up
  slash : Path.slash ∉ name

variable {p q : Path} {name t : Text} {way : List Text}

theorem IsStep.isAbsolute_append (h : IsStep name) (t : Text) : isAbsolute ⟨name ++ t⟩ = false := by
  obtain ⟨c, rest, rfl⟩ := List.exists_cons_of_ne_nil h.nonempty
  have hc : c ≠ Path.slash := fun heq => h.slash (heq ▸ List.mem_cons_self)
  simp [isAbsolute, hc]

theorem IsStep.isAbsolute (h : IsStep name) : Path.isAbsolute ⟨name⟩ = false := by
  simpa using h.isAbsolute_append []

theorem IsStep.pieces (h : IsStep name) : Path.pieces ⟨name⟩ = [name] := by
  simp [Path.pieces, Text.splitOn_of_notMem h.slash, h.nonempty]

/-! ## Joining -/

theorem utf8Length_join_le (hq : q.isAbsolute = false) :
    Text.utf8Length p.text ≤ Text.utf8Length (p.join q).text := by
  obtain ⟨gap, -, htext⟩ := exists_text_join (p := p) hq
  rw [htext, Text.utf8Length_append, Text.utf8Length_append]
  omega

theorem text_join_ne_nil (h : IsStep name) : (p.join ⟨name⟩).text ≠ [] := by
  obtain ⟨gap, -, htext⟩ := exists_text_join (p := p) h.isAbsolute
  simp [htext, h.nonempty]

theorem endsInSlash_join (h : IsStep name) : (p.join ⟨name⟩).endsInSlash = false := by
  obtain ⟨gap, -, htext⟩ := exists_text_join (p := p) h.isAbsolute
  obtain ⟨front, c, hname⟩ := (List.eq_nil_or_concat name).resolve_left h.nonempty
  have hc : c ≠ slash := fun heq => h.slash (by simp [hname, heq])
  rw [endsInSlash, htext, hname]
  simp [hc]

theorem steps_join (h : IsStep name) : (p.join ⟨name⟩).steps = p.pieces ++ [name] := by
  rw [steps, endsInSlash_join h, pieces_join h.isAbsolute, h.pieces]
  simp

theorem join_join (h : IsStep name) (ht : isAbsolute ⟨t⟩ = false) (p : Path) :
    (p.join ⟨name⟩).join ⟨t⟩ = p.join ⟨name ++ slash :: t⟩ := by
  have houter : (p.join ⟨name⟩).join ⟨t⟩ = ⟨(p.join ⟨name⟩).text ++ slash :: t⟩ := by
    have hne := text_join_ne_nil (p := p) h
    rw [join, ht, endsInSlash_join h]
    simp [hne]
  rw [houter, join, join, h.isAbsolute, h.isAbsolute_append]
  split
  · rfl
  · split <;> simp

/-! ## Joining names one after the other -/

theorem along_concat (p : Path) (way : List Text) (name : Text) :
    p.along (way ++ [name]) = (p.along way).join ⟨name⟩ := by
  simp [along]

theorem text_along_ne_nil (hp : p.text ≠ []) (hway : ∀ name ∈ way, IsStep name) :
    (p.along way).text ≠ [] := by
  rcases List.eq_nil_or_concat way with rfl | ⟨front, name, rfl⟩
  · exact hp
  · rw [List.concat_eq_append, along_concat]
    exact text_join_ne_nil (hway name (by simp))

theorem along_eq_join (hne : way ≠ []) (hway : ∀ name ∈ way, IsStep name) (p : Path) :
    p.along way = p.join ⟨Text.join [slash] way⟩ := by
  induction way generalizing p with
  | nil => exact absurd rfl hne
  | cons first way ih =>
      obtain ⟨hfirst, hrest⟩ := List.forall_mem_cons.1 hway
      cases way with
      | nil => rfl
      | cons next way =>
          have hnext := hrest next List.mem_cons_self
          have hrelative : isAbsolute ⟨Text.join [slash] (next :: way)⟩ = false := by
            cases way with
            | nil => exact hnext.isAbsolute
            | cons other way =>
                rw [Text.join_cons_cons, List.append_assoc]
                exact hnext.isAbsolute_append _
          have halong : p.along (first :: next :: way) = (p.join ⟨first⟩).along (next :: way) := rfl
          rw [halong, ih (List.cons_ne_nil _ _) hrest, join_join hfirst hrelative,
            Text.join_cons_cons, List.append_assoc]
          rfl

end Path

structure FileName.IsProper (name : Text) : Prop extends Path.IsStep name where
  nul : Char.ofNat 0 ∉ name
  short : Text.utf8Length name ≤ FileName.limit

instance (name : Text) : Decidable (FileName.IsProper name) :=
  decidable_of_iff ((name ≠ [] ∧ name ≠ Path.here ∧ name ≠ Path.up ∧ Path.slash ∉ name) ∧
      Char.ofNat 0 ∉ name ∧ Text.utf8Length name ≤ FileName.limit)
    ⟨fun ⟨⟨hempty, hhere, hup, hslash⟩, hnul, hshort⟩ =>
      ⟨⟨hempty, hhere, hup, hslash⟩, hnul, hshort⟩,
      fun h => ⟨⟨h.nonempty, h.here, h.up, h.slash⟩, h.nul, h.short⟩⟩

namespace FileSystem

variable {fs : FileSystem} {p : Path} {name : Text} {way : List Text} {place last : Place}
  {e : Entry}

/-! ## Walking on -/

theorem walkFrom_steps_iff (hplace : fs.isDirectoryAt place = true) (start : Place) :
    fs.walkFrom start p.steps = .ok place ↔ fs.walkFrom start p.pieces = .ok place := by
  refine ⟨fun h => ?_, fun h => walkFrom_steps h hplace⟩
  unfold Path.steps at h
  split at h
  · obtain ⟨middle, hmiddle, hhere⟩ := walkFrom_append_eq_ok_iff.1 h
    have hend := (walkFrom_cons_eq_ok_iff.1 hhere).2.2
    rw [advance, if_pos rfl, walkFrom] at hend
    cases hend
    exact hmiddle
  · exact h

theorem isDirectoryAt_tail_of_isDirectoryAt (h : fs.isDirectoryAt place = true) :
    fs.isDirectoryAt place.tail = true := by
  obtain ⟨e, he, -⟩ := exists_of_isDirectoryAt h
  exact isDirectoryAt_tail he

structure CanFollow (p : Path) (names : List Text) : Prop where
  nul : ∀ name ∈ names, Char.ofNat 0 ∉ name
  short : ∀ name ∈ names, Text.utf8Length name ≤ FileName.limit
  path : Text.utf8Length p.text ≤ pathLimit

theorem walk_join_eq_ok_iff (hp : p.text ≠ []) (hname : Path.IsStep name) :
    fs.walk (p.join ⟨name⟩) = .ok last ↔
      (∃ place, fs.walk p = .ok place ∧ fs.isDirectoryAt place = true ∧ last = name :: place) ∧
        CanFollow (p.join ⟨name⟩) [name] := by
  obtain ⟨gap, hgap, htext⟩ := Path.exists_text_join (p := p) hname.isAbsolute
  have hstart : fs.start (p.join ⟨name⟩) = fs.start p := by
    rw [start, start, Path.isAbsolute_join hname.isAbsolute]
  have hnul : Char.ofNat 0 ∉ (p.join ⟨name⟩).text ↔
      Char.ofNat 0 ∉ p.text ∧ Char.ofNat 0 ∉ name := by
    have hnogap : Char.ofNat 0 ∉ gap := fun hmem => absurd (hgap _ hmem) (by decide)
    simp [htext, hnogap]
  have hlength := Path.utf8Length_join_le (p := p) hname.isAbsolute
  rw [walk_eq_ok_iff, hstart, Path.steps_join hname, hnul, walkFrom_append_eq_ok_iff]
  constructor
  · rintro ⟨⟨⟨hpnul, hnnul⟩, hpath⟩, -, middle, hmiddle, hstep⟩
    obtain ⟨hdirectory, hshort, hend⟩ := walkFrom_cons_eq_ok_iff.1 hstep
    rw [advance_of_ne hname.here hname.up, walkFrom] at hend
    cases hend
    exact ⟨⟨middle, walk_eq_ok_iff.2 ⟨⟨hpnul, hlength.trans hpath⟩, hp,
      walkFrom_steps hmiddle hdirectory⟩, hdirectory, rfl⟩, by simpa using hnnul,
      by simpa using hshort, hpath⟩
  · rintro ⟨⟨place, hwalk, hdirectory, rfl⟩, hnnul, hshort, hpath⟩
    obtain ⟨⟨hpnul, -⟩, -, hsteps⟩ := walk_eq_ok_iff.1 hwalk
    refine ⟨⟨⟨hpnul, hnnul name (by simp)⟩, hpath⟩, Path.text_join_ne_nil hname, place,
      (walkFrom_steps_iff hdirectory _).1 hsteps,
      walkFrom_cons_eq_ok_iff.2 ⟨hdirectory, hshort name (by simp), ?_⟩⟩
    rw [advance_of_ne hname.here hname.up, walkFrom]

theorem canFollow_concat_iff (hname : Path.IsStep name) :
    CanFollow (p.along (way ++ [name])) (way ++ [name]) ↔
      CanFollow (p.along way) way ∧ CanFollow (p.along (way ++ [name])) [name] := by
  have hlength := Path.utf8Length_join_le (p := p.along way) hname.isAbsolute
  rw [Path.along_concat]
  constructor
  · rintro ⟨hnul, hshort, hpath⟩
    rw [List.forall_mem_append] at hnul hshort
    exact ⟨⟨hnul.1, hshort.1, hlength.trans hpath⟩, hnul.2, hshort.2, hpath⟩
  · rintro ⟨hfront, hnul, hshort, hpath⟩
    exact ⟨List.forall_mem_append.2 ⟨hfront.nul, hnul⟩,
      List.forall_mem_append.2 ⟨hfront.short, hshort⟩, hpath⟩

/-- The induction is on the names from the last one to the first, as each is taken in the
directory that the ones before it lead to. -/
theorem walk_along_eq_ok_iff (hp : p.text ≠ []) (hway : ∀ name ∈ way, Path.IsStep name)
    (hlast : fs.isDirectoryAt last.tail = true) :
    fs.walk (p.along way) = .ok last ↔
      (∃ place, fs.walk p = .ok place ∧ last = way.reverse ++ place) ∧
        CanFollow (p.along way) way := by
  induction way using List.reverseRecOn generalizing last with
  | nil =>
      have halong : p.along [] = p := rfl
      rw [halong]
      constructor
      · intro h
        exact ⟨⟨last, h, rfl⟩, by simp, by simp, (walk_eq_ok_iff.1 h).1.2⟩
      · rintro ⟨⟨place, hplace, rfl⟩, -⟩
        exact hplace
  | append_singleton way name ih =>
      have hfront : ∀ name ∈ way, Path.IsStep name := (List.forall_mem_append.1 hway).1
      have hname := hway name (by simp)
      rw [canFollow_concat_iff hname, Path.along_concat,
        walk_join_eq_ok_iff (Path.text_along_ne_nil hp hfront) hname]
      constructor
      · rintro ⟨⟨middle, hmiddle, hdirectory, rfl⟩, hone⟩
        have hbelow := ih hfront (isDirectoryAt_tail_of_isDirectoryAt hdirectory)
        obtain ⟨⟨place, hplace, rfl⟩, hrest⟩ := hbelow.1 hmiddle
        exact ⟨⟨place, hplace, by simp⟩, hrest, hone⟩
      · rintro ⟨⟨place, hplace, rfl⟩, hrest, hone⟩
        have hdirectory : fs.isDirectoryAt (way.reverse ++ place) = true := by simpa using hlast
        have hbelow := ih hfront (isDirectoryAt_tail_of_isDirectoryAt hdirectory)
        have hmiddle := hbelow.2 ⟨⟨place, hplace, rfl⟩, hrest⟩
        exact ⟨⟨_, hmiddle, hdirectory, by simp⟩, hone⟩

theorem find?_along_eq_some_iff (hp : p.text ≠ []) (hway : ∀ name ∈ way, Path.IsStep name) :
    fs.find? (p.along way) = some e ↔
      (∃ place, fs.walk p = .ok place ∧ fs.at? (way.reverse ++ place) = some e) ∧
        CanFollow (p.along way) way := by
  constructor
  · intro h
    have hat := at?_of_find? h
    obtain ⟨⟨place, hplace, hlast⟩, hfollow⟩ :=
      (walk_along_eq_ok_iff hp hway (isDirectoryAt_tail hat)).1 (walk_of_find? h)
    exact ⟨⟨place, hplace, hlast ▸ hat⟩, hfollow⟩
  · rintro ⟨⟨place, hplace, hat⟩, hfollow⟩
    have hwalk := (walk_along_eq_ok_iff hp hway (isDirectoryAt_tail hat)).2
      ⟨⟨place, hplace, rfl⟩, hfollow⟩
    rw [find?, hwalk]
    exact hat

/-! ## Files below a place -/

theorem below_eq_some_iff {inner : Place} :
    (if e.isFile && place.isSuffixOf inner then
      some (inner.take (inner.length - place.length)).reverse else none) = some way ↔
      e.isFile = true ∧ inner = way.reverse ++ place := by
  constructor
  · intro h
    split at h
    · next hbelow =>
      cases h
      rw [Bool.and_eq_true, List.isSuffixOf_iff_suffix] at hbelow
      obtain ⟨hfile, front, rfl⟩ := hbelow
      exact ⟨hfile, by simp⟩
    · cases h
  · rintro ⟨hfile, rfl⟩
    have hsuffix : place <:+ way.reverse ++ place := List.suffix_append _ _
    simp [hfile, hsuffix]

theorem mem_entries_of_isFile (h : fs.at? place = some e) (hfile : e.isFile = true) :
    (place, e) ∈ fs.entries := by
  refine mem_entries_of_at? h ?_
  rw [Entry.isDirectory_eq_not_isFile, hfile]
  rfl

theorem mem_filesBelow_iff :
    way ∈ fs.filesBelow place ↔
      ∃ e, fs.at? (way.reverse ++ place) = some e ∧ e.isFile = true := by
  unfold filesBelow
  rw [List.mem_filterMap]
  constructor
  · rintro ⟨⟨inner, e⟩, hmem, hfound⟩
    obtain ⟨hfile, rfl⟩ := below_eq_some_iff.1 hfound
    exact ⟨e, (fs.mem_entries_iff (fs.nested _ hmem).1).1 hmem, hfile⟩
  · rintro ⟨e, hat, hfile⟩
    exact ⟨_, mem_entries_of_isFile hat hfile, below_eq_some_iff.2 ⟨hfile, rfl⟩⟩

theorem nodup_filesBelow (fs : FileSystem) (place : Place) : (fs.filesBelow place).Nodup := by
  have hplaces : fs.entries.Pairwise fun pair other => pair.1 ≠ other.1 :=
    List.pairwise_map.1 fs.nodup
  refine hplaces.filterMap _ ?_
  rintro ⟨inner, e⟩ ⟨inner', e'⟩ hne way hway way' hway' rfl
  exact hne ((below_eq_some_iff.1 hway).2.trans (below_eq_some_iff.1 hway').2.symm)

/-! ## Names of files -/

def IsProper (fs : FileSystem) : Prop :=
  ∀ pair ∈ fs.entries, ∀ name ∈ pair.1, FileName.IsProper name

instance (fs : FileSystem) : Decidable fs.IsProper :=
  inferInstanceAs (Decidable (∀ pair ∈ fs.entries, ∀ name ∈ pair.1, FileName.IsProper name))

theorem IsProper.of_mem_filesBelow (h : fs.IsProper) (hway : way ∈ fs.filesBelow place)
    (hname : name ∈ way) : FileName.IsProper name := by
  obtain ⟨e, hat, hfile⟩ := mem_filesBelow_iff.1 hway
  exact h _ (mem_entries_of_isFile hat hfile) name (by simp [hname])

end FileSystem

end Stencil
