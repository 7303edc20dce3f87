import Mathlib.Data.List.TakeWhile
import Stencil.Proofs.Storage.Changes
import Stencil.Proofs.Storage.Path

/-!
# Removing files from a directory

Files that are removed from a directory are found no more, and every other path
shows what it showed.  Which files have a given extension follows from their
names alone, and what lies in a directory can only be found if the directory is.
-/

namespace Stencil

namespace FileName

theorem split?_eq_some_iff {name stem extension : Text} :
    split? name = some (stem, extension) ↔
      name = stem ++ '.' :: extension ∧ stem ≠ [] ∧ '.' ∉ extension := by
  constructor
  · intro h
    refine ⟨eq_of_split? h, ?_⟩
    unfold split? at h
    split at h
    · cases h
      refine ⟨by simp, fun hdot => ?_⟩
      simpa using List.mem_takeWhile_imp (List.mem_reverse.1 hdot)
    · cases h
  · rintro ⟨rfl, hstem, hextension⟩
    obtain ⟨c, rest, rfl⟩ : ∃ c rest, stem = (c :: rest).reverse := by
      obtain ⟨c, rest, hreverse⟩ := List.exists_cons_of_ne_nil (List.reverse_ne_nil_iff.2 hstem)
      exact ⟨c, rest, by rw [← hreverse, List.reverse_reverse]⟩
    have hlead : ∀ d ∈ extension.reverse, decide (d ≠ '.') = true := by
      intro d hd
      rw [decide_eq_true_eq]
      rintro rfl
      exact hextension (List.mem_reverse.1 hd)
    have hname : ((c :: rest).reverse ++ '.' :: extension).reverse =
        extension.reverse ++ '.' :: c :: rest := by simp
    have hdrop : (extension.reverse ++ '.' :: c :: rest).dropWhile (· ≠ '.') =
        '.' :: c :: rest := by
      rw [List.dropWhile_append_of_pos hlead]
      simp
    have htake : (extension.reverse ++ '.' :: c :: rest).takeWhile (· ≠ '.') =
        extension.reverse := by
      rw [List.takeWhile_append_of_pos hlead]
      simp
    unfold split?
    rw [hname, hdrop, htake]
    simp

end FileName

namespace FileSystem

variable {fs : FileSystem} {place : Place}

/-! ## What lies in a directory -/

theorem mem_children_iff {name : Text} {e : Entry} :
    (name, e) ∈ fs.children place ↔ fs.at? (name :: place) = some e := by
  rw [← fs.mem_entries_iff (List.cons_ne_nil _ _), children, List.mem_filterMap]
  constructor
  · rintro ⟨⟨_ | ⟨first, parent⟩, e'⟩, hmem, hpair⟩
    · cases hpair
    · dsimp only at hpair
      split at hpair
      · next hparent =>
        cases hpair
        exact hparent ▸ hmem
      · cases hpair
  · intro hmem
    exact ⟨_, hmem, if_pos rfl⟩

theorem walkFrom_append_eq_ok_iff {last : Place} {steps more : List Text} :
    fs.walkFrom place (steps ++ more) = .ok last ↔
      ∃ middle, fs.walkFrom place steps = .ok middle ∧ fs.walkFrom middle more = .ok last := by
  induction steps generalizing place with
  | nil => simp [walkFrom]
  | cons step steps ih =>
      rw [List.cons_append, walkFrom_cons_eq_ok_iff, ih]
      simp only [walkFrom_cons_eq_ok_iff]
      constructor
      · rintro ⟨hdirectory, hlength, middle, hsteps, hmore⟩
        exact ⟨middle, ⟨hdirectory, hlength, hsteps⟩, hmore⟩
      · rintro ⟨middle, ⟨hdirectory, hlength, hsteps⟩, hmore⟩
        exact ⟨hdirectory, hlength, middle, hsteps, hmore⟩

theorem walkFrom_steps {p : Path} {middle : Place} (h : fs.walkFrom place p.pieces = .ok middle)
    (hmiddle : fs.isDirectoryAt middle = true) : fs.walkFrom place p.steps = .ok middle := by
  unfold Path.steps
  split
  · have hhere : fs.walkFrom middle [Path.here] = .ok middle :=
      walkFrom_cons_eq_ok_iff.2 ⟨hmiddle, by decide, by simp [walkFrom, advance]⟩
    exact walkFrom_append_eq_ok_iff.2 ⟨middle, h, hhere⟩
  · exact h

theorem exists_find?_of_find?_join {p q : Path} {e : Entry} (hq : q.isAbsolute = false)
    (hpieces : q.pieces ≠ []) (hp : p.text ≠ []) (h : fs.find? (p.join q) = some e) :
    ∃ directory, fs.find? p = some directory ∧ directory.isDirectory = true := by
  obtain ⟨more, hne, hsteps⟩ : ∃ more, more ≠ [] ∧ (p.join q).steps = p.pieces ++ more := by
    unfold Path.steps
    rw [Path.pieces_join hq]
    split
    · exact ⟨q.pieces ++ [Path.here], by simp, by simp⟩
    · exact ⟨q.pieces, hpieces, rfl⟩
  have hstart : fs.start (p.join q) = fs.start p := by simp [start, Path.isAbsolute_join hq]
  obtain ⟨gap, -, htext⟩ := Path.exists_text_join (p := p) hq
  obtain ⟨⟨hnul, hlength⟩, -, hwalk⟩ := walk_eq_ok_iff.1 (walk_of_find? h)
  rw [hsteps, hstart, walkFrom_append_eq_ok_iff] at hwalk
  obtain ⟨middle, hmiddle, hrest⟩ := hwalk
  obtain ⟨step, more, rfl⟩ := List.exists_cons_of_ne_nil hne
  have hdirectory := (walkFrom_cons_eq_ok_iff.1 hrest).1
  have hfound : fs.walk p = .ok middle := by
    refine walk_eq_ok_iff.2 ⟨⟨fun hmem => hnul ?_, ?_⟩, hp, walkFrom_steps hmiddle hdirectory⟩
    · simp [htext, hmem]
    · rw [htext, Text.utf8Length_append, Text.utf8Length_append] at hlength
      omega
  rw [find?, hfound]
  exact exists_of_isDirectoryAt hdirectory

/-! ## Removing -/

theorem isDirectoryAt_of_gone {fs' : FileSystem} (hgone : fs'.at? place = none)
    (h : fs.isDirectoryAt place = false) : fs'.isDirectoryAt place = fs.isDirectoryAt place := by
  rw [h, isDirectoryAt, hgone]
  rfl

theorem isDirectoryAt_remove_of_plain (h : fs.isDirectoryAt place = false) (other : Place) :
    (fs.remove place).isDirectoryAt other = fs.isDirectoryAt other := by
  have hremove := at?_remove_of_plain h other
  by_cases heq : other = place
  · subst heq
    rw [if_pos rfl] at hremove
    exact isDirectoryAt_of_gone hremove h
  · rw [if_neg heq] at hremove
    exact isDirectoryAt_of_at? hremove

variable {names : List Text} (hplain : ∀ name ∈ names, fs.isDirectoryAt (name :: place) = false)

include hplain

theorem at?_removeAll_of_plain (other : Place) :
    (names.foldl (fun fs name => fs.remove (name :: place)) fs).at? other =
      if other ∈ names.map (· :: place) then none else fs.at? other := by
  induction names generalizing fs with
  | nil => simp
  | cons name names ih =>
      obtain ⟨hname, hnames⟩ := List.forall_mem_cons.1 hplain
      have hrest : ∀ name' ∈ names,
          (fs.remove (name :: place)).isDirectoryAt (name' :: place) = false := by
        intro name' hname'
        rw [isDirectoryAt_remove_of_plain hname, hnames name' hname']
      rw [List.foldl_cons, ih hrest, at?_remove_of_plain hname, List.map_cons]
      by_cases hother : other ∈ names.map (· :: place)
      · rw [if_pos hother, if_pos (List.mem_cons_of_mem _ hother)]
      · by_cases heq : other = name :: place
        · rw [if_neg hother, if_pos heq, if_pos (heq ▸ List.mem_cons_self)]
        · rw [if_neg hother, if_neg heq, if_neg (by simpa [heq] using hother)]

theorem isDirectoryAt_removeAll_of_plain (other : Place) :
    (names.foldl (fun fs name => fs.remove (name :: place)) fs).isDirectoryAt other =
      fs.isDirectoryAt other := by
  have hremove := at?_removeAll_of_plain hplain other
  by_cases hother : other ∈ names.map (· :: place)
  · rw [if_pos hother] at hremove
    obtain ⟨name, hname, rfl⟩ := List.mem_map.1 hother
    exact isDirectoryAt_of_gone hremove (hplain name hname)
  · rw [if_neg hother] at hremove
    exact isDirectoryAt_of_at? hremove

theorem find?_removeAll_of_plain (p : Path) :
    (names.foldl (fun fs name => fs.remove (name :: place)) fs).find? p =
      if fs.target p ∈ names.map (· :: place) then none else fs.find? p := by
  have hat := at?_removeAll_of_plain hplain (fs.target p)
  have hcurrent := current_removeAll fs place names
  have hkeeps := isDirectoryAt_removeAll_of_plain hplain
  refine Option.ext fun e => ?_
  constructor
  · intro h
    have hfound := at?_of_find? h
    have hbefore := find?_of_keepsDirectories hcurrent.symm
      (fun other _ hdirectory => (hkeeps other).symm.trans hdirectory) h
    rw [target_congr hcurrent] at hfound hbefore
    rw [hat] at hfound
    split at hfound
    · cases hfound
    · next hother => rw [if_neg hother, hbefore, hfound]
  · intro h
    split at h
    · cases h
    · next hother =>
      rw [find?_of_keepsDirectories hcurrent
        (fun other _ hdirectory => (hkeeps other).trans hdirectory) h, hat, if_neg hother,
        at?_of_find? h]

end FileSystem

end Stencil
