import Mathlib.Logic.Relation
import Stencil.Proofs.Storage.Target
import Stencil.Storage.Edit

/-!
# Changes beside certain files

A path shows the same after a change if the directories on its way are still
there and the file at its end was left alone.  Directories are only added when
a file is written, and only the file that is named changes when one is written,
touched or removed.
-/

namespace Stencil.FileSystem

/-! ## Walks where directories stay -/

def KeepsDirectories (before after : FileSystem) (places : List Place) : Prop :=
  ∀ place ∈ places, before.isDirectoryAt place = true → after.isDirectoryAt place = true

theorem passed_concat_here (place : Place) (steps : List Text) :
    passed place (steps ++ [Path.here]) ⊆ passed place steps := by
  induction steps generalizing place with
  | nil =>
      intro other hother
      simpa [passed, advance] using hother
  | cons step steps ih => exact List.cons_subset_cons place (ih _)

theorem passed_steps_subset_way (fs : FileSystem) (p : Path) :
    passed (fs.start p) p.steps ⊆ fs.way p := by
  unfold way Path.steps
  split
  · exact passed_concat_here ..
  · exact List.Subset.refl _

theorem walkFrom_cons_eq_ok_iff {fs : FileSystem} {place last : Place} {step : Text}
    {steps : List Text} :
    fs.walkFrom place (step :: steps) = .ok last ↔
      fs.isDirectoryAt place = true ∧ Text.utf8Length step ≤ FileName.limit ∧
        fs.walkFrom (advance place step) steps = .ok last := by
  rw [walkFrom, isDirectoryAt]
  cases fs.at? place with
  | none => simp
  | some e =>
      by_cases hd : e.isDirectory = true <;>
        by_cases hlength : Text.utf8Length step ≤ FileName.limit <;> simp [hd, hlength]

theorem walk_eq_ok_iff {fs : FileSystem} {p : Path} {place : Place} :
    fs.walk p = .ok place ↔
      (Char.ofNat 0 ∉ p.text ∧ Text.utf8Length p.text ≤ pathLimit) ∧ p.text ≠ [] ∧
        fs.walkFrom (fs.start p) p.steps = .ok place := by
  have hwalkable : (p.text.contains (Char.ofNat 0) ||
      decide (pathLimit < Text.utf8Length p.text)) = true ↔
        ¬(Char.ofNat 0 ∉ p.text ∧ Text.utf8Length p.text ≤ pathLimit) := by
    rw [Bool.or_eq_true, List.contains_eq_mem, decide_eq_true_eq, decide_eq_true_eq,
      Classical.not_and_iff_not_or_not, Classical.not_not, Nat.not_le]
  unfold walk
  by_cases hfits : Char.ofNat 0 ∉ p.text ∧ Text.utf8Length p.text ≤ pathLimit
  · rw [if_neg fun h => hwalkable.1 h hfits]
    by_cases hempty : p.text = []
    · simp [hempty]
    · simp [hempty, hfits]
  · rw [if_pos (hwalkable.2 hfits)]
    simp [hfits]

theorem walkFrom_of_keepsDirectories {before after : FileSystem} {place last : Place}
    {steps : List Text} (hkeeps : before.KeepsDirectories after (passed place steps))
    (h : before.walkFrom place steps = .ok last) : after.walkFrom place steps = .ok last := by
  induction steps generalizing place with
  | nil => exact h
  | cons step steps ih =>
      obtain ⟨hdirectory, hlength, hrest⟩ := walkFrom_cons_eq_ok_iff.1 h
      exact walkFrom_cons_eq_ok_iff.2 ⟨hkeeps place List.mem_cons_self hdirectory, hlength,
        ih (fun other hother => hkeeps other (List.mem_cons_of_mem _ hother)) hrest⟩

theorem walk_of_keepsDirectories {before after : FileSystem} {p : Path} {place : Place}
    (hcurrent : after.current = before.current)
    (hkeeps : before.KeepsDirectories after (before.way p)) (h : before.walk p = .ok place) :
    after.walk p = .ok place := by
  have hstart : after.start p = before.start p := by simp [start, hcurrent]
  unfold walk at h ⊢
  rw [hstart]
  split at h
  · cases h
  · next hwalkable =>
    rw [if_neg hwalkable]
    split at h
    · cases h
    · next hne =>
      rw [if_neg hne]
      exact walkFrom_of_keepsDirectories
        (fun other hother => hkeeps other (passed_steps_subset_way before p hother)) h

theorem walk_of_find? {fs : FileSystem} {p : Path} {e : Entry} (h : fs.find? p = some e) :
    fs.walk p = .ok (fs.target p) := by
  unfold find? at h
  split at h
  · next place hw => rw [hw, eq_target_of_walk hw]
  · cases h

theorem find?_of_keepsDirectories {before after : FileSystem} {p : Path} {e : Entry}
    (hcurrent : after.current = before.current)
    (hkeeps : before.KeepsDirectories after (before.way p)) (h : before.find? p = some e) :
    after.find? p = after.at? (before.target p) := by
  rw [find?, walk_of_keepsDirectories hcurrent hkeeps (walk_of_find? h)]

/-! ## Sparing changes -/

/-- Leaves alone what certain paths show: files are the same, and the directories on the ways to
them are still there, whatever happened in them. -/
structure Spares (kept : List Path) (before after : FileSystem) : Prop where
  current : after.current = before.current
  directories : ∀ p ∈ kept, before.KeepsDirectories after (before.way p)
  files : ∀ p ∈ kept, ∀ e, before.at? (before.target p) = some e → e.isFile = true →
    after.at? (before.target p) = some e

variable {kept : List Path} {before after : FileSystem}

theorem Spares.find? (h : Spares kept before after) {p : Path} (hp : p ∈ kept) {e : Entry}
    (hfind : before.find? p = some e) (hfile : e.isFile = true) : after.find? p = some e := by
  rw [find?_of_keepsDirectories h.current (h.directories p hp) hfind]
  exact h.files p hp e (at?_of_find? hfind) hfile

theorem find?_of_reflTransGen (h : Relation.ReflTransGen (Spares kept) before after) {p : Path}
    (hp : p ∈ kept) {e : Entry} (hfind : before.find? p = some e) (hfile : e.isFile = true) :
    after.find? p = some e := by
  induction h with
  | refl => exact hfind
  | tail _ hstep ih => exact hstep.find? hp ih hfile

/-! ## What changes along a path keep -/

theorem isDirectoryAt_of_at? {place : Place} (h : after.at? place = before.at? place) :
    after.isDirectoryAt place = before.isDirectoryAt place := by
  rw [isDirectoryAt, isDirectoryAt, h]

theorem exists_of_isDirectoryAt {fs : FileSystem} {place : Place}
    (h : fs.isDirectoryAt place = true) : ∃ e, fs.at? place = some e ∧ e.isDirectory = true :=
  (Option.any_eq_true _ _).1 h

theorem isDirectoryAt_makeDirectories {fs : FileSystem} (p : Path) {place : Place}
    (h : fs.isDirectoryAt place = true) : (fs.makeDirectories p).isDirectoryAt place = true := by
  rcases at?_makeDirectories fs p place with hsame | ⟨-, hnone, -⟩
  · rw [isDirectoryAt_of_at? hsame, h]
  · obtain ⟨e, he, -⟩ := exists_of_isDirectoryAt h
    rw [hnone] at he
    cases he

theorem at?_makeDirectories_of_some {fs : FileSystem} (p : Path) {place : Place} {e : Entry}
    (h : fs.at? place = some e) : (fs.makeDirectories p).at? place = some e := by
  rcases at?_makeDirectories fs p place with hsame | ⟨-, hnone, -⟩
  · rw [hsame, h]
  · rw [hnone] at h
    cases h

theorem exists_walk_of_write? {fs fs' : FileSystem} {p : Path} {bytes : ByteArray} {time : Int}
    (h : fs.write? p bytes time = some fs') :
    fs.walk p = .ok (fs.target p) ∧ fs.isDirectoryAt (fs.target p) = false := by
  unfold write? at h
  split at h
  · next name parent hw =>
    split at h
    · next hd =>
      simp only [Bool.and_eq_true, Bool.not_eq_true'] at hd
      rw [← eq_target_of_walk hw]
      exact ⟨hw, hd.2⟩
    · cases h
  · cases h

theorem isDirectoryAt_of_write? {fs fs' : FileSystem} {p : Path} {bytes : ByteArray} {time : Int}
    (h : fs.write? p bytes time = some fs') {place : Place}
    (hdirectory : fs.isDirectoryAt place = true) : fs'.isDirectoryAt place = true := by
  have hne : place ≠ fs.target p := by
    rintro rfl
    rw [(exists_walk_of_write? h).2] at hdirectory
    cases hdirectory
  have hsame := (of_write? h).2 place
  rw [if_neg hne] at hsame
  rw [isDirectoryAt_of_at? hsame, hdirectory]

theorem find?_of_write? {fs fs' : FileSystem} {p : Path} {bytes : ByteArray} {time : Int}
    (h : fs.write? p bytes time = some fs') : fs'.find? p = some (.file bytes time) := by
  have hwalk := walk_of_keepsDirectories (of_write? h).1
    (fun _ _ hd => isDirectoryAt_of_write? h hd) (exists_walk_of_write? h).1
  have hplace := (of_write? h).2 (fs.target p)
  rw [find?, hwalk]
  simpa using hplace

/-! ## Changes to other files -/

variable {p : Path}

theorem spares_of_write? {bytes : ByteArray} {time : Int}
    (h : before.write? p bytes time = some after)
    (hother : ∀ q ∈ kept, before.target q ≠ before.target p) : Spares kept before after where
  current := (of_write? h).1
  directories _ _ _ _ hdirectory := isDirectoryAt_of_write? h hdirectory
  files q hq e he _ := by
    rw [(of_write? h).2, if_neg (hother q hq), he]

theorem spares_makeDirectories (kept : List Path) (fs : FileSystem) (p : Path) :
    Spares kept fs (fs.makeDirectories p) where
  current := current_makeDirectories ..
  directories _ _ _ _ hdirectory := isDirectoryAt_makeDirectories p hdirectory
  files _ _ _ he _ := at?_makeDirectories_of_some p he

theorem Spares.refl (kept : List Path) (fs : FileSystem) : Spares kept fs fs where
  current := rfl
  directories _ _ _ _ hdirectory := hdirectory
  files _ _ _ he _ := he

theorem Spares.trans {between : FileSystem} (h : Spares kept before between)
    (h' : Spares kept between after) : Spares kept before after where
  current := h'.current.trans h.current
  directories q hq place hplace hdirectory := by
    refine h'.directories q hq place ?_ (h.directories q hq place hplace hdirectory)
    rwa [way_congr h.current]
  files q hq e he hfile := by
    have hagain := h'.files q hq e
    rw [target_congr h.current] at hagain
    exact hagain (h.files q hq e he hfile) hfile

theorem spares_save (fs : FileSystem) (bytes : ByteArray) (time : Option Int)
    (hother : ∀ q ∈ kept, fs.target q ≠ fs.target p) : Spares kept fs (fs.save p bytes time) := by
  have hmade := spares_makeDirectories kept fs p.outer
  unfold save
  dsimp only
  cases hw : (fs.makeDirectories p.outer).write? p bytes (time.getD fs.now) with
  | none => exact hmade
  | some written =>
      refine hmade.trans (spares_of_write? hw fun q hq => ?_)
      rw [target_congr hmade.current, target_congr hmade.current]
      exact hother q hq

theorem spares_touch (fs : FileSystem) (time : Int)
    (hother : ∀ q ∈ kept, fs.target q ≠ fs.target p) : Spares kept fs (fs.touch p time) := by
  unfold touch
  split
  · next bytes _ =>
    cases hw : fs.write? p bytes time with
    | none => exact .refl kept fs
    | some written => exact spares_of_write? hw hother
  · exact .refl kept fs

theorem isDirectoryAt_of_suffix {fs : FileSystem} {place outer : Place} {e : Entry}
    (h : fs.at? place = some e) (hsuffix : outer <:+ place) (hne : outer ≠ place) :
    fs.isDirectoryAt outer = true := by
  induction place generalizing e with
  | nil => exact absurd (List.suffix_nil.1 hsuffix) hne
  | cons name parent ih =>
      have hparent : fs.isDirectoryAt parent = true := isDirectoryAt_tail h
      rcases List.suffix_cons_iff.1 hsuffix with rfl | hsuffix
      · exact absurd rfl hne
      · by_cases heq : outer = parent
        · rw [heq, hparent]
        · obtain ⟨e', he', -⟩ := exists_of_isDirectoryAt hparent
          exact ih he' hsuffix heq

theorem isDirectoryAt_nil (fs : FileSystem) : fs.isDirectoryAt [] = true := rfl

theorem at?_remove_of_plain {fs : FileSystem} {place : Place} (h : fs.isDirectoryAt place = false)
    (other : Place) :
    (fs.remove place).at? other = if other = place then none else fs.at? other := by
  rw [at?_remove]
  by_cases heq : other = place
  · subst heq
    have hne : other ≠ [] := by
      rintro rfl
      rw [isDirectoryAt_nil] at h
      cases h
    rw [if_pos ⟨hne, List.suffix_refl _⟩, if_pos rfl]
  · rw [if_neg heq]
    split
    · next hbelow =>
      rw [eq_comm, Option.eq_none_iff_forall_ne_some]
      intro e he
      rw [isDirectoryAt_of_suffix he hbelow.2 (Ne.symm heq)] at h
      cases h
    · rfl

theorem spares_removeFile? {fs : FileSystem} (h : fs.removeFile? p = some after)
    (hother : ∀ q ∈ kept, fs.target q ≠ fs.target p) : Spares kept fs after := by
  unfold removeFile? removeIf? at h
  split at h
  · cases h
  · next place hw =>
    split at h
    · next hany =>
      cases h
      obtain ⟨e, he, hfile⟩ := (Option.any_eq_true _ _).1 hany
      have hplain : fs.isDirectoryAt place = false := by
        simp [isDirectoryAt, he, Entry.isDirectory_eq_not_isFile, hfile]
      rw [eq_target_of_walk hw] at hplain ⊢
      constructor
      · rfl
      · rintro q - other - hdirectory
        have hne : other ≠ fs.target p := by
          rintro rfl
          rw [hplain] at hdirectory
          cases hdirectory
        have hsame := at?_remove_of_plain hplain other
        rw [if_neg hne] at hsame
        rw [isDirectoryAt_of_at? hsame, hdirectory]
      · intro q hq e' he' _
        rw [at?_remove_of_plain hplain, if_neg (hother q hq), he']
    · cases h

end Stencil.FileSystem
