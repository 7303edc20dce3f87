import Stencil.Proofs.Storage.Changes

/-!
# File systems that are alike

What a path shows follows from what is at the places on its way, and so does
what a change along it does.  The order in which entries are listed plays no
part.  A directory that was made once is not made again, and files that are
stored in it in different places can be stored in any order.
-/

namespace Stencil.FileSystem

variable {fs fs' : FileSystem} {p q : Path}

/-! ## The same on the way -/

theorem target_mem_way (fs : FileSystem) (p : Path) : fs.target p ∈ fs.way p := by
  have hmem := foldl_advance_mem_passed (fs.start p) p.steps []
  rw [List.append_nil] at hmem
  exact passed_steps_subset_way fs p hmem

theorem walkFrom_congr {place : Place} {steps : List Text}
    (h : ∀ other ∈ passed place steps, fs'.at? other = fs.at? other) :
    fs'.walkFrom place steps = fs.walkFrom place steps := by
  induction steps generalizing place with
  | nil => rfl
  | cons step steps ih =>
      obtain ⟨hplace, hrest⟩ := List.forall_mem_cons.1 h
      rw [walkFrom, walkFrom, hplace]
      cases fs.at? place with
      | none => rfl
      | some e =>
          dsimp only
          split
          · exact ih hrest
          · rfl

structure IsSameOn (p : Path) (fs fs' : FileSystem) : Prop where
  current : fs'.current = fs.current
  places : ∀ place ∈ fs.way p, fs'.at? place = fs.at? place

theorem IsSameOn.walk (h : IsSameOn p fs fs') : fs'.walk p = fs.walk p := by
  have hstart : fs'.start p = fs.start p := by simp [start, h.current]
  have hfrom : fs'.walkFrom (fs.start p) p.steps = fs.walkFrom (fs.start p) p.steps :=
    walkFrom_congr fun other hother => h.places other (passed_steps_subset_way fs p hother)
  unfold FileSystem.walk
  rw [hstart, hfrom]

theorem IsSameOn.at?_of_walk (h : IsSameOn p fs fs') {place : Place}
    (hwalk : fs.walk p = .ok place) :
    fs'.at? place = fs.at? place :=
  h.places place (eq_target_of_walk hwalk ▸ fs.target_mem_way p)

theorem IsSameOn.find? (h : IsSameOn p fs fs') : fs'.find? p = fs.find? p := by
  unfold FileSystem.find?
  rw [h.walk]
  cases hwalk : fs.walk p with
  | error fault => rfl
  | ok place => exact h.at?_of_walk hwalk

theorem IsSameOn.readText (h : IsSameOn p fs fs') : fs'.readText p = fs.readText p := by
  unfold FileSystem.readText
  rw [h.walk]
  cases hwalk : fs.walk p with
  | error fault => cases fault <;> rfl
  | ok place =>
      dsimp only
      rw [h.at?_of_walk hwalk]

/-! ## The same everywhere -/

structure Alike (fs fs' : FileSystem) : Prop where
  current : fs'.current = fs.current
  now : fs'.now = fs.now
  places : ∀ place, fs'.at? place = fs.at? place

theorem Alike.refl (fs : FileSystem) : fs.Alike fs := ⟨rfl, rfl, fun _ => rfl⟩

theorem Alike.trans {fs'' : FileSystem} (h : fs.Alike fs') (h' : fs'.Alike fs'') : fs.Alike fs'' :=
  ⟨h'.current.trans h.current, h'.now.trans h.now,
    fun place => (h'.places place).trans (h.places place)⟩

theorem Alike.isSameOn (h : fs.Alike fs') (p : Path) : IsSameOn p fs fs' :=
  ⟨h.current, fun place _ => h.places place⟩

theorem Alike.isDirectoryAt (h : fs.Alike fs') (place : Place) :
    fs'.isDirectoryAt place = fs.isDirectoryAt place :=
  isDirectoryAt_of_at? (h.places place)

theorem now_put (fs : FileSystem) (name : Text) (parent : Place) (e : Entry) :
    (fs.put name parent e).now = fs.now := by
  unfold put
  split <;> rfl

theorem put_of_not {name : Text} {parent : Place} (e : Entry)
    (h : ¬(fs.isDirectoryAt parent = true ∧ fs.isDirectoryAt (name :: parent) = false)) :
    fs.put name parent e = fs :=
  dif_neg h

theorem Alike.put (h : fs.Alike fs') (name : Text) (parent : Place) (e : Entry) :
    (fs.put name parent e).Alike (fs'.put name parent e) := by
  refine ⟨?_, ?_, fun place => ?_⟩
  · rw [current_put, current_put, h.current]
  · rw [now_put, now_put, h.now]
  · by_cases hfits : fs.isDirectoryAt parent = true ∧ fs.isDirectoryAt (name :: parent) = false
    · have hfits' := hfits
      rw [← h.isDirectoryAt, ← h.isDirectoryAt] at hfits'
      rw [at?_put _ hfits.1 hfits.2, at?_put _ hfits'.1 hfits'.2, h.places]
    · have hfits' := hfits
      rw [← h.isDirectoryAt, ← h.isDirectoryAt] at hfits'
      rw [put_of_not _ hfits, put_of_not _ hfits', h.places]

/-! ## Making directories -/

def make (fs : FileSystem) : Place → FileSystem
  | name :: parent =>
    if (fs.at? (name :: parent)).isNone && Text.utf8Length name ≤ FileName.limit then
      fs.put name parent (.directory fs.now)
    else fs
  | [] => fs

theorem makeFrom_cons (fs : FileSystem) (place : Place) (step : Text) (steps : List Text) :
    fs.makeFrom place (step :: steps) =
      if (fs.make (advance place step)).isDirectoryAt (advance place step) then
        (fs.make (advance place step)).makeFrom (advance place step) steps
      else fs.make (advance place step) := by
  rw [makeFrom]
  cases advance place step <;> rfl

theorem now_make (fs : FileSystem) (place : Place) : (fs.make place).now = fs.now := by
  unfold make
  split
  · split
    · exact now_put ..
    · rfl
  · rfl

theorem now_makeFrom (fs : FileSystem) (place : Place) (steps : List Text) :
    (fs.makeFrom place steps).now = fs.now := by
  induction steps generalizing fs place with
  | nil => rfl
  | cons step steps ih =>
      rw [makeFrom_cons]
      split
      · rw [ih, now_make]
      · exact now_make ..

theorem now_makeDirectories (fs : FileSystem) (p : Path) : (fs.makeDirectories p).now = fs.now := by
  unfold makeDirectories
  split
  · rfl
  · exact now_makeFrom ..

theorem Alike.make (h : fs.Alike fs') (place : Place) : (fs.make place).Alike (fs'.make place) := by
  cases place with
  | nil => exact h
  | cons name parent =>
      rw [FileSystem.make, FileSystem.make, h.places, h.now]
      split
      · exact h.put ..
      · exact h

theorem Alike.makeFrom (h : fs.Alike fs') (place : Place) (steps : List Text) :
    (fs.makeFrom place steps).Alike (fs'.makeFrom place steps) := by
  induction steps generalizing fs fs' place with
  | nil => exact h
  | cons step steps ih =>
      have hmade := h.make (advance place step)
      rw [makeFrom_cons, makeFrom_cons, hmade.isDirectoryAt]
      split
      · exact ih hmade _
      · exact hmade

theorem Alike.makeDirectories (h : fs.Alike fs') (p : Path) :
    (fs.makeDirectories p).Alike (fs'.makeDirectories p) := by
  have hstart : fs'.start p = fs.start p := by simp [start, h.current]
  unfold FileSystem.makeDirectories
  rw [hstart]
  split
  · exact h
  · exact h.makeFrom ..

/-- The same directories, and no place that is in use has become empty. -/
structure HasMade (made fs : FileSystem) : Prop where
  current : fs.current = made.current
  directories : ∀ place, fs.isDirectoryAt place = made.isDirectoryAt place
  used : ∀ place, fs.at? place = none → made.at? place = none

theorem isDirectoryAt_makeFrom {place other : Place} {steps : List Text}
    (h : fs.isDirectoryAt other = true) : (fs.makeFrom place steps).isDirectoryAt other = true := by
  rcases at?_makeFrom fs place steps other with hsame | ⟨-, hnone, -⟩
  · rw [isDirectoryAt_of_at? hsame, h]
  · obtain ⟨e, he, -⟩ := exists_of_isDirectoryAt h
    rw [hnone] at he
    cases he

theorem make_of_none {place : Place} (h : HasMade (fs.make place) fs')
    (hnone : (fs.make place).at? place = none) : fs'.make place = fs' := by
  cases place with
  | nil => rfl
  | cons name parent =>
      rw [make]
      split
      · next hnew =>
        refine put_of_not _ fun hfits => ?_
        have hbefore : fs.at? (name :: parent) = none := by
          have hmade := at?_made fs (fs.make (name :: parent)) (name :: parent) rfl
          rcases hmade.2 (name :: parent) with hsame | ⟨-, -, time, hdirectory⟩
          · rw [← hsame, hnone]
          · rw [hnone] at hdirectory
            cases hdirectory
        have hput : fs.make (name :: parent) = fs.put name parent (.directory fs.now) := by
          rw [Bool.and_eq_true] at hnew
          rw [make, hbefore, hnew.2]
          rfl
        have hparent : fs.isDirectoryAt parent = true := by
          have hdirectory := hfits.1
          rw [h.directories, hput] at hdirectory
          rwa [isDirectoryAt_of_at? (at?_put_of_ne _ (by simp))] at hdirectory
        have hfree : fs.isDirectoryAt (name :: parent) = false := by
          rw [isDirectoryAt, hbefore]
          rfl
        rw [hput, at?_put _ hparent hfree, if_pos rfl] at hnone
        cases hnone
      · rfl

theorem makeFrom_of_hasMade {place : Place} {steps : List Text}
    (h : HasMade (fs.makeFrom place steps) fs') : fs'.makeFrom place steps = fs' := by
  induction steps generalizing fs place with
  | nil => rfl
  | cons step steps ih =>
      rw [makeFrom_cons] at h ⊢
      by_cases hdirectory : (fs.make (advance place step)).isDirectoryAt (advance place step) = true
      · rw [if_pos hdirectory] at h
        have hthere : fs'.isDirectoryAt (advance place step) = true := by
          rw [h.directories]
          exact isDirectoryAt_makeFrom hdirectory
        have hmake : fs'.make (advance place step) = fs' := by
          obtain ⟨e, he, -⟩ := exists_of_isDirectoryAt hthere
          unfold make
          split
          · next name parent hplace => rw [← hplace, he]; rfl
          · rfl
        rw [hmake, if_pos hthere, ih h]
      · rw [if_neg hdirectory] at h
        have hmissing : fs'.isDirectoryAt (advance place step) ≠ true := by
          rwa [h.directories]
        have hmake : fs'.make (advance place step) = fs' := by
          cases hnone : fs'.at? (advance place step) with
          | none => exact make_of_none h (h.used _ hnone)
          | some e =>
              unfold make
              split
              · next name parent hplace => rw [← hplace, hnone]; rfl
              · rfl
        rw [hmake, if_neg hmissing]

theorem makeDirectories_of_hasMade (h : HasMade (fs.makeDirectories p) fs') :
    fs'.makeDirectories p = fs' := by
  have hcurrent := h.current.trans (current_makeDirectories fs p)
  have hstart : fs'.start p = fs.start p := by simp [start, hcurrent]
  unfold makeDirectories at h ⊢
  rw [hstart]
  split
  · rfl
  · next hlength =>
    rw [if_neg hlength] at h
    exact makeFrom_of_hasMade h

/-! ## Writing -/

def isWritable (fs : FileSystem) (p : Path) : Bool :=
  match fs.walk p with
  | .ok (name :: parent) => fs.isDirectoryAt parent && !fs.isDirectoryAt (name :: parent)
  | _ => false

theorem isSome_write? (fs : FileSystem) (p : Path) (bytes : ByteArray) (time : Int) :
    (fs.write? p bytes time).isSome = fs.isWritable p := by
  unfold write? isWritable
  rcases fs.walk p with fault | _ | ⟨name, parent⟩
  · rfl
  · rfl
  · dsimp only
    cases fs.isDirectoryAt parent && !fs.isDirectoryAt (name :: parent) <;> rfl

theorem isWritable_congr (hcurrent : fs'.current = fs.current)
    (h : ∀ place, fs'.isDirectoryAt place = fs.isDirectoryAt place) :
    fs'.isWritable p = fs.isWritable p := by
  have hwalk : ∀ {a b : FileSystem}, b.current = a.current →
      (∀ place, b.isDirectoryAt place = a.isDirectoryAt place) → ∀ {place},
      a.walk p = .ok place → b.walk p = .ok place := fun hcurrent h _ hwalk =>
    walk_of_keepsDirectories hcurrent (fun place _ hdirectory => (h place).trans hdirectory) hwalk
  unfold isWritable
  cases hfound : fs.walk p with
  | ok place =>
      rw [hwalk hcurrent h hfound]
      cases place with
      | nil => rfl
      | cons name parent => simp only [h]
  | error fault =>
      cases hfound' : fs'.walk p with
      | error fault' => rfl
      | ok place =>
          rw [hwalk hcurrent.symm (fun place => (h place).symm) hfound'] at hfound
          cases hfound

/-! ## Storing -/

def store (fs : FileSystem) (root p : Path) (bytes : ByteArray) (time : Int) : FileSystem :=
  ((fs.makeDirectories root).write? p bytes time).getD (fs.makeDirectories root)

section

variable {root : Path} {bytes bytes' : ByteArray} {time time' : Int}

theorem now_of_write? (h : fs.write? p bytes time = some fs') : fs'.now = fs.now := by
  unfold write? at h
  split at h
  · split at h
    · cases h
      exact now_put ..
    · cases h
  · cases h

theorem current_store (fs : FileSystem) (root p : Path) (bytes : ByteArray) (time : Int) :
    (fs.store root p bytes time).current = fs.current := by
  unfold store
  cases hw : (fs.makeDirectories root).write? p bytes time with
  | none => exact current_makeDirectories ..
  | some written => exact (of_write? hw).1.trans (current_makeDirectories ..)

theorem now_store (fs : FileSystem) (root p : Path) (bytes : ByteArray) (time : Int) :
    (fs.store root p bytes time).now = fs.now := by
  unfold store
  cases hw : (fs.makeDirectories root).write? p bytes time with
  | none => exact now_makeDirectories ..
  | some written => exact (now_of_write? hw).trans (now_makeDirectories ..)

theorem at?_store (fs : FileSystem) (root p : Path) (bytes : ByteArray) (time : Int)
    (place : Place) :
    (fs.store root p bytes time).at? place =
      if (fs.makeDirectories root).isWritable p = true ∧ place = fs.target p then
        some (.file bytes time)
      else (fs.makeDirectories root).at? place := by
  rw [← isSome_write? _ p bytes time, store]
  cases hw : (fs.makeDirectories root).write? p bytes time with
  | none => simp
  | some written =>
      have hplace := (of_write? hw).2 place
      rw [target_congr (current_makeDirectories fs root)] at hplace
      simpa using hplace

theorem hasMade_store (fs : FileSystem) (root p : Path) (bytes : ByteArray) (time : Int) :
    HasMade (fs.makeDirectories root) (fs.store root p bytes time) := by
  unfold store
  cases hw : (fs.makeDirectories root).write? p bytes time with
  | none => exact ⟨rfl, fun _ => rfl, fun _ h => h⟩
  | some written =>
      obtain ⟨hcurrent, hplaces⟩ := of_write? hw
      have hplain := (exists_walk_of_write? hw).2
      refine ⟨hcurrent, fun place => ?_, fun place hnone => ?_⟩
      · by_cases hplace : place = (fs.makeDirectories root).target p
        · rw [hplace, hplain, Option.getD_some, isDirectoryAt, hplaces, if_pos rfl]
          rfl
        · rw [Option.getD_some, isDirectoryAt, hplaces, if_neg hplace, isDirectoryAt]
      · rw [Option.getD_some, hplaces] at hnone
        split at hnone
        · cases hnone
        · exact hnone

theorem makeDirectories_store (fs : FileSystem) (root p : Path) (bytes : ByteArray) (time : Int) :
    (fs.store root p bytes time).makeDirectories root = fs.store root p bytes time :=
  makeDirectories_of_hasMade (hasMade_store ..)

theorem isWritable_store (fs : FileSystem) (root p : Path) (bytes : ByteArray) (time : Int) :
    (fs.store root p bytes time).isWritable q = (fs.makeDirectories root).isWritable q :=
  isWritable_congr (hasMade_store ..).current (hasMade_store ..).directories

theorem alike_store_store (fs : FileSystem) (root : Path) (hne : fs.target p ≠ fs.target q) :
    ((fs.store root p bytes time).store root q bytes' time').Alike
      ((fs.store root q bytes' time').store root p bytes time) := by
  refine ⟨by simp only [current_store], by simp only [now_store], fun place => ?_⟩
  simp only [at?_store, isWritable_store, makeDirectories_store, target_congr (current_store ..)]
  by_cases hp : place = fs.target p
  · have hq : place ≠ fs.target q := fun hq => hne (hp.symm.trans hq)
    simp only [hq, and_false, if_false]
  · simp only [hp, and_false, if_false]

theorem Alike.isWritable (h : fs.Alike fs') (p : Path) : fs'.isWritable p = fs.isWritable p :=
  isWritable_congr h.current h.isDirectoryAt

theorem Alike.store (h : fs.Alike fs') (root p : Path) (bytes : ByteArray) (time : Int) :
    (fs.store root p bytes time).Alike (fs'.store root p bytes time) := by
  have hmade := h.makeDirectories root
  refine ⟨by simp only [current_store, h.current], by simp only [now_store, h.now],
    fun place => ?_⟩
  rw [at?_store, at?_store, hmade.isWritable, hmade.places, target_congr h.current]

end

end Stencil.FileSystem
