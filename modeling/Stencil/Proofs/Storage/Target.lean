import Stencil.Storage.FileSystem

/-!
# Where paths lead

A walk only checks that the way is there.  The place at its end follows from
the path and the current directory alone, so that what a path shows depends on
one place, and what a change along a path does is known place by place.
-/

namespace Stencil.FileSystem

/-- The place that a path leads to once its way is there. -/
def target (fs : FileSystem) (p : Path) : Place := p.steps.foldl advance (fs.start p)

def passed (place : Place) : List Text → List Place
  | [] => [place]
  | step :: steps => place :: passed (advance place step) steps

def way (fs : FileSystem) (p : Path) : List Place := passed (fs.start p) p.pieces

theorem target_congr {fs fs' : FileSystem} (h : fs'.current = fs.current) (p : Path) :
    fs'.target p = fs.target p := by
  simp [target, start, h]

theorem way_congr {fs fs' : FileSystem} (h : fs'.current = fs.current) (p : Path) :
    fs'.way p = fs.way p := by
  simp [way, start, h]

theorem mem_passed_self (place : Place) (steps : List Text) : place ∈ passed place steps := by
  cases steps <;> simp [passed]

theorem passed_subset_append (place : Place) (steps more : List Text) :
    passed place steps ⊆ passed place (steps ++ more) := by
  induction steps generalizing place with
  | nil => simp [passed, mem_passed_self]
  | cons step steps ih => exact List.cons_subset_cons place (ih _)

theorem foldl_advance_mem_passed (place : Place) (steps more : List Text) :
    steps.foldl advance place ∈ passed place (steps ++ more) := by
  induction steps generalizing place with
  | nil => exact mem_passed_self ..
  | cons step steps ih => exact List.mem_cons_of_mem _ (ih _)

/-! ## Looking -/

theorem eq_target_of_walk {fs : FileSystem} {p : Path} {place : Place}
    (h : fs.walk p = .ok place) : place = fs.target p := by
  unfold walk at h
  split at h
  · cases h
  · split at h
    · cases h
    · exact eq_foldl_of_walkFrom h

theorem at?_of_find? {fs : FileSystem} {p : Path} {e : Entry} (h : fs.find? p = some e) :
    fs.at? (fs.target p) = some e := by
  unfold find? at h
  split at h
  · next place hw => rwa [← eq_target_of_walk hw]
  · cases h

theorem exists_at?_of_walkFrom {fs : FileSystem} {place last other : Place} {steps : List Text}
    {e : Entry} (h : fs.walkFrom place steps = .ok last) (hlast : fs.at? last = some e)
    (hother : other ∈ passed place steps) : ∃ e', fs.at? other = some e' := by
  induction steps generalizing place with
  | nil =>
      simp only [walkFrom, Except.ok.injEq] at h
      simp only [passed, List.mem_singleton] at hother
      exact ⟨e, by rw [hother, h, hlast]⟩
  | cons step steps ih =>
      simp only [walkFrom] at h
      split at h
      · cases h
      · next e' hplace =>
        split at h
        · rcases List.mem_cons.1 hother with rfl | hother
          · exact ⟨e', hplace⟩
          · exact ih h hother
        · cases h

theorem exists_at?_of_find? {fs : FileSystem} {p : Path} {e : Entry} {place : Place}
    (h : fs.find? p = some e) (hplace : place ∈ passed (fs.start p) p.steps) :
    ∃ e', fs.at? place = some e' := by
  unfold find? walk at h
  split at h
  · next last hw =>
    split at hw
    · cases hw
    · split at hw
      · cases hw
      · exact exists_at?_of_walkFrom hw h hplace
  · cases h

theorem readText_eq_ok_iff {fs : FileSystem} {p : Path} {t : Text} :
    fs.readText p = .ok t ↔ ∃ e, fs.find? p = some e ∧ e.bytes?.bind Text.ofBytes? = some t := by
  unfold readText find?
  cases fs.walk p with
  | error fault => cases fault <;> simp
  | ok place =>
      dsimp only
      cases fs.at? place with
      | none => simp
      | some e =>
          dsimp only
          cases hb : e.bytes?.bind Text.ofBytes? <;> simp [hb]

theorem readText_ne_absent_of_isFile {fs : FileSystem} {p : Path} (h : fs.isFile p = true) :
    fs.readText p ≠ .error .absent := by
  unfold isFile find? at h
  unfold readText
  cases hw : fs.walk p with
  | error fault => simp [hw] at h
  | ok place =>
      simp only [hw] at h ⊢
      cases hat : fs.at? place with
      | none => simp [hat] at h
      | some e =>
          dsimp only
          cases e.bytes?.bind Text.ofBytes? <;> simp

theorem mem_entries_of_at? {fs : FileSystem} {place : Place} {e : Entry}
    (h : fs.at? place = some e) (he : e.isDirectory = false) : (place, e) ∈ fs.entries := by
  refine (fs.mem_entries_iff ?_).2 h
  rintro rfl
  simp only [at?_nil, Option.some.injEq] at h
  subst h
  cases he

/-! ## Making directories -/

theorem current_put (fs : FileSystem) (name : Text) (parent : Place) (e : Entry) :
    (fs.put name parent e).current = fs.current := by
  unfold put
  split <;> rfl

theorem at?_put_of_ne {fs : FileSystem} {name : Text} {parent place : Place} (e : Entry)
    (h : place ≠ name :: parent) : (fs.put name parent e).at? place = fs.at? place := by
  by_cases hp : fs.isDirectoryAt parent = true ∧ fs.isDirectoryAt (name :: parent) = false
  · rw [at?_put e hp.1 hp.2, if_neg h]
  · simp [put, hp]

theorem at?_put_cases (fs : FileSystem) (name : Text) (parent : Place) (e : Entry)
    (other : Place) :
    (fs.put name parent e).at? other = fs.at? other ∨
      other = name :: parent ∧ (fs.put name parent e).at? other = some e := by
  by_cases ho : other = name :: parent
  · by_cases hp : fs.isDirectoryAt parent = true ∧ fs.isDirectoryAt (name :: parent) = false
    · exact Or.inr ⟨ho, by rw [at?_put _ hp.1 hp.2, if_pos ho]⟩
    · exact Or.inl (by simp [put, hp])
  · exact Or.inl (at?_put_of_ne _ ho)

theorem at?_made (fs made : FileSystem) (next : Place)
    (h : made = match next with
      | name :: parent =>
        if (fs.at? next).isNone && Text.utf8Length name ≤ FileName.limit then
          fs.put name parent (.directory fs.now)
        else fs
      | [] => fs) :
    made.current = fs.current ∧ ∀ other, made.at? other = fs.at? other ∨
      other = next ∧ fs.at? other = none ∧ ∃ time, made.at? other = some (.directory time) := by
  subst h
  cases next with
  | nil => exact ⟨rfl, fun _ => Or.inl rfl⟩
  | cons name parent =>
      dsimp only
      split
      · next hn =>
        simp only [Bool.and_eq_true, Option.isNone_iff_eq_none] at hn
        refine ⟨current_put .., fun other => ?_⟩
        rcases at?_put_cases fs name parent (.directory fs.now) other with h | ⟨rfl, h⟩
        · exact Or.inl h
        · exact Or.inr ⟨rfl, hn.1, _, h⟩
      · exact ⟨rfl, fun _ => Or.inl rfl⟩

theorem current_makeFrom (fs : FileSystem) (place : Place) (steps : List Text) :
    (fs.makeFrom place steps).current = fs.current := by
  fun_induction makeFrom fs place steps with
  | case1 => rfl
  | case2 fs place step steps next made _ ih =>
      rw [ih]
      exact (at?_made _ made next rfl).1
  | case3 fs place step steps next made _ => exact (at?_made _ made next rfl).1

theorem at?_makeFrom (fs : FileSystem) (place : Place) (steps : List Text) (other : Place) :
    (fs.makeFrom place steps).at? other = fs.at? other ∨
      other ∈ passed place steps ∧ fs.at? other = none ∧
        ∃ time, (fs.makeFrom place steps).at? other = some (.directory time) := by
  fun_induction makeFrom fs place steps with
  | case1 => exact Or.inl rfl
  | case2 fs place step steps next made _ ih =>
      have hmade := (at?_made fs made next rfl).2 other
      rcases ih with ih | ⟨hm, hn, hd⟩
      · rw [ih]
        rcases hmade with h | ⟨rfl, hn, hd⟩
        · exact Or.inl h
        · exact Or.inr ⟨List.mem_cons_of_mem _ (mem_passed_self ..), hn, hd⟩
      · rcases hmade with h | ⟨-, -, time, h⟩
        · exact Or.inr ⟨List.mem_cons_of_mem _ hm, h ▸ hn, hd⟩
        · rw [hn] at h
          cases h
  | case3 fs place step steps next made _ =>
      rcases (at?_made fs made next rfl).2 other with h | ⟨rfl, hn, hd⟩
      · exact Or.inl h
      · exact Or.inr ⟨List.mem_cons_of_mem _ (mem_passed_self ..), hn, hd⟩

theorem current_makeDirectories (fs : FileSystem) (p : Path) :
    (fs.makeDirectories p).current = fs.current := by
  unfold makeDirectories
  split
  · rfl
  · exact current_makeFrom ..

theorem makeable_prefix (p : Path) : makeable p <+: p.pieces := by
  unfold makeable
  split
  · have h := (List.tail_suffix (p.pieces.reverse.dropWhile (· = Path.here))).trans
      (List.dropWhile_suffix _)
    simpa using List.reverse_prefix.2 h
  · exact List.prefix_refl _

theorem at?_makeDirectories (fs : FileSystem) (p : Path) (other : Place) :
    (fs.makeDirectories p).at? other = fs.at? other ∨
      other ∈ fs.way p ∧ fs.at? other = none ∧
        ∃ time, (fs.makeDirectories p).at? other = some (.directory time) := by
  unfold makeDirectories
  split
  · exact Or.inl rfl
  · rcases at?_makeFrom fs (fs.start p) (makeable p) other with h | ⟨hm, hn, hd⟩
    · exact Or.inl h
    · obtain ⟨more, hmore⟩ := makeable_prefix p
      refine Or.inr ⟨?_, hn, hd⟩
      rw [way, ← hmore]
      exact passed_subset_append _ _ _ hm

/-! ## Writing and removing -/

theorem of_write? {fs fs' : FileSystem} {p : Path} {bytes : ByteArray} {time : Int}
    (h : fs.write? p bytes time = some fs') :
    fs'.current = fs.current ∧
      ∀ place, fs'.at? place = if place = fs.target p then some (.file bytes time)
        else fs.at? place := by
  unfold write? at h
  split at h
  · next name parent hw =>
    split at h
    · next hd =>
      simp only [Bool.and_eq_true, Bool.not_eq_true'] at hd
      simp only [Option.some.injEq] at h
      subst h
      refine ⟨current_put .., fun place => ?_⟩
      rw [at?_put _ hd.1 hd.2, eq_target_of_walk hw]
    · cases h
  · cases h

theorem current_removeAll (fs : FileSystem) (place : Place) (names : List Text) :
    (names.foldl (fun fs name => fs.remove (name :: place)) fs).current = fs.current := by
  induction names generalizing fs with
  | nil => rfl
  | cons name names ih => exact ih (fs.remove (name :: place))

theorem at?_removeAll (fs : FileSystem) (place : Place) (names : List Text) (other : Place) :
    (names.foldl (fun fs name => fs.remove (name :: place)) fs).at? other = fs.at? other ∨
      place <:+ other ∧
        (names.foldl (fun fs name => fs.remove (name :: place)) fs).at? other = none := by
  induction names generalizing fs with
  | nil => exact Or.inl rfl
  | cons name names ih =>
      rw [List.foldl_cons]
      have hremove := at?_remove fs (name :: place) other
      by_cases hs : other ≠ [] ∧ name :: place <:+ other
      · have hplace : place <:+ other := (List.suffix_cons name place).trans hs.2
        rw [if_pos hs] at hremove
        rcases ih (fs.remove (name :: place)) with h | h
        · exact Or.inr ⟨hplace, by rw [h, hremove]⟩
        · exact Or.inr h
      · rw [if_neg hs] at hremove
        rw [← hremove]
        exact ih (fs.remove (name :: place))

end Stencil.FileSystem
