import Stencil.Storage.Path

/-!
# File systems

A file system is a tree of directories and files with modification times, kept
as a list of places.  A place is the list of names on the way to it, innermost
first.  Every place that is in use lies in a directory, and no place is listed
twice.  The root directory is always there and is not listed.
-/

namespace Stencil

/-- Names from the innermost outwards; the root is the empty list. -/
abbrev Place := List Text

inductive Content where
  | file (bytes : ByteArray)
  | directory

structure Entry where
  content : Content
  /-- The time of the last change, in seconds. -/
  modified : Int

namespace Entry

def isDirectory (e : Entry) : Bool :=
  match e.content with
  | .directory => true
  | .file _ => false

def bytes? (e : Entry) : Option ByteArray :=
  match e.content with
  | .file bytes => some bytes
  | .directory => none

def isFile (e : Entry) : Bool := e.bytes?.isSome

def file (bytes : ByteArray) (modified : Int) : Entry := ⟨.file bytes, modified⟩

def directory (modified : Int) : Entry := ⟨.directory, modified⟩

theorem isDirectory_eq_not_isFile (e : Entry) : e.isDirectory = !e.isFile := by
  unfold isDirectory isFile bytes?
  cases e.content <;> rfl

end Entry

def hasDirectory (entries : List (Place × Entry)) (place : Place) : Prop :=
  place = [] ∨ ∃ e, (place, e) ∈ entries ∧ e.isDirectory = true

structure FileSystem where
  entries : List (Place × Entry)
  current : Place
  now : Int
  nodup : (entries.map Prod.fst).Nodup
  nested : ∀ pair ∈ entries, pair.1 ≠ [] ∧ hasDirectory entries pair.1.tail

namespace FileSystem

def empty : FileSystem := ⟨[], [], 0, by simp, by simp⟩

/-! ## Looking -/

def at? (fs : FileSystem) (place : Place) : Option Entry :=
  if place = [] then some (.directory 0) else fs.entries.lookup place

def isDirectoryAt (fs : FileSystem) (place : Place) : Bool :=
  (fs.at? place).any Entry.isDirectory

@[simp] theorem at?_nil (fs : FileSystem) : fs.at? [] = some (.directory 0) := rfl

theorem lookup_eq_some_iff {entries : List (Place × Entry)}
    (nodup : (entries.map Prod.fst).Nodup) {place : Place} {e : Entry} :
    entries.lookup place = some e ↔ (place, e) ∈ entries := by
  induction entries with
  | nil => simp
  | cons pair entries ih =>
    obtain ⟨first, e'⟩ := pair
    simp only [List.map_cons, List.nodup_cons] at nodup
    by_cases h : place = first
    · subst h
      simp only [List.lookup_cons_self, Option.some.injEq, List.mem_cons, Prod.mk.injEq, true_and]
      constructor
      · rintro rfl
        exact Or.inl rfl
      · rintro (rfl | hm)
        · rfl
        · exact absurd (List.mem_map_of_mem hm) nodup.1
    · simp only [List.lookup_cons, beq_eq_false_iff_ne.2 h, List.mem_cons, Prod.mk.injEq, h,
        false_and, false_or]
      exact ih nodup.2

theorem mem_entries_iff (fs : FileSystem) {place : Place} {e : Entry} (h : place ≠ []) :
    (place, e) ∈ fs.entries ↔ fs.at? place = some e := by
  simp [at?, h, lookup_eq_some_iff fs.nodup]

theorem isDirectoryAt_iff (fs : FileSystem) (place : Place) :
    fs.isDirectoryAt place = true ↔ hasDirectory fs.entries place := by
  by_cases h : place = []
  · simp [h, isDirectoryAt, hasDirectory, Entry.directory, Entry.isDirectory]
  · simp [isDirectoryAt, hasDirectory, h, fs.mem_entries_iff h, Option.any_eq_true]

theorem isDirectoryAt_tail {fs : FileSystem} {place : Place} {e : Entry}
    (h : fs.at? place = some e) : fs.isDirectoryAt place.tail = true := by
  by_cases hp : place = []
  · simp [hp, isDirectoryAt, Entry.directory, Entry.isDirectory]
  · exact (fs.isDirectoryAt_iff _).2 (fs.nested _ ((fs.mem_entries_iff hp).2 h)).2

/-! ## Putting and removing -/

/-- Puts an entry where one may be: in a directory, and not in the place of one. -/
def put (fs : FileSystem) (name : Text) (parent : Place) (e : Entry) : FileSystem :=
  if h : fs.isDirectoryAt parent = true ∧ fs.isDirectoryAt (name :: parent) = false then
    { fs with
      entries := (name :: parent, e) :: fs.entries.filter fun pair => pair.1 != name :: parent
      nodup := by
        have := fs.nodup
        simp only [List.map_cons, List.nodup_cons]
        refine ⟨by simp, this.sublist (List.filter_sublist.map _)⟩
      nested := by
        have keeps : ∀ place, hasDirectory fs.entries place →
            hasDirectory ((name :: parent, e) ::
              fs.entries.filter fun pair => pair.1 != name :: parent) place := by
          intro place hd
          by_cases hp : place = name :: parent
          · rw [hp, ← fs.isDirectoryAt_iff, h.2] at hd
            exact absurd hd (by simp)
          · rcases hd with hd | ⟨e', hm, he⟩
            · exact Or.inl hd
            · exact Or.inr ⟨e', List.mem_cons_of_mem _ (by simp [hm, hp]), he⟩
        intro pair hm
        rcases List.mem_cons.1 hm with rfl | hm
        · exact ⟨by simp, keeps _ ((fs.isDirectoryAt_iff _).1 h.1)⟩
        · have := fs.nested pair (List.mem_filter.1 hm).1
          exact ⟨this.1, keeps _ this.2⟩ }
  else fs

def remove (fs : FileSystem) (place : Place) : FileSystem :=
  { fs with
    entries := fs.entries.filter fun pair => !place.isSuffixOf pair.1
    nodup := fs.nodup.sublist (List.filter_sublist.map _)
    nested := by
      intro pair hm
      obtain ⟨hm, hk⟩ := List.mem_filter.1 hm
      refine ⟨(fs.nested pair hm).1, ?_⟩
      rcases (fs.nested pair hm).2 with hd | ⟨e, he, hdir⟩
      · exact Or.inl hd
      · refine Or.inr ⟨e, List.mem_filter.2 ⟨he, ?_⟩, hdir⟩
        simp only [Bool.not_eq_true', ← Bool.not_eq_true, List.isSuffixOf_iff_suffix] at hk ⊢
        exact fun hs => hk (hs.trans (List.tail_suffix _)) }

theorem lookup_filter (entries : List (Place × Entry)) (keep : Place → Bool) (place : Place) :
    (entries.filter fun pair => keep pair.1).lookup place =
      if keep place then entries.lookup place else none := by
  induction entries with
  | nil => simp
  | cons pair entries ih =>
    obtain ⟨first, e⟩ := pair
    by_cases hk : keep first <;> by_cases hp : place = first
    · subst hp
      simp [hk]
    · simp [hk, List.lookup_cons, beq_eq_false_iff_ne.2 hp, ih]
    · subst hp
      simp [hk, ih]
    · simp [hk, List.lookup_cons, beq_eq_false_iff_ne.2 hp, ih]

theorem at?_put {fs : FileSystem} {name : Text} {parent : Place} (e : Entry)
    (hd : fs.isDirectoryAt parent = true) (hf : fs.isDirectoryAt (name :: parent) = false)
    (place : Place) :
    (fs.put name parent e).at? place =
      if place = name :: parent then some e else fs.at? place := by
  have hput : (fs.put name parent e).entries =
      (name :: parent, e) :: fs.entries.filter fun pair => pair.1 != name :: parent := by
    simp [put, hd, hf]
  by_cases hn : place = []
  · simp [hn]
  · by_cases hp : place = name :: parent
    · simp [at?, hput, hp]
    · have := lookup_filter fs.entries (fun other => other != name :: parent) place
      simp [at?, hput, hp, hn, List.lookup_cons, beq_eq_false_iff_ne.2 hp, this]

theorem at?_remove (fs : FileSystem) (removed place : Place) :
    (fs.remove removed).at? place =
      if place ≠ [] ∧ removed <:+ place then none else fs.at? place := by
  have := lookup_filter fs.entries (fun other => !removed.isSuffixOf other) place
  by_cases hn : place = []
  · simp [hn]
  · by_cases hs : removed <:+ place
    · simp [at?, remove, hn, this, hs, List.isSuffixOf_iff_suffix.2 hs]
    · have hk : removed.isSuffixOf place = false := by
        simpa [← Bool.not_eq_true, List.isSuffixOf_iff_suffix] using hs
      simp [at?, remove, hn, this, hs, hk]

/-! ## Walking -/

inductive WalkFault where
  | absent
  /-- Something on the way is no directory, or the path cannot be walked at all. -/
  | blocked
deriving DecidableEq, Repr

def advance (place : Place) (step : Text) : Place :=
  if step = Path.here then place
  else if step = Path.up then place.tail
  else step :: place

def walkFrom (fs : FileSystem) (place : Place) : List Text → Except WalkFault Place
  | [] => .ok place
  | step :: steps =>
    match fs.at? place with
    | none => .error .absent
    | some e =>
      if e.isDirectory && Text.utf8Length step ≤ FileName.limit then
        fs.walkFrom (advance place step) steps
      else .error .blocked

/-- The longest path, in bytes. -/
def pathLimit : Nat := 4095

def start (fs : FileSystem) (p : Path) : Place := if p.isAbsolute then [] else fs.current

/-- The place that a path leads to, whether anything is there or not. -/
def walk (fs : FileSystem) (p : Path) : Except WalkFault Place :=
  if p.text.contains (Char.ofNat 0) || pathLimit < Text.utf8Length p.text then .error .blocked
  else if p.text = [] then .error .absent
  else fs.walkFrom (fs.start p) p.steps

theorem eq_foldl_of_walkFrom {fs : FileSystem} {place last : Place} {steps : List Text}
    (h : fs.walkFrom place steps = .ok last) : last = steps.foldl advance place := by
  induction steps generalizing place with
  | nil => simpa [walkFrom] using h.symm
  | cons step steps ih =>
    simp only [walkFrom] at h
    split at h
    · simp at h
    · split at h
      · simpa using ih h
      · simp at h

/-! ## Looking along a path -/

def find? (fs : FileSystem) (p : Path) : Option Entry :=
  match fs.walk p with
  | .ok place => fs.at? place
  | .error _ => none

def isFile (fs : FileSystem) (p : Path) : Bool := (fs.find? p).any Entry.isFile

def isDirectory (fs : FileSystem) (p : Path) : Bool := (fs.find? p).any Entry.isDirectory

def modified? (fs : FileSystem) (p : Path) : Option Int := (fs.find? p).map Entry.modified

inductive ReadFault where
  | absent
  /-- What is there is no file, is no text, or cannot be reached. -/
  | unreadable
deriving DecidableEq, Repr

def readText (fs : FileSystem) (p : Path) : Except ReadFault Text :=
  match fs.walk p with
  | .error .absent => .error .absent
  | .error .blocked => .error .unreadable
  | .ok place =>
    match fs.at? place with
    | none => .error .absent
    | some e =>
      match e.bytes?.bind Text.ofBytes? with
      | some t => .ok t
      | none => .error .unreadable

def canonical? (fs : FileSystem) (p : Path) : Option Path :=
  match fs.walk p with
  | .ok place => (fs.at? place).map fun _ => ⟨ofPlace place⟩
  | .error _ => none
where
  ofPlace (place : Place) : Text := Path.slash :: Text.join [Path.slash] place.reverse

def absolute (fs : FileSystem) (p : Path) : Path :=
  Path.join ⟨canonical?.ofPlace fs.current⟩ p

def children (fs : FileSystem) (place : Place) : List (Text × Entry) :=
  fs.entries.filterMap fun
    | (name :: parent, e) => if parent = place then some (name, e) else none
    | ([], _) => none

def filesBelow (fs : FileSystem) (place : Place) : List (List Text) :=
  fs.entries.filterMap fun (inner, e) =>
    if e.isFile && place.isSuffixOf inner then
      some (inner.take (inner.length - place.length)).reverse
    else none

def weight (fs : FileSystem) : Nat :=
  fs.entries.foldr (fun (_, e) n => 1 + (e.bytes?.map ByteArray.size).getD 0 + n) 0

/-! ## Changing along a path -/

/-- Makes the directories that steps pass, until something is in the way. -/
def makeFrom (fs : FileSystem) (place : Place) : List Text → FileSystem
  | [] => fs
  | step :: steps =>
    let next := advance place step
    let fs :=
      match next with
      | name :: parent =>
        if (fs.at? next).isNone && Text.utf8Length name ≤ FileName.limit then
          fs.put name parent (.directory fs.now)
        else fs
      | [] => fs
    if fs.isDirectoryAt next then fs.makeFrom next steps else fs

/-- The parts of a path that are made if they are missing.  A `.` at its end stays in
a directory, which has to be there. -/
def makeable (p : Path) : List Text :=
  if p.pieces.getLast? = some Path.here then
    (p.pieces.reverse.dropWhile (· = Path.here)).tail.reverse
  else p.pieces

def makeDirectories (fs : FileSystem) (p : Path) : FileSystem :=
  if p.text.contains (Char.ofNat 0) || pathLimit < Text.utf8Length p.text then fs
  else fs.makeFrom (fs.start p) (makeable p)

def write? (fs : FileSystem) (p : Path) (bytes : ByteArray) (modified : Int) :
    Option FileSystem :=
  match fs.walk p with
  | .ok (name :: parent) =>
    if fs.isDirectoryAt parent && !fs.isDirectoryAt (name :: parent) then
      some (fs.put name parent (.file bytes modified))
    else none
  | _ => none

end FileSystem

end Stencil
