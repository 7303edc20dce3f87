import Stencil.Proofs.Storage.Target

/-!
# Paths joined

The pieces of a joined path are those of its halves, so it leads where its
second half leads from the end of its first.
-/

namespace Stencil

namespace Text

theorem splitOn_cons_mark (mark : Char) (t : Text) :
    splitOn mark (mark :: t) = [] :: splitOn mark t := by
  simp [splitOn]

theorem splitOn_cons_of_ne {mark c : Char} {t part : Text} {parts : List Text} (hc : c ≠ mark)
    (h : splitOn mark t = part :: parts) : splitOn mark (c :: t) = (c :: part) :: parts := by
  simp [splitOn, hc, h]

theorem splitOn_append {mark : Char} {t u last first : Text} {front rest : List Text}
    (ht : splitOn mark t = front ++ [last]) (hu : splitOn mark u = first :: rest) :
    splitOn mark (t ++ u) = front ++ (last ++ first) :: rest := by
  induction t generalizing front last with
  | nil =>
      have hfront : front = [] ∧ last = [] := by
        cases front with
        | nil => simpa [splitOn, eq_comm] using ht
        | cons part front => simp [splitOn] at ht
      simp [hfront, hu]
  | cons c t ih =>
      by_cases hc : c = mark
      · subst hc
        rw [splitOn_cons_mark] at ht
        cases front with
        | nil => simp [splitOn_ne_nil] at ht
        | cons part front =>
            obtain ⟨hpart, ht⟩ := List.cons.inj ht
            rw [List.cons_append, splitOn_cons_mark, ih ht, hpart]
            rfl
      · obtain ⟨part, parts, hparts⟩ := List.exists_cons_of_ne_nil (splitOn_ne_nil mark t)
        rw [splitOn_cons_of_ne hc hparts] at ht
        cases front with
        | nil =>
            obtain ⟨hlast, hnil⟩ := List.cons.inj ht
            subst hnil hlast
            have hjoined : splitOn mark (t ++ u) = (part ++ first) :: rest :=
              @ih part [] hparts
            exact splitOn_cons_of_ne hc hjoined
        | cons front₀ front =>
            obtain ⟨hfront, htail⟩ := List.cons.inj ht
            have hjoined := @ih last (part :: front) (by rw [hparts, htail]; rfl)
            exact (splitOn_cons_of_ne hc hjoined).trans (by rw [hfront]; rfl)

theorem splitOn_of_notMem {mark : Char} {t : Text} (h : mark ∉ t) : splitOn mark t = [t] := by
  induction t with
  | nil => rfl
  | cons c t ih =>
      simp only [List.mem_cons, not_or] at h
      exact splitOn_cons_of_ne (Ne.symm h.1) (ih h.2)

theorem notMem_of_mem_splitOn {mark : Char} {t part : Text} (h : part ∈ splitOn mark t) :
    mark ∉ part := by
  induction t generalizing part with
  | nil =>
      rw [splitOn, List.mem_singleton] at h
      simp [h]
  | cons c t ih =>
      by_cases hc : c = mark
      · rw [hc, splitOn_cons_mark] at h
        rcases List.mem_cons.1 h with rfl | h
        · exact List.not_mem_nil
        · exact ih h
      · obtain ⟨first, parts, hparts⟩ := List.exists_cons_of_ne_nil (splitOn_ne_nil mark t)
        rw [hparts] at ih
        rw [splitOn_cons_of_ne hc hparts] at h
        rcases List.mem_cons.1 h with rfl | h
        · have hfirst := ih List.mem_cons_self
          rw [List.mem_cons, not_or]
          exact ⟨Ne.symm hc, hfirst⟩
        · exact ih (List.mem_cons_of_mem _ h)

theorem mem_iff_of_splitOn {mark c : Char} {t : Text} (hc : c ≠ mark) :
    c ∈ t ↔ ∃ part ∈ splitOn mark t, c ∈ part := by
  induction t with
  | nil => simp [splitOn]
  | cons d t ih =>
      by_cases hd : d = mark
      · rw [hd, splitOn_cons_mark]
        simp [hc, ih]
      · obtain ⟨first, parts, hparts⟩ := List.exists_cons_of_ne_nil (splitOn_ne_nil mark t)
        rw [splitOn_cons_of_ne hd hparts, List.mem_cons, ih, hparts]
        simp [or_assoc]

theorem exists_splitOn_eq_concat (mark : Char) (t : Text) :
    ∃ front last, splitOn mark t = front ++ [last] :=
  ⟨_, _, (List.dropLast_concat_getLast (splitOn_ne_nil mark t)).symm⟩

theorem splitOn_append_mark (mark : Char) (t u : Text) :
    splitOn mark (t ++ mark :: u) = splitOn mark t ++ splitOn mark u := by
  obtain ⟨front, last, ht⟩ := exists_splitOn_eq_concat mark t
  rw [splitOn_append ht (splitOn_cons_mark mark u), ht]
  simp

theorem join_cons_cons (separator part next : Text) (parts : List Text) :
    join separator (part :: next :: parts) = part ++ separator ++ join separator (next :: parts) :=
  rfl

@[simp] theorem join_splitOn (mark : Char) (t : Text) : join [mark] (splitOn mark t) = t := by
  induction t with
  | nil => rfl
  | cons c t ih =>
      obtain ⟨part, parts, hparts⟩ := List.exists_cons_of_ne_nil (splitOn_ne_nil mark t)
      rw [hparts] at ih
      by_cases hc : c = mark
      · rw [hc, splitOn_cons_mark, hparts, join_cons_cons, ih]
        rfl
      · rw [splitOn_cons_of_ne hc hparts]
        cases parts with
        | nil => simpa [join] using ih
        | cons next parts =>
            rw [join_cons_cons] at ih ⊢
            rw [← ih]
            rfl

theorem splitOn_join {mark : Char} {parts : List Text} (hne : parts ≠ [])
    (h : ∀ part ∈ parts, mark ∉ part) : splitOn mark (join [mark] parts) = parts := by
  induction parts with
  | nil => exact absurd rfl hne
  | cons part parts ih =>
      have hpart := splitOn_of_notMem (h part List.mem_cons_self)
      cases parts with
      | nil => exact hpart
      | cons next parts =>
          have hrest := ih (List.cons_ne_nil _ _) fun other hother =>
            h other (List.mem_cons_of_mem _ hother)
          rw [join_cons_cons, List.append_assoc, List.singleton_append, splitOn_append_mark, hpart,
            hrest]
          rfl

end Text

namespace Path

theorem pieces_append_slash (t u : Text) :
    pieces ⟨t ++ slash :: u⟩ = pieces ⟨t⟩ ++ pieces ⟨u⟩ := by
  simp [pieces, Text.splitOn_append_mark]

theorem pieces_of_endsInSlash {p : Path} (h : p.endsInSlash = true) :
    ∃ t, p.text = t ++ [slash] ∧ p.pieces = pieces ⟨t⟩ := by
  have hlast : p.text.getLast? = some slash := by simpa [endsInSlash] using h
  obtain ⟨t, ht⟩ := List.getLast?_eq_some_iff.1 hlast
  refine ⟨t, ht, ?_⟩
  have hp : p = ⟨t ++ slash :: []⟩ := by rw [← ht]
  rw [hp, pieces_append_slash]
  simp [pieces, Text.splitOn]

theorem pieces_join {p q : Path} (hq : q.isAbsolute = false) :
    (p.join q).pieces = p.pieces ++ q.pieces := by
  unfold join
  by_cases hp : p.text = []
  · have hpieces : p.pieces = [] := by simp [pieces, hp, Text.splitOn]
    simp [hp, hpieces]
  · rw [if_neg (by simp [hq, hp])]
    split
    · next hend =>
      obtain ⟨t, ht, hpieces⟩ := pieces_of_endsInSlash hend
      rw [hpieces, ht, List.append_assoc]
      exact pieces_append_slash t q.text
    · exact pieces_append_slash p.text q.text

theorem isAbsolute_join {p q : Path} (hq : q.isAbsolute = false) :
    (p.join q).isAbsolute = p.isAbsolute := by
  unfold join
  by_cases hp : p.text = []
  · simpa [hp, isAbsolute] using hq
  · obtain ⟨c, t, ht⟩ := List.exists_cons_of_ne_nil hp
    rw [if_neg (by simp [hq, hp])]
    split <;> simp [isAbsolute, ht]

theorem exists_text_join {p q : Path} (hq : q.isAbsolute = false) :
    ∃ gap : Text, (∀ c ∈ gap, c = slash) ∧ (p.join q).text = p.text ++ gap ++ q.text := by
  unfold join
  split
  · next h =>
    rw [hq, Bool.false_or, List.isEmpty_iff] at h
    exact ⟨[], by simp, by simp [h]⟩
  · split
    · exact ⟨[], by simp, by simp⟩
    · exact ⟨[slash], by simp, by simp⟩

theorem parts_join {p q : Path} (hq : q.isAbsolute = false) (hhere : here ∉ q.pieces) :
    (p.join q).parts = p.parts ++ q.pieces := by
  have hall : q.pieces.filter (· ≠ here) = q.pieces := by
    refine List.filter_eq_self.2 fun part hpart => ?_
    simpa using fun heq : part = here => hhere (heq ▸ hpart)
  unfold parts
  rw [pieces_join hq, isAbsolute_join hq]
  cases p.pieces with
  | nil =>
      cases hpieces : q.pieces with
      | nil => rfl
      | cons first rest =>
          rw [hpieces] at hhere hall
          have hfirst : first ≠ here := fun heq => hhere (heq ▸ List.mem_cons_self)
          simpa [hfirst] using hall
  | cons first rest =>
      dsimp only [List.cons_append]
      rw [List.filter_append, hall]
      split <;> rfl

end Path

namespace FileSystem

theorem target_eq_foldl_pieces (fs : FileSystem) (p : Path) :
    fs.target p = p.pieces.foldl advance (fs.start p) := by
  unfold target Path.steps
  split
  · simp [List.foldl_append, advance]
  · rfl

theorem target_join (fs : FileSystem) {p q : Path} (hq : q.isAbsolute = false) :
    fs.target (p.join q) = q.pieces.foldl advance (fs.target p) := by
  have hstart : fs.start (p.join q) = fs.start p := by simp [start, Path.isAbsolute_join hq]
  rw [target_eq_foldl_pieces, target_eq_foldl_pieces, Path.pieces_join hq, List.foldl_append,
    hstart]

theorem advance_of_ne {place : Place} {step : Text} (hhere : step ≠ Path.here)
    (hup : step ≠ Path.up) : advance place step = step :: place := by
  simp [advance, hhere, hup]

theorem foldl_advance {steps : List Text} (h : ∀ step ∈ steps, step ≠ Path.here ∧ step ≠ Path.up)
    (place : Place) : steps.foldl advance place = steps.reverse ++ place := by
  induction steps generalizing place with
  | nil => rfl
  | cons step steps ih =>
      have hstep := h step List.mem_cons_self
      rw [List.foldl_cons, advance_of_ne hstep.1 hstep.2,
        ih fun other ho => h other (List.mem_cons_of_mem _ ho)]
      simp

end FileSystem

end Stencil
