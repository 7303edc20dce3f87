import Stencil.Text.Basic

/-!
# Scanned lengths

A scan finds something at the start of a text and hands back what comes next.
What it took is as long as the text is longer than that, and as many bytes of
the text, by themselves, are what it took.
-/

namespace Stencil.Text

@[simp] theorem bytes_nil : bytes [] = [] := rfl

@[simp] theorem bytes_cons (c : Char) (t : Text) :
    bytes (c :: t) = String.utf8EncodeChar c ++ bytes t :=
  List.flatMap_cons

theorem takeBytes_zero (t : Text) : takeBytes 0 t = [] := by
  cases t with
  | nil => rfl
  | cons c t =>
      have hc := c.utf8Size_pos
      rw [takeBytes, if_neg (by omega)]

theorem takeBytes_append (lead rest : Text) :
    takeBytes (utf8Length lead) (lead ++ rest) = lead := by
  induction lead with
  | nil => exact takeBytes_zero rest
  | cons c lead ih =>
      rw [utf8Length_cons, List.cons_append, takeBytes, if_pos (Nat.le_add_right _ _),
        Nat.add_sub_cancel_left, ih]

variable {α : Type} {scan : Text → Option (α × Text)} {lead rest t : Text} {a : α} {n : Nat}

/-- What a scan finds, and the number of bytes that it takes for that. -/
def measure? (scan : Text → Option (α × Text)) (t : Text) : Option (α × Nat) :=
  (scan t).map fun (a, rest) => (a, utf8Length t - utf8Length rest)

theorem measure?_append (h : scan (lead ++ rest) = some (a, rest)) :
    measure? scan (lead ++ rest) = some (a, utf8Length lead) := by
  rw [measure?, h, Option.map_some, utf8Length_append]
  dsimp only
  rw [Nat.add_sub_cancel]

theorem measure?_eq_none_iff : measure? scan t = none ↔ scan t = none := Option.map_eq_none_iff

theorem exists_of_measure? (hscan : ∀ a rest, scan t = some (a, rest) → rest <:+ t)
    (h : measure? scan t = some (a, n)) :
    ∃ lead rest, t = lead ++ rest ∧ n = utf8Length lead ∧ scan t = some (a, rest) := by
  obtain ⟨⟨b, rest⟩, hfound, he⟩ := Option.map_eq_some_iff.1 h
  obtain ⟨lead, rfl⟩ := hscan b rest hfound
  obtain ⟨rfl, rfl⟩ := Prod.mk.inj he
  refine ⟨lead, rest, rfl, ?_, hfound⟩
  rw [utf8Length_append, Nat.add_sub_cancel]

end Stencil.Text
