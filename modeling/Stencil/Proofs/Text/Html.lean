import Mathlib.Data.List.Infix
import Stencil.Text.Html

/-!
# Escaped text

In an escaped text no character has a meaning in markup but the ampersands, and
each of these starts an entity.  So what is escaped stays text wherever text may
stand in markup.  Reading the entities back gives the text that was escaped, so
nothing is lost, and a text that is left as it is has nothing to escape.
-/

namespace Stencil.Html

def entities : List Text := ['&', '<', '>', '"', '\''].filterMap entity?

/-- Free of characters that have a meaning in markup, but for entities. -/
structure IsEscaped (t : Text) : Prop where
  free : ∀ c ∈ t, c ≠ '<' ∧ c ≠ '>' ∧ c ≠ '"' ∧ c ≠ '\''
  starts : ∀ rest, '&' :: rest <:+ t → ∃ entity ∈ entities, entity <+: '&' :: rest

theorem isEscaped_nil : IsEscaped [] where
  free _ hc := by cases hc
  starts rest h := by cases List.suffix_nil.1 h

theorem IsEscaped.append {s t : Text} (hs : IsEscaped s) (ht : IsEscaped t) :
    IsEscaped (s ++ t) where
  free c hc := (List.mem_append.1 hc).elim (hs.free c) (ht.free c)
  starts rest h := by
    rcases List.suffix_or_suffix_of_suffix h (List.suffix_append s t) with h' | ⟨within, hwithin⟩
    · exact ht.starts rest h'
    · rw [← hwithin] at h
      cases within with
      | nil => exact ht.starts rest (hwithin ▸ List.suffix_refl t)
      | cons c within =>
          -- the ampersand is in the first text, and so is its entity
          obtain ⟨rfl, rfl⟩ := List.cons.inj hwithin
          obtain ⟨entity, hentity, hprefix⟩ := hs.starts within (List.suffix_append_self_iff.1 h)
          exact ⟨entity, hentity, hprefix.trans (List.prefix_append _ t)⟩

theorem isEscaped_entity {t : Text} (h : '&' :: t ∈ entities)
    (hfree : ∀ c ∈ t, c ≠ '&' ∧ c ≠ '<' ∧ c ≠ '>' ∧ c ≠ '"' ∧ c ≠ '\'') : IsEscaped ('&' :: t) where
  free := List.forall_mem_cons.2 ⟨by decide, fun c hc => (hfree c hc).2⟩
  starts rest hrest := by
    rcases List.suffix_cons_iff.1 hrest with hall | hinner
    · exact ⟨'&' :: t, h, hall ▸ List.prefix_refl _⟩
    · exact absurd rfl (hfree '&' (hinner.subset List.mem_cons_self)).1

theorem isEscaped_escapeChar (c : Char) : IsEscaped (escapeChar c) := by
  unfold escapeChar entity?
  split
  iterate 5 exact isEscaped_entity (by decide) (by simp)
  · next hamp hless hgreater hdouble hsingle =>
    constructor
    · intro other hother
      cases List.mem_singleton.1 hother
      exact ⟨hless, hgreater, hdouble, hsingle⟩
    · intro rest hrest
      have hmem := hrest.subset List.mem_cons_self
      cases List.mem_singleton.1 hmem
      exact absurd rfl hamp

theorem isEscaped_escape (t : Text) : IsEscaped (escape t) := by
  induction t with
  | nil => exact isEscaped_nil
  | cons c t ih =>
      rw [escape_cons]
      exact (isEscaped_escapeChar c).append ih

/-! ## Reading back -/

theorem unescape_cons_of_ne {c : Char} (h : c ≠ '&') (t : Text) :
    unescape (c :: t) = c :: unescape t := by
  simp [unescape, h]

theorem unescape_escapeChar_append (c : Char) (rest : Text) :
    unescape (escapeChar c ++ rest) = c :: unescape rest := by
  unfold escapeChar entity?
  split
  iterate 5 rfl
  · next hamp _ _ _ _ => exact unescape_cons_of_ne hamp rest

theorem unescape_escape_append (t rest : Text) :
    unescape (escape t ++ rest) = t ++ unescape rest := by
  induction t with
  | nil => rfl
  | cons c t ih =>
      rw [escape_cons, List.append_assoc, unescape_escapeChar_append, ih, List.cons_append]

theorem unescape_escape (t : Text) : unescape (escape t) = t := by
  simpa [unescape] using unescape_escape_append t []

/-! ## Texts that are left as they are -/

theorem length_escapeChar_pos (c : Char) : 0 < (escapeChar c).length := by
  unfold escapeChar entity?
  split <;> simp

theorem length_escapeChar_of_mem {c : Char} (h : c ∈ special) : 1 < (escapeChar c).length := by
  simp only [special, List.mem_cons, List.not_mem_nil, or_false] at h
  rcases h with rfl | rfl | rfl | rfl | rfl <;> decide

theorem length_le_length_escape (t : Text) : t.length ≤ (escape t).length := by
  induction t with
  | nil => exact Nat.le_refl 0
  | cons c t ih =>
      have hc := length_escapeChar_pos c
      rw [escape_cons, List.length_append, List.length_cons]
      omega

theorem escape_eq_self_iff {t : Text} : escape t = t ↔ ∀ c ∈ t, c ∉ special := by
  constructor
  · intro h
    induction t with
    | nil => simp
    | cons c t ih =>
        rw [escape_cons] at h
        have hfirst : c ∉ special := by
          intro hc
          have hlength := congrArg List.length h
          have hlong := length_escapeChar_of_mem hc
          have hmore := length_le_length_escape t
          rw [List.length_append, List.length_cons] at hlength
          omega
        rw [escapeChar_of_notMem hfirst] at h
        exact List.forall_mem_cons.2 ⟨hfirst, ih (List.cons.inj h).2⟩
  · intro h
    rw [escape_eq_flatMap, flatMap_escapeChar_of_notMem h]

/-! ## Escaping loses nothing -/

/-- What holds of the escaped form of a text: it is read back in one pass, it has no meaning in
markup, it is that of the parts of the text, and it is the text itself just if the text has
nothing to escape. -/
structure IsReversible (t : Text) : Prop where
  reads_back : unescape (escape t) = t
  injective : ∀ u, escape u = escape t → u = t
  isEscaped : IsEscaped (escape t)
  append : ∀ u, escape (t ++ u) = escape t ++ escape u
  written : escape t = t.flatMap escapeChar
  unchanged : escape t = t ↔ ∀ c ∈ t, c ∉ special

theorem isReversible (t : Text) : IsReversible t where
  reads_back := unescape_escape t
  injective u h := by rw [← unescape_escape u, h, unescape_escape]
  isEscaped := isEscaped_escape t
  append := escape_append t
  written := escape_eq_flatMap t
  unchanged := escape_eq_self_iff

example : unescape (escape "&amp;lt; & &#03 <b>".toList) = "&amp;lt; & &#03 <b>".toList := by
  decide

end Stencil.Html
