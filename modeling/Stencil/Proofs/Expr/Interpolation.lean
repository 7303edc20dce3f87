import Stencil.Expr.Interpolation
import Stencil.Proofs.Text.Trim

/-!
# Interpolations and loop heads taken apart

What the parsers of both argument forms found, scan by scan, if they succeeded.
-/

namespace Stencil

theorem Interpolation.parse_eq_ok_iff {src : Text} {i : Interpolation} :
    parse src = .ok i ↔ ∃ var rest, Variable.scan? (Text.trim src) = some (var, rest) ∧
      (Text.trimStart rest = [] ∧ i = ⟨var, none⟩ ∨
        ∃ fallback e, Text.after? ['?', '?'] (Text.trimStart rest) = some fallback ∧
          Expr.parse fallback = .ok e ∧ i = ⟨var, some e⟩) := by
  unfold parse
  constructor
  · intro h
    split at h
    · cases h
    · next var rest hv =>
      refine ⟨var, rest, hv, ?_⟩
      dsimp only at h
      split at h
      · next hrest =>
        cases h
        exact Or.inl ⟨hrest, rfl⟩
      · split at h
        · cases h
        · next fallback hf =>
          cases he : Expr.parse fallback with
          | error cause =>
              rw [he] at h
              cases h
          | ok e =>
              rw [he] at h
              cases h
              exact Or.inr ⟨fallback, e, hf, he, rfl⟩
  · rintro ⟨var, rest, hv, ⟨hrest, rfl⟩ | ⟨fallback, e, hf, he, rfl⟩⟩
    · rw [hv]
      simp [hrest]
    · have hrest : Text.trimStart rest ≠ [] := by
        intro hnil
        rw [hnil] at hf
        cases hf
      rw [hv]
      simp [hrest, hf, he, Except.map]

namespace LoopHead

theorem binding_eq_ok_iff {t name rest : Text} :
    binding t = .ok (name, rest) ↔
      ∃ var, Variable.scan? t = some (var, rest) ∧ var.isPlain = true ∧ var.root = name := by
  unfold binding
  constructor
  · intro h
    split at h
    · next var r hv =>
      split at h
      · next hp =>
        cases h
        exact ⟨var, hv, hp, rfl⟩
      · cases h
    · cases h
  · rintro ⟨var, hv, hp, rfl⟩
    rw [hv]
    simp [hp]

theorem afterAs?_eq_some_iff {t rest : Text} :
    afterAs? t = some rest ↔ ∃ c more, Text.after? ['a', 's'] t = some (c :: more) ∧
      Text.isWhite c = true ∧ Text.trimStart more = rest := by
  unfold afterAs?
  constructor
  · intro h
    split at h
    · next c more ha =>
      split at h
      · next hc =>
        cases h
        exact ⟨c, more, ha, hc, rfl⟩
      · cases h
    · cases h
  · rintro ⟨c, more, ha, hc, rfl⟩
    rw [ha]
    simp [hc]

def Binds (source : Variable) (t : Text) (head : LoopHead) : Prop :=
  ∃ first rest, binding t = .ok (first, rest) ∧
    (Text.trimStart rest = [] ∧ head = ⟨source, none, first⟩ ∨
      ∃ after second last, Text.after? ['=', '>'] (Text.trimStart rest) = some after ∧
        binding (Text.trimStart after) = .ok (second, last) ∧ Text.trim last = [] ∧
        head = ⟨source, some first, second⟩)

theorem parse_eq_ok_iff {src : Text} {head : LoopHead} :
    parse src = .ok head ↔ ∃ source rest t, Variable.scan? (Text.trim src) = some (source, rest) ∧
      afterAs? (Text.trimStart rest) = some t ∧ Binds source t head := by
  constructor
  · intro h
    unfold parse at h
    split at h
    · next source rest hs =>
      split at h
      · next t ha =>
        refine ⟨source, rest, t, hs, ha, ?_⟩
        cases hb : binding t with
        | error cause =>
            rw [hb] at h
            cases h
        | ok pair =>
            obtain ⟨first, mid⟩ := pair
            refine ⟨first, mid, hb, ?_⟩
            simp only [hb, bind, Except.bind] at h
            split at h
            · next hmid =>
              cases h
              exact Or.inl ⟨hmid, rfl⟩
            · split at h
              · next after hf =>
                cases hb' : binding (Text.trimStart after) with
                | error cause =>
                    rw [hb'] at h
                    cases h
                | ok pair =>
                    obtain ⟨second, last⟩ := pair
                    simp only [hb'] at h
                    split at h
                    · next hl =>
                      cases h
                      exact Or.inr ⟨after, second, last, hf, hb', hl, rfl⟩
                    · cases h
              · cases h
      · cases h
    · cases h
  · rintro ⟨source, rest, t, hs, ha, first, mid, hb, hmid⟩
    unfold parse
    rw [hs]
    simp only [ha, hb, bind, Except.bind]
    rcases hmid with ⟨hmid, rfl⟩ | ⟨after, second, last, hf, hb', hl, rfl⟩
    · rw [if_pos hmid]
      rfl
    · have hne : Text.trimStart mid ≠ [] := by
        intro hnil
        rw [hnil] at hf
        cases hf
      rw [if_neg hne]
      simp only [hf, hb', hl, if_true]
      rfl

end LoopHead

end Stencil
