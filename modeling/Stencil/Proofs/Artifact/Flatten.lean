import Stencil.Proofs.Artifact.Agreement
import Stencil.Proofs.Expr.Timeless

/-!
# Scopes and what they are flattened to

An embedded template receives its scope as one object.  The object shows the
same as the scope, and it goes on to do so in loops: bindings that are added to
either are flattened to the same object again, names in the same order.
-/

namespace Stencil.Artifact

variable {ε σ : Type}

namespace Scope

def alignment (ε σ : Type) : Alignment ε σ σ where
  scopes s s' := s.flatten = s'.flatten
  effects x y := x = y
  failures _ x y := x = y

theorem lookup_eq_of_flatten_eq {s s' : Scope} (h : s.flatten = s'.flatten) :
    s.lookup = s'.lookup := by
  funext name
  rw [← get?_flatten, ← get?_flatten, h]

theorem flatten_bind (s : Scope) (name : Text) (value : Value) :
    (s.bind name value).flatten = s.flatten.set name value := rfl

theorem isKept_alignment : (alignment ε σ).IsKept where
  lookup _ _ h := lookup_eq_of_flatten_eq h
  bind s s' name value h := by
    change s.flatten = s'.flatten at h
    change (s.bind name value).flatten = (s'.bind name value).flatten
    rw [flatten_bind, flatten_bind, h]
  write x y t h := by
    cases h
    rfl

theorem effects_eq_of_endAlike {a b : EStateM.Result ε (Run σ) Unit} {s s' : Scope}
    (h : EndAlike (fun x y => x.scope = s ∧ y.scope = s' ∧ x.effect = y.effect)
      (fun _ x y => x.scope = s ∧ y.scope = s' ∧ x.effect = y.effect) a b) :
    effects a = effects b := by
  cases h with
  | ok h => exact congrArg (EStateM.Result.ok ()) h.2.2
  | @error e _ _ h => exact congrArg (EStateM.Result.error e) h.2.2

def embedFlat (embed : Text → Context → EStateM ε (Text × σ) Unit) : Embedder ε σ :=
  fun name scope => embed name scope.flatten

theorem run_eq_of_flatten_eq (now : Moment) (program : Program)
    (embed : Text → Context → EStateM ε (Text × σ) Unit) {s s' : Scope}
    (h : s.flatten = s'.flatten) (out : Text) (host : σ) :
    effects (program.run now (embedFlat embed) ⟨s, out, host⟩) =
      effects (program.run now (embedFlat embed) ⟨s', out, host⟩) := by
  have hembed : ∀ name, (alignment ε σ).Embeds (embedFlat embed) (embedFlat embed) name := by
    intro name t t' x y hscopes heffects
    change t.flatten = t'.flatten at hscopes
    change x = y at heffects
    subst heffects
    unfold embedFlat
    rw [hscopes]
    cases embed name t'.flatten x with
    | ok u x => exact .ok rfl
    | error e x => exact .error rfl
  exact effects_eq_of_endAlike
    (Alignment.acts_program isKept_alignment now program (fun name _ => hembed name)
      ⟨s, out, host⟩ ⟨s', out, host⟩ h rfl)

/-- A scope and the object that it is flattened to cannot be told apart: not by a name, a
variable or an expression, and not by a program whose embedded templates see that object. -/
structure IsMirrored (s : Scope) : Prop where
  names : ∀ name, s.flatten.get? name = s.lookup name
  resolves : ∀ v : Variable, v.resolve? s.flatten.get? = v.resolve? s.lookup
  expressions : ∀ e : Expr, e.isTimeless = true → ∀ now later,
    e.eval later s.flatten.get? = e.eval now s.lookup
  programs : ∀ (ε σ : Type) (now : Moment) (program : Program)
    (embed : Text → Context → EStateM ε (Text × σ) Unit) (out : Text) (host : σ),
    effects (program.run now (embedFlat embed) ⟨.ofData s.flatten, out, host⟩) =
      effects (program.run now (embedFlat embed) ⟨s, out, host⟩)

theorem isMirrored (s : Scope) : s.IsMirrored := by
  have hlookup : s.flatten.get? = s.lookup := funext (get?_flatten s)
  constructor
  · exact get?_flatten s
  · intro v
    rw [hlookup]
  · intro e he now later
    rw [hlookup, Expr.eval_of_isTimeless he]
  · intro ε σ now program embed out host
    have hflat : (ofData s.flatten).flatten = s.flatten := rfl
    exact run_eq_of_flatten_eq now program embed hflat out host

def shadowed : Scope :=
  (((ofData [(['a'], .null), (['b'], .bool true)]).bind ['b'] (.ofInt 1)).bind ['c']
    (.ofInt 2)).bind ['c'] (.ofInt 3)

theorem isMirrored_shadowed :
    shadowed.flatten = [(['a'], .null), (['b'], .ofInt 1), (['c'], .ofInt 3)] ∧
      shadowed.IsMirrored :=
  ⟨rfl, isMirrored shadowed⟩

end Scope

end Stencil.Artifact
