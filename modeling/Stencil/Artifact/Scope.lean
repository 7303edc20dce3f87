import Stencil.Bindings
import Stencil.Expr.Variable

/-!
# Scopes

The names that a running template sees: the bindings of the loops around it,
innermost first, and then the data of the render.
-/

namespace Stencil.Artifact

structure Scope where
  data : Context
  frames : Bindings Value

namespace Scope

def ofData (data : Context) : Scope := ⟨data, []⟩

def lookup (s : Scope) : Lookup := fun name =>
  (Bindings.get? s.frames name).or (Bindings.get? s.data name)

def bind (s : Scope) (name : Text) (value : Value) : Scope :=
  { s with frames := (name, value) :: s.frames }

/-- Keeps the `depth` outermost bindings of loops. -/
def truncate (s : Scope) (depth : Nat) : Scope :=
  { s with frames := s.frames.drop (s.frames.length - depth) }

/-- One object with what is seen, as an embedded template receives it. -/
def flatten (s : Scope) : Context :=
  s.frames.foldr (fun (name, value) data => data.set name value) s.data

theorem lookup_bind (s : Scope) (bound name : Text) (value : Value) :
    (s.bind bound value).lookup name = if name = bound then some value else s.lookup name := by
  by_cases h : name = bound <;> simp [bind, lookup, Bindings.get?_cons, h]

theorem get?_flatten (s : Scope) (name : Text) : s.flatten.get? name = s.lookup name := by
  obtain ⟨data, frames⟩ := s
  induction frames with
  | nil => simp [flatten, lookup]
  | cons pair frames ih =>
    obtain ⟨bound, value⟩ := pair
    have step : (⟨data, (bound, value) :: frames⟩ : Scope).flatten =
        (⟨data, frames⟩ : Scope).flatten.set bound value := rfl
    rw [step, Bindings.get?_set, ih]
    exact (lookup_bind ⟨data, frames⟩ bound name value).symm

end Scope

end Stencil.Artifact
