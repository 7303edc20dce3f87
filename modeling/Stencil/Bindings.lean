import Stencil.Text.Basic

/-!
# Bindings

Names bound to values, in the order in which the names were first bound.  The
first pair of a name is the one that counts.
-/

namespace Stencil

abbrev Bindings (α : Type) := List (Text × α)

namespace Bindings

variable {α : Type}

def get? (b : Bindings α) (name : Text) : Option α := List.lookup name b

def names (b : Bindings α) : List Text := b.map Prod.fst

/-- Binds a name anew: a bound name keeps its place, a new one comes last. -/
def set : Bindings α → Text → α → Bindings α
  | [], name, value => [(name, value)]
  | (bound, old) :: rest, name, value =>
    if bound = name then (name, value) :: rest else (bound, old) :: set rest name value

/-- Puts a binding before all others and in the place of any other of its name. -/
def define (b : Bindings α) (name : Text) (value : α) : Bindings α :=
  (name, value) :: b.filter fun pair => pair.1 != name

/-- The bindings of `a`, and those of `b` for names that `a` does not bind. -/
def orElse (a b : Bindings α) : Bindings α :=
  a ++ b.filter fun pair => (a.get? pair.1).isNone

def mapValues {β : Type} (f : α → β) (b : Bindings α) : Bindings β :=
  b.map fun (name, value) => (name, f value)

@[simp] theorem get?_nil (name : Text) : get? ([] : Bindings α) name = none := rfl

theorem get?_cons (bound : Text) (value : α) (b : Bindings α) (name : Text) :
    get? ((bound, value) :: b) name = if name = bound then some value else get? b name := by
  by_cases h : name = bound
  · simp [get?, h]
  · simp [get?, List.lookup_cons, h, beq_eq_false_iff_ne.2 h]

theorem get?_append (a b : Bindings α) (name : Text) :
    get? (a ++ b) name = (get? a name).or (get? b name) := by
  induction a with
  | nil => simp
  | cons pair a ih =>
    obtain ⟨bound, value⟩ := pair
    by_cases h : name = bound <;> simp [get?_cons, h, ih]

theorem get?_set (b : Bindings α) (bound name : Text) (value : α) :
    get? (set b bound value) name = if name = bound then some value else get? b name := by
  induction b with
  | nil => simp [set, get?_cons]
  | cons pair b ih =>
    obtain ⟨first, old⟩ := pair
    by_cases h : first = bound
    · by_cases hn : name = bound <;> simp [set, get?_cons, h, hn]
    · by_cases hn : name = first
      · simp [set, get?_cons, h, hn]
      · simp [set, get?_cons, h, hn, ih]

theorem get?_filter (b : Bindings α) (keep : Text → Bool) (name : Text) :
    get? (b.filter fun pair => keep pair.1) name = if keep name then get? b name else none := by
  induction b with
  | nil => simp
  | cons pair b ih =>
    obtain ⟨bound, value⟩ := pair
    by_cases hk : keep bound <;> by_cases hn : name = bound
    · subst hn; simp [hk, get?_cons]
    · simp [hk, get?_cons, hn, ih]
    · subst hn; simp [hk, ih]
    · simp [hk, get?_cons, hn, ih]

theorem get?_define (b : Bindings α) (bound name : Text) (value : α) :
    get? (define b bound value) name = if name = bound then some value else get? b name := by
  have h := get?_filter b (fun other => other != bound) name
  by_cases hn : name = bound
  · simp [define, get?_cons, hn]
  · simp_all [define, get?_cons]

theorem get?_orElse (a b : Bindings α) (name : Text) :
    get? (orElse a b) name = (get? a name).or (get? b name) := by
  rw [orElse, get?_append, get?_filter b (fun other => (get? a other).isNone)]
  cases h : get? a name <;> simp

theorem get?_mapValues {β : Type} (f : α → β) (b : Bindings α) (name : Text) :
    get? (mapValues f b) name = (get? b name).map f := by
  induction b with
  | nil => rfl
  | cons pair b ih =>
    obtain ⟨bound, value⟩ := pair
    simp only [mapValues, List.map_cons] at ih ⊢
    by_cases h : name = bound <;> simp [get?_cons, h, ih]

end Bindings

end Stencil
