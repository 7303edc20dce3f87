import Stencil.Artifact.Program
import Stencil.Artifact.Scope
import Stencil.Text.Html

/-!
# Execution

A program runs on a scope and appends to an output.  Whoever runs it embeds
other templates for it and keeps a state of its own.  A run that fails keeps
the output up to the failure, and leaves the scope as it found it.
-/

namespace Stencil.Artifact

/-- Where a run stands; `host` is the state of whoever embeds templates. -/
structure Run (σ : Type) where
  scope : Scope
  out : Text
  host : σ

abbrev Action (ε σ : Type) := EStateM ε (Run σ)

/-- Renders the template of a name into the output, with a scope to read from. -/
abbrev Embedder (ε σ : Type) := Text → Scope → EStateM ε (Text × σ) Unit

namespace Action

variable {ε σ : Type}

def write (t : Text) : Action ε σ Unit := fun r => .ok () { r with out := r.out ++ t }

def embed (embedder : Embedder ε σ) (name : Text) : Action ε σ Unit := fun r =>
  match embedder name r.scope (r.out, r.host) with
  | .ok _ (out, host) => .ok () { r with out, host }
  | .error e (out, host) => .error e { r with out, host }

/-- Binds names for one action and takes the bindings back, whether it fails or not. -/
def within (bindings : Bindings Value) (action : Action ε σ Unit) : Action ε σ Unit := fun r =>
  let depth := r.scope.frames.length
  let inner := bindings.foldl (fun scope (name, value) => scope.bind name value) r.scope
  match action { r with scope := inner } with
  | .ok _ r => .ok () { r with scope := r.scope.truncate depth }
  | .error e r => .error e { r with scope := r.scope.truncate depth }

def rounds (action : Action ε σ Unit) : List (Bindings Value) → Action ε σ Unit
  | [] => pure ()
  | bindings :: more => do
    within bindings action
    rounds action more

end Action

/-! ## Loops -/

def entries : Option Value → List (Value × Value)
  | some (.array items) => items.zipIdx.map fun (item, i) => (.ofInt i, item)
  | some (.object fields) => fields.map fun (name, item) => (.string name, item)
  | _ => []

def rounds (head : LoopHead) (lookup : Lookup) : List (Bindings Value) :=
  (entries (head.source.resolve? lookup)).map fun (key, item) =>
    match head.key with
    | some name => [(name, key), (head.item, item)]
    | none => [(head.item, item)]

/-! ## Nodes -/

section

variable {ε σ : Type} (now : Moment) (embedder : Embedder ε σ)

mutual

def Node.run : Node → Action ε σ Unit
  | .text t => .write t
  | .echo interpolation => do
    let value := interpolation.eval now (← get).scope.lookup
    Action.write (Html.escape value.display)
  | .choice condition body rest => do
    if (condition.eval now (← get).scope.lookup).truthy then runAll body else rest.run
  | .loop head body => do
    Action.rounds (runAll body) (rounds head (← get).scope.lookup)
  | .embed name => Action.embed embedder name

def Branches.run : Branches → Action ε σ Unit
  | .done => pure ()
  | .otherwise body => runAll body
  | .elseIf condition body rest => do
    if (condition.eval now (← get).scope.lookup).truthy then runAll body else rest.run

def runAll : List Node → Action ε σ Unit
  | [] => pure ()
  | node :: nodes => do
    node.run
    runAll nodes

end

def Program.run (p : Program) : Action ε σ Unit := runAll now embedder p.nodes

end

end Stencil.Artifact
