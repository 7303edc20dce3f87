import Stencil.Artifact.Execute
import Stencil.Cache.Basic

/-!
# Rendering

A template is rendered by running its artifact on the data.  Whatever it embeds
is rendered in its place, with the data and the loop bindings of that place.  A
template that embeds itself, at whatever distance, has no rendering.
-/

namespace Stencil

open Stencil.Artifact

/-- A render under way: the cache, and the templates that are being rendered, outermost first. -/
structure Rendering where
  cache : Cache
  stack : List Text

namespace Rendering

def enter (r : Rendering) (name : Text) : Except Failure Program × Rendering :=
  match r.cache.get name with
  | (.error e, cache) => (.error e, { r with cache })
  | (.ok artifact, cache) =>
    match Program.parse artifact with
    | .error fault => (.error (.malformed name fault), { r with cache })
    | .ok program => (.ok program, ⟨cache, r.stack ++ [name]⟩)

def leave (r : Rendering) : Rendering := { r with stack := r.stack.dropLast }

/-- Appends the rendering of a template to the output.  It leaves the stack whether its program
ends or fails. -/
def renderInto (now : Moment) :
    (fuel : Nat) → (name : Text) → Context → EStateM Failure (Text × Rendering) Unit
  | 0, name, _ => throw (.unfinished name)
  | fuel + 1, name, data => fun (out, r) =>
    if name ∈ r.stack then .error (.cycle (r.stack ++ [name])) (out, r)
    else
      match r.enter name with
      | (.error e, r) => .error e (out, r)
      | (.ok program, r) =>
        let embedder : Embedder Failure Rendering := fun embedded scope =>
          renderInto now fuel embedded scope.flatten
        match program.run now embedder ⟨Scope.ofData data, out, r⟩ with
        | .ok () run => .ok () (run.out, run.host.leave)
        | .error e run => .error e (run.out, run.host.leave)

end Rendering

namespace Cache

/-- A bound on how deep templates are embedded.  Every one of them is a file. -/
def depth (c : Cache) : Nat := c.files.weight + 1

def render (c : Cache) (now : Moment) (name : Text) (data : Context) :
    Except Failure Text × Cache :=
  match Rendering.renderInto now c.depth name data ([], ⟨c, []⟩) with
  | .ok () (out, r) => (.ok out, r.cache.report (.rendered name (Text.utf8Length out)))
  | .error e (_, r) => (.error e, r.cache)

def renderValue (c : Cache) (now : Moment) (name : Text) (value : Value) :
    Except Failure Text × Cache :=
  match value.context with
  | .error e => (.error e, c)
  | .ok data => c.render now name data

end Cache

/-! ## The installed view -/

inductive Host where
  | bare (files : FileSystem)
  | ready (view : Cache)

namespace Host

def files : Host → FileSystem
  | .bare files => files
  | .ready view => view.files

def withFiles (host : Host) (files : FileSystem) : Host :=
  match host with
  | .bare _ => .bare files
  | .ready view => .ready { view with files }

/-- Installs a view.  This can be done once, and only with a valid configuration. -/
def install (host : Host) (config : Config) : Except Failure Host :=
  match config.validate host.files with
  | .error cause => .error (.badConfig cause)
  | .ok () =>
    match host with
    | .bare files => .ok (.ready (.new config files))
    | .ready _ => .error .alreadyInstalled

def view : Host → Except Failure Cache
  | .bare _ => .error .notInstalled
  | .ready view => .ok view

def render (host : Host) (now : Moment) (name : Text) (data : Context) :
    Except Failure Text × Host :=
  match host with
  | .bare files => (.error .notInstalled, .bare files)
  | .ready view =>
    match view.render now name data with
    | (answer, view) => (answer, .ready view)

end Host

end Stencil
