import Stencil.Artifact.Execute

/-!
# Runs side by side

A run reads of its scope what it looks up, adds to its output, and leaves the
state of its host to the embedder.  So two runs stay in step if they start from
scopes with the same look-ups and their embedders stay in step.  Both leave
their scopes as they found them, whether they end or fail.
-/

namespace Stencil.Artifact

variable {ε σ τ : Type}

def Run.effect (r : Run σ) : Text × σ := (r.out, r.host)

def effects : EStateM.Result ε (Run σ) Unit → EStateM.Result ε (Text × σ) Unit
  | .ok () r => .ok () r.effect
  | .error e r => .error e r.effect

/-- Two results end alike: both well with `Ends`, or both with one error and `Fails`. -/
inductive EndAlike {α β : Type} (Ends : α → β → Prop) (Fails : ε → α → β → Prop) :
    EStateM.Result ε α Unit → EStateM.Result ε β Unit → Prop
  | ok {a : α} {b : β} (h : Ends a b) : EndAlike Ends Fails (.ok () a) (.ok () b)
  | error {e : ε} {a : α} {b : β} (h : Fails e a b) :
      EndAlike Ends Fails (.error e a) (.error e b)

/-- What relates two runs: their scopes, their effects on the way, and these at a failure. -/
structure Alignment (ε σ τ : Type) where
  scopes : Scope → Scope → Prop
  effects : Text × σ → Text × τ → Prop
  failures : ε → Text × σ → Text × τ → Prop

/-- Related scopes look the same, and nothing that a run does on its own parts two runs. -/
structure Alignment.IsKept (a : Alignment ε σ τ) : Prop where
  lookup : ∀ s s', a.scopes s s' → s.lookup = s'.lookup
  bind : ∀ s s' name value, a.scopes s s' → a.scopes (s.bind name value) (s'.bind name value)
  write : ∀ x y t, a.effects x y → a.effects (x.1 ++ t, x.2) (y.1 ++ t, y.2)

def Alignment.Embeds (a : Alignment ε σ τ) (embedder : Embedder ε σ) (embedder' : Embedder ε τ)
    (name : Text) : Prop :=
  ∀ s s' x y, a.scopes s s' → a.effects x y →
    EndAlike a.effects a.failures (embedder name s x) (embedder' name s' y)

def Alignment.Acts (a : Alignment ε σ τ) (action : Action ε σ Unit) (action' : Action ε τ Unit) :
    Prop :=
  ∀ r r', a.scopes r.scope r'.scope → a.effects r.effect r'.effect →
    EndAlike (fun x y => x.scope = r.scope ∧ y.scope = r'.scope ∧ a.effects x.effect y.effect)
      (fun e x y => x.scope = r.scope ∧ y.scope = r'.scope ∧ a.failures e x.effect y.effect)
      (action r) (action' r')

namespace Alignment

variable {a : Alignment ε σ τ}

/-! ## Actions -/

theorem acts_pure : a.Acts (pure ()) (pure ()) :=
  fun _ _ _ heffects => .ok ⟨rfl, rfl, heffects⟩

theorem Acts.then {action next : Action ε σ Unit} {action' next' : Action ε τ Unit}
    (h : a.Acts action action') (hnext : a.Acts next next') :
    a.Acts (do action; next) (do action'; next') := by
  intro r r' hscopes heffects
  have hfirst := h r r' hscopes heffects
  change EndAlike _ _ (EStateM.bind action (fun _ => next) r)
    (EStateM.bind action' (fun _ => next') r')
  unfold EStateM.bind
  generalize action r = x at hfirst ⊢
  generalize action' r' = y at hfirst ⊢
  cases hfirst with
  | error hfailed => exact .error hfailed
  | @ok x y hended =>
      obtain ⟨hx, hy, hbetween⟩ := hended
      have hsecond := hnext x y (by rw [hx, hy]; exact hscopes) hbetween
      rw [hx, hy] at hsecond
      exact hsecond

theorem acts_get {choose : Run σ → Action ε σ Unit} {choose' : Run τ → Action ε τ Unit}
    (h : ∀ r r', a.scopes r.scope r'.scope → a.Acts (choose r) (choose' r')) :
    a.Acts (get >>= choose) (get >>= choose') :=
  fun r r' hscopes heffects => h r r' hscopes r r' hscopes heffects

theorem acts_write (hkept : a.IsKept) (t : Text) : a.Acts (Action.write t) (Action.write t) :=
  fun _ _ _ heffects => .ok ⟨rfl, rfl, hkept.write _ _ t heffects⟩

theorem acts_embed {embedder : Embedder ε σ} {embedder' : Embedder ε τ} {name : Text}
    (h : a.Embeds embedder embedder' name) :
    a.Acts (Action.embed embedder name) (Action.embed embedder' name) := by
  intro r r' hscopes heffects
  have hembed := h r.scope r'.scope (r.out, r.host) (r'.out, r'.host) hscopes heffects
  unfold Action.embed
  generalize embedder name r.scope (r.out, r.host) = x at hembed ⊢
  generalize embedder' name r'.scope (r'.out, r'.host) = y at hembed ⊢
  cases hembed with
  | ok hended => exact .ok ⟨rfl, rfl, hended⟩
  | error hfailed => exact .error ⟨rfl, rfl, hfailed⟩

/-! ## Loops -/

theorem scopes_foldl_bind (hkept : a.IsKept) (bindings : Bindings Value) {s s' : Scope}
    (h : a.scopes s s') :
    a.scopes (bindings.foldl (fun scope (name, value) => scope.bind name value) s)
      (bindings.foldl (fun scope (name, value) => scope.bind name value) s') := by
  induction bindings generalizing s s' with
  | nil => exact h
  | cons binding bindings ih => exact ih (hkept.bind _ _ _ _ h)

theorem foldl_bind (bindings : Bindings Value) (s : Scope) :
    bindings.foldl (fun scope (name, value) => scope.bind name value) s =
      ⟨s.data, bindings.reverse ++ s.frames⟩ := by
  induction bindings generalizing s with
  | nil => rfl
  | cons binding bindings ih =>
      rw [List.foldl_cons, ih]
      simp [Scope.bind]

theorem truncate_foldl_bind (bindings : Bindings Value) (s : Scope) :
    (bindings.foldl (fun scope (name, value) => scope.bind name value) s).truncate
      s.frames.length = s := by
  simp [foldl_bind, Scope.truncate]

theorem Acts.within (hkept : a.IsKept) {action : Action ε σ Unit} {action' : Action ε τ Unit}
    (h : a.Acts action action') (bindings : Bindings Value) :
    a.Acts (Action.within bindings action) (Action.within bindings action') := by
  intro r r' hscopes heffects
  have hinner := h
    { r with scope := bindings.foldl (fun scope (name, value) => scope.bind name value) r.scope }
    { r' with scope := bindings.foldl (fun scope (name, value) => scope.bind name value) r'.scope }
    (scopes_foldl_bind hkept bindings hscopes) heffects
  have hback := truncate_foldl_bind bindings
  unfold Action.within
  dsimp only at hinner ⊢
  generalize hx : action _ = x at hinner ⊢
  generalize hy : action' _ = y at hinner ⊢
  cases hinner with
  | ok hended =>
      obtain ⟨hx', hy', hafter⟩ := hended
      exact .ok ⟨by dsimp only; rw [hx', hback], by dsimp only; rw [hy', hback], hafter⟩
  | error hfailed =>
      obtain ⟨hx', hy', hafter⟩ := hfailed
      exact .error ⟨by dsimp only; rw [hx', hback], by dsimp only; rw [hy', hback], hafter⟩

theorem Acts.rounds (hkept : a.IsKept) {action : Action ε σ Unit} {action' : Action ε τ Unit}
    (h : a.Acts action action') (rounds : List (Bindings Value)) :
    a.Acts (Action.rounds action rounds) (Action.rounds action' rounds) := by
  induction rounds with
  | nil => exact acts_pure
  | cons bindings more ih => exact (h.within hkept bindings).then ih

/-! ## Programs -/

variable {embedder : Embedder ε σ} {embedder' : Embedder ε τ}

mutual

theorem acts_node (hkept : a.IsKept) (now : Moment) (node : Node)
    (hembed : ∀ name, .embed name ∈ node.items → a.Embeds embedder embedder' name) :
    a.Acts (node.run now embedder) (node.run now embedder') := by
  cases node with
  | text t => exact acts_write hkept t
  | echo interpolation =>
      refine acts_get fun r r' hscopes => ?_
      rw [hkept.lookup _ _ hscopes]
      exact acts_write hkept _
  | choice condition body rest =>
      have hbody := acts_nodes hkept now body fun name hname =>
        hembed name (by simp [Node.items, hname])
      have hrest := acts_branches hkept now rest fun name hname =>
        hembed name (by simp [Node.items, hname])
      refine acts_get fun r r' hscopes => ?_
      rw [hkept.lookup _ _ hscopes]
      split
      · exact hbody
      · exact hrest
  | loop head body =>
      have hbody := acts_nodes hkept now body fun name hname =>
        hembed name (by simp [Node.items, hname])
      refine acts_get fun r r' hscopes => ?_
      rw [hkept.lookup _ _ hscopes]
      exact hbody.rounds hkept _
  | embed name => exact acts_embed (hembed name (by simp [Node.items]))

theorem acts_branches (hkept : a.IsKept) (now : Moment) (branches : Branches)
    (hembed : ∀ name, .embed name ∈ branches.items → a.Embeds embedder embedder' name) :
    a.Acts (branches.run now embedder) (branches.run now embedder') := by
  cases branches with
  | done => exact acts_pure
  | otherwise body =>
      exact acts_nodes hkept now body fun name hname =>
        hembed name (by simp [Branches.items, hname])
  | elseIf condition body rest =>
      have hbody := acts_nodes hkept now body fun name hname =>
        hembed name (by simp [Branches.items, hname])
      have hrest := acts_branches hkept now rest fun name hname =>
        hembed name (by simp [Branches.items, hname])
      refine acts_get fun r r' hscopes => ?_
      rw [hkept.lookup _ _ hscopes]
      split
      · exact hbody
      · exact hrest

theorem acts_nodes (hkept : a.IsKept) (now : Moment) (nodes : List Node)
    (hembed : ∀ name, .embed name ∈ itemsOf nodes → a.Embeds embedder embedder' name) :
    a.Acts (runAll now embedder nodes) (runAll now embedder' nodes) := by
  cases nodes with
  | nil => exact acts_pure
  | cons node nodes =>
      have hnode := acts_node hkept now node fun name hname =>
        hembed name (by simp [itemsOf, hname])
      exact hnode.then (acts_nodes hkept now nodes fun name hname =>
        hembed name (by simp [itemsOf, hname]))

end

theorem acts_program (hkept : a.IsKept) (now : Moment) (program : Program)
    (hembed : ∀ name, .embed name ∈ program.items → a.Embeds embedder embedder' name) :
    a.Acts (program.run now embedder) (program.run now embedder') :=
  acts_nodes hkept now program.nodes hembed

end Alignment

end Stencil.Artifact
