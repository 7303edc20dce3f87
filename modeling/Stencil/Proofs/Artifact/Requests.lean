import Stencil.Proofs.Artifact.Agreement

/-!
# What a run asks for

A run changes the state of its host only through its embedder.  An embedder that
takes note of what it is asked for embeds as before, so what a run asks for, and
where the run stands then, can be read from a second run beside it.
-/

namespace Stencil.Artifact

variable {ε σ : Type}

structure Request (σ : Type) where
  name : Text
  scope : Scope
  out : Text
  host : σ

def Request.answer (embedder : Embedder ε σ) (q : Request σ) : EStateM.Result ε (Text × σ) Unit :=
  embedder q.name q.scope (q.out, q.host)

def final {α β : Type} : EStateM.Result ε α β → α
  | .ok _ a => a
  | .error _ a => a

def Embedder.recording (embedder : Embedder ε σ) : Embedder ε (σ × List (Request σ)) :=
  fun name scope (out, host, earlier) =>
    match embedder name scope (out, host) with
    | .ok () (out', host') => .ok () (out', host', earlier ++ [⟨name, scope, out, host⟩])
    | .error e (out', host') => .error e (out', host', earlier ++ [⟨name, scope, out, host⟩])

def Program.requests (p : Program) (now : Moment) (embedder : Embedder ε σ) (r : Run σ) :
    List (Request σ) :=
  (final (p.run now embedder.recording ⟨r.scope, r.out, r.host, []⟩)).host.2

/-- The alignment of a run with itself as others take note of it, for what is true of the host at
each request and for which names there may be. -/
def recorded (embedder : Embedder ε σ) (Host : σ → Prop) (Asked : Text → Prop) :
    Alignment ε σ (σ × List (Request σ)) where
  scopes := Eq
  effects x y := x = (y.1, y.2.1) ∧ Host x.2 ∧ ∀ q ∈ y.2.2, Host q.host ∧ Asked q.name
  failures e x y := x = (y.1, y.2.1) ∧ Host x.2 ∧ (∀ q ∈ y.2.2, Host q.host ∧ Asked q.name) ∧
    ∃ q ∈ y.2.2, q.answer embedder = .error e x

theorem isKept_recorded (embedder : Embedder ε σ) (Host : σ → Prop) (Asked : Text → Prop) :
    (recorded embedder Host Asked).IsKept where
  lookup := by
    rintro s _ rfl
    rfl
  bind := by
    rintro s _ name value rfl
    rfl
  write := by
    rintro ⟨out, host⟩ ⟨out', host', log⟩ t ⟨hsame, hhost, hlog⟩
    cases hsame
    exact ⟨rfl, hhost, hlog⟩

theorem embeds_recorded {embedder : Embedder ε σ} {Host : σ → Prop} {Asked : Text → Prop}
    {name : Text} (hasked : Asked name)
    (hhost : ∀ scope out host, Host host → Host (final (embedder name scope (out, host))).2) :
    (recorded embedder Host Asked).Embeds embedder embedder.recording name := by
  rintro scope _ ⟨out, host⟩ ⟨_, _, log⟩ rfl ⟨hsame, hstart, hlog⟩
  obtain ⟨rfl, rfl⟩ := Prod.mk.inj hsame
  have hend := hhost scope out host hstart
  have hlog' : ∀ q ∈ log ++ [⟨name, scope, out, host⟩], Host q.host ∧ Asked q.name := by
    intro q hq
    rcases List.mem_append.1 hq with hq | hq
    · exact hlog q hq
    · cases List.mem_singleton.1 hq
      exact ⟨hstart, hasked⟩
  unfold Embedder.recording
  dsimp only
  cases hanswer : embedder name scope (out, host) with
  | ok _ after =>
      rw [hanswer] at hend
      exact .ok ⟨rfl, hend, hlog'⟩
  | error e after =>
      rw [hanswer] at hend
      exact .error ⟨rfl, hend, hlog', _, List.mem_append_right _ (List.mem_singleton_self _),
        hanswer⟩

/-- What is asked for in a run, and what that means for the run. -/
structure Program.IsRecorded (p : Program) (now : Moment) (embedder : Embedder ε σ)
    (Host : σ → Prop) (r : Run σ) : Prop where
  requests : ∀ q ∈ p.requests now embedder r, Host q.host ∧ .embed q.name ∈ p.items
  same : effects (p.run now embedder r) =
    match p.run now embedder.recording ⟨r.scope, r.out, r.host, []⟩ with
    | .ok () r => .ok () (r.out, r.host.1)
    | .error e r => .error e (r.out, r.host.1)
  ends : Host (final (p.run now embedder r)).host
  fails : ∀ e after, p.run now embedder r = .error e after →
    ∃ q ∈ p.requests now embedder r, q.answer embedder = .error e after.effect

theorem Program.isRecorded {p : Program} {now : Moment} {embedder : Embedder ε σ}
    {Host : σ → Prop} {r : Run σ}
    (hhost : ∀ name, .embed name ∈ p.items → ∀ scope out host, Host host →
      Host (final (embedder name scope (out, host))).2)
    (hstart : Host r.host) : p.IsRecorded now embedder Host r := by
  have hrun := Alignment.acts_program
    (isKept_recorded embedder Host fun name => .embed name ∈ p.items) now p
    (fun name hname => embeds_recorded hname (hhost name hname)) r ⟨r.scope, r.out, r.host, []⟩ rfl
    ⟨rfl, hstart, fun q hq => by cases hq⟩
  constructor
  all_goals
    unfold Program.requests at *
    generalize p.run now embedder r = x at hrun ⊢
    generalize p.run now embedder.recording ⟨r.scope, r.out, r.host, []⟩ = y at hrun ⊢
  · cases hrun with
    | ok h => exact h.2.2.2.2
    | error h => exact h.2.2.2.2.1
  · cases hrun with
    | ok h => exact congrArg _ h.2.2.1
    | error h => exact congrArg _ h.2.2.1
  · cases hrun with
    | ok h => exact h.2.2.2.1
    | error h => exact h.2.2.2.1
  · rintro e after rfl
    cases hrun with
    | error h => exact h.2.2.2.2.2

def agreed (ε : Type) (Host : σ → Prop) : Alignment ε σ σ where
  scopes := Eq
  effects x y := x = y ∧ Host x.2
  failures _ x y := x = y

theorem isKept_agreed (Host : σ → Prop) : (agreed ε Host).IsKept where
  lookup := by
    rintro s _ rfl
    rfl
  bind := by
    rintro s _ name value rfl
    rfl
  write := by
    rintro x _ t ⟨rfl, hhost⟩
    exact ⟨rfl, hhost⟩

theorem Program.run_congr {p : Program} {now : Moment} {embedder embedder' : Embedder ε σ}
    {Host : σ → Prop} {r : Run σ}
    (hembed : ∀ name scope out host, Host host →
      embedder' name scope (out, host) = embedder name scope (out, host) ∧
        Host (final (embedder name scope (out, host))).2)
    (hstart : Host r.host) : p.run now embedder' r = p.run now embedder r := by
  have hstep : ∀ name, (agreed ε Host).Embeds embedder' embedder name := by
    rintro name scope _ ⟨out, host⟩ _ rfl ⟨rfl, hhost⟩
    obtain ⟨hsame, hend⟩ := hembed name scope out host hhost
    rw [hsame]
    cases hanswer : embedder name scope (out, host) with
    | ok _ after =>
        rw [hanswer] at hend
        exact .ok ⟨rfl, hend⟩
    | error e after => exact .error rfl
  have hrun := Alignment.acts_program (isKept_agreed Host) now p (fun name _ => hstep name) r r rfl
    ⟨rfl, hstart⟩
  have hsame : ∀ x y : Run σ, x.scope = r.scope ∧ y.scope = r.scope ∧ x.effect = y.effect →
      x = y := by
    rintro ⟨scope, out, host⟩ ⟨scope', out', host'⟩ ⟨rfl, hscope, heffect⟩
    cases hscope
    cases heffect
    rfl
  generalize p.run now embedder' r = x at hrun ⊢
  generalize p.run now embedder r = y at hrun ⊢
  cases hrun with
  | ok h => exact congrArg _ (hsame _ _ ⟨h.1, h.2.1, h.2.2.1⟩)
  | error h => exact congrArg _ (hsame _ _ h)

end Stencil.Artifact
