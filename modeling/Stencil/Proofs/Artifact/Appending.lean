import Stencil.Proofs.Artifact.Requests

/-!
# Runs only append

A run gives its scope back as it was, whether it ends or fails and however deep
in loops it does.  Behind an output it puts a text that does not depend on the
output, if the same is true of what it embeds.
-/

namespace Stencil.Artifact

variable {ε σ : Type}

theorem Program.scope_run (p : Program) (now : Moment) (embedder : Embedder ε σ) (r : Run σ) :
    (final (p.run now embedder r)).scope = r.scope := by
  -- a run is in step with itself, and runs in step give their scopes back
  have hembed : ∀ name, (agreed ε fun _ : σ => True).Embeds embedder embedder name := by
    rintro name scope _ x _ rfl ⟨rfl, -⟩
    cases embedder name scope x with
    | ok _ y => exact .ok ⟨rfl, trivial⟩
    | error e y => exact .error rfl
  have hrun := Alignment.acts_program (isKept_agreed fun _ => True) now p
    (fun name _ => hembed name) r r rfl ⟨rfl, trivial⟩
  generalize p.run now embedder r = x at hrun ⊢
  cases hrun with
  | ok h => exact h.1
  | error h => exact h.1

/-! ## Outputs -/

def Appends (out out' : Text) (x y : Text × σ) : Prop :=
  ∃ added, x.1 = out ++ added ∧ y.1 = out' ++ added

/-- Two results are alike, with one text behind both outputs.  After a failure nothing is asked of
the hosts. -/
abbrev AppendAlike (Alike : σ → σ → Prop) (out out' : Text) :
    EStateM.Result ε (Text × σ) Unit → EStateM.Result ε (Text × σ) Unit → Prop :=
  EndAlike (fun x y => Appends out out' x y ∧ Alike x.2 y.2) fun _ => Appends out out'

/-- An embedder puts a text behind the output.  Neither the text nor the result depends on what was
there; what the host keeps may, up to differences that no later text or result shows. -/
def Embedder.OnlyAppends (embedder : Embedder ε σ) (Alike : σ → σ → Prop) : Prop :=
  ∀ name scope out out' host host', Alike host host' →
    AppendAlike Alike out out' (embedder name scope (out, host)) (embedder name scope (out', host'))

theorem endAlike_effects_cases {Ends : Text × σ → Text × σ → Prop}
    {Fails : ε → Text × σ → Text × σ → Prop} {x y : EStateM.Result ε (Run σ) Unit}
    (h : EndAlike Ends Fails (effects x) (effects y)) :
    (∃ r r', x = .ok () r ∧ y = .ok () r' ∧ Ends r.effect r'.effect) ∨
      ∃ e r r', x = .error e r ∧ y = .error e r' ∧ Fails e r.effect r'.effect := by
  cases x with
  | ok _ r =>
      cases y with
      | ok _ r' =>
          cases h with
          | ok hend => exact Or.inl ⟨r, r', rfl, rfl, hend⟩
      | error e r' => cases h
  | error e r =>
      cases y with
      | ok _ r' => cases h
      | error e' r' =>
          cases h with
          | error hfailed => exact Or.inr ⟨e, r, r', rfl, rfl, hfailed⟩

def appending (ε : Type) (Alike : σ → σ → Prop) (out out' : Text) : Alignment ε σ σ where
  scopes := Eq
  effects x y := Appends out out' x y ∧ Alike x.2 y.2
  failures _ := Appends out out'

section

variable {Alike : σ → σ → Prop} {embedder : Embedder ε σ} {out out' added : Text} {x y : Text × σ}

theorem appends_refl (out out' : Text) (host host' : σ) :
    Appends out out' (out, host) (out', host') :=
  ⟨[], (List.append_nil _).symm, (List.append_nil _).symm⟩

theorem Appends.behind (h : Appends (out ++ added) (out' ++ added) x y) : Appends out out' x y := by
  obtain ⟨more, hx, hy⟩ := h
  exact ⟨added ++ more, by rw [hx, List.append_assoc], by rw [hy, List.append_assoc]⟩

theorem Appends.of_nil (h : Appends [] out x y) : y.1 = out ++ x.1 := by
  obtain ⟨added, hx, hy⟩ := h
  rw [hx, hy, List.nil_append]

theorem isKept_appending : (appending ε Alike out out').IsKept where
  lookup := by
    rintro s _ rfl
    rfl
  bind := by
    rintro s _ name value rfl
    rfl
  write := by
    rintro ⟨x, host⟩ ⟨y, host'⟩ t ⟨⟨added, hx, hy⟩, halike⟩
    dsimp only at hx hy ⊢
    exact ⟨⟨added ++ t, by rw [hx, List.append_assoc], by rw [hy, List.append_assoc]⟩, halike⟩

theorem embeds_appending (h : embedder.OnlyAppends Alike) (name : Text) :
    (appending ε Alike out out').Embeds embedder embedder name := by
  rintro scope _ ⟨x, host⟩ ⟨y, host'⟩ rfl ⟨⟨added, hx, hy⟩, halike⟩
  dsimp only at hx hy halike
  subst hx hy
  have hembedded := h name scope (out ++ added) (out' ++ added) host host' halike
  generalize embedder name scope (out ++ added, host) = x at hembedded ⊢
  generalize embedder name scope (out' ++ added, host') = y at hembedded ⊢
  cases hembedded with
  | ok hend => exact .ok ⟨hend.1.behind, hend.2⟩
  | error hend => exact .error hend.behind

theorem Program.onlyAppends_run (p : Program) (now : Moment) (h : embedder.OnlyAppends Alike)
    (scope : Scope) {host host' : σ} (halike : Alike host host') :
    AppendAlike Alike out out' (effects (p.run now embedder ⟨scope, out, host⟩))
      (effects (p.run now embedder ⟨scope, out', host'⟩)) := by
  have hrun := Alignment.acts_program isKept_appending now p
    (fun name _ => embeds_appending h name) ⟨scope, out, host⟩ ⟨scope, out', host'⟩ rfl
    ⟨appends_refl out out' host host', halike⟩
  generalize p.run now embedder ⟨scope, out, host⟩ = x at hrun ⊢
  generalize p.run now embedder ⟨scope, out', host'⟩ = y at hrun ⊢
  cases hrun with
  | ok hend => exact .ok hend.2.2
  | error hend => exact .error hend.2.2

end

/-! ## The frame of a run -/

def outcome {α β : Type} : EStateM.Result ε α β → Except ε β
  | .ok b _ => .ok b
  | .error e _ => .error e

/-- All that a run does besides what it leaves with its host: the scope is as it was, and behind
the output is a text that depends on neither the output nor what the host knows of it. -/
structure Program.IsFramed (p : Program) (now : Moment) (embedder : Embedder ε σ)
    (Alike : σ → σ → Prop) : Prop where
  scope : ∀ r, (final (p.run now embedder r)).scope = r.scope
  appends : ∀ scope host, ∃ added result, ∀ out host', Alike host host' →
    (final (p.run now embedder ⟨scope, out, host'⟩)).out = out ++ added ∧
      outcome (p.run now embedder ⟨scope, out, host'⟩) = result

theorem Program.isFramed (p : Program) (now : Moment) {embedder : Embedder ε σ}
    {Alike : σ → σ → Prop} (h : embedder.OnlyAppends Alike) : p.IsFramed now embedder Alike where
  scope := p.scope_run now embedder
  appends scope host := by
    -- all that is appended shows in a run on no output
    refine ⟨(final (p.run now embedder ⟨scope, [], host⟩)).out,
      outcome (p.run now embedder ⟨scope, [], host⟩), fun out host' halike => ?_⟩
    have hrun : AppendAlike Alike [] out (effects (p.run now embedder ⟨scope, [], host⟩))
        (effects (p.run now embedder ⟨scope, out, host'⟩)) :=
      p.onlyAppends_run now h scope halike
    rcases endAlike_effects_cases hrun with ⟨r, r', hx, hy, hend, -⟩ | ⟨e, r, r', hx, hy, hend⟩
    · rw [hx, hy]
      exact ⟨hend.of_nil, rfl⟩
    · rw [hx, hy]
      exact ⟨hend.of_nil, rfl⟩

namespace Nested

def embedder : Embedder Text (List Text) := fun name _ (out, found) =>
  if name = ['z'] then .error name (out ++ name, found ++ [out])
  else .ok () (out ++ name, found ++ [out])

theorem onlyAppends_embedder : embedder.OnlyAppends fun _ _ => True := by
  intro name scope out out' host host' _
  have hends : Appends out out' (out ++ name, host ++ [out]) (out' ++ name, host' ++ [out']) :=
    ⟨name, rfl, rfl⟩
  by_cases hname : name = ['z']
  · subst hname
    exact .error hends
  · simpa only [embedder, hname, if_false] using EndAlike.ok ⟨hends, trivial⟩

def program : Program :=
  ⟨[.loop ⟨⟨['o'], []⟩, some ['k'], ['v']⟩
    [.loop ⟨⟨['v'], []⟩, none, ['w']⟩ [.text ['<'], .embed ['y'], .embed ['z']]]]⟩

def scope : Scope := .ofData [(['o'], .array [.array [], .array [.null]])]

def now : Moment := ⟨2024, 1, 1, 0, 0, 0⟩

end Nested

/-- The inner loop fails in the second round of the outer one, where two loops have bound names. -/
theorem Program.isFramed_nested :
    Nested.embedder.OnlyAppends (fun _ _ => True) ∧
      Nested.program.IsFramed Nested.now Nested.embedder (fun _ _ => True) ∧
      outcome (Nested.program.run Nested.now Nested.embedder ⟨Nested.scope, [], []⟩) =
        .error ['z'] :=
  ⟨Nested.onlyAppends_embedder, Nested.program.isFramed _ Nested.onlyAppends_embedder, rfl⟩

end Stencil.Artifact
