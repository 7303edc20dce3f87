import Stencil.Proofs.Artifact.Requests

/-!
# What a run writes

A run writes the texts of its program as they are and the values that it prints
escaped, and leaves everything else to its embedder.  What both of them keep
true of the output and the host is true when the run ends, or fails.
-/

namespace Stencil.Artifact

/-- What a program with certain items writes by itself: a text as it stands in the program, or the
printed form of a value, escaped. -/
inductive Writes (now : Moment) (items : List Item) : Text → Prop
  | literal {t : Text} (h : .text t ∈ items) : Writes now items t
  | value {interpolation : Interpolation} (h : .echo interpolation ∈ items) (scope : Scope) :
      Writes now items (Html.escape (interpolation.eval now scope.lookup).display)

variable {ε σ : Type}

def Action.Keeps (Made : Text × σ → Prop) (action : Action ε σ Unit) : Prop :=
  ∀ r, Made r.effect → Made (final (action r)).effect

structure Preserves (now : Moment) (embedder : Embedder ε σ) (Made : Text × σ → Prop)
    (items : List Item) : Prop where
  writes : ∀ t, Writes now items t → ∀ out host, Made (out, host) → Made (out ++ t, host)
  embeds : ∀ name, .embed name ∈ items → ∀ scope x, Made x → Made (final (embedder name scope x))

section

variable {now : Moment} {embedder : Embedder ε σ} {Made : Text × σ → Prop}
  {items items' : List Item}

theorem Writes.mono {t : Text} (h : Writes now items t) (hsub : items ⊆ items') :
    Writes now items' t := by
  cases h with
  | literal h => exact .literal (hsub h)
  | value h scope => exact .value (hsub h) scope

theorem Preserves.mono (h : Preserves now embedder Made items') (hsub : items ⊆ items') :
    Preserves now embedder Made items where
  writes t ht := h.writes t (ht.mono hsub)
  embeds name hname := h.embeds name (hsub hname)

/-! ## Actions -/

namespace Action

variable {action next : Action ε σ Unit}

theorem keeps_pure : Keeps Made (pure () : Action ε σ Unit) := fun _ h => h

theorem Keeps.then (h : Keeps Made action) (hnext : Keeps Made next) :
    Keeps Made (do action; next) := by
  intro r hr
  have hfirst := h r hr
  change Made (final (EStateM.bind action (fun _ => next) r)).effect
  unfold EStateM.bind
  generalize action r = x at hfirst ⊢
  cases x with
  | error e r' => exact hfirst
  | ok _ r' => exact hnext r' hfirst

theorem keeps_get {choose : Run σ → Action ε σ Unit} (h : ∀ r, Keeps Made (choose r)) :
    Keeps Made (get >>= choose) :=
  fun r hr => h r r hr

theorem keeps_write {t : Text} (h : ∀ out host, Made (out, host) → Made (out ++ t, host)) :
    Keeps Made (Action.write t : Action ε σ Unit) :=
  fun r hr => h r.out r.host hr

theorem keeps_embed {name : Text}
    (h : ∀ scope x, Made x → Made (final (embedder name scope x))) :
    Keeps Made (Action.embed embedder name) := by
  intro r hr
  have hembed := h r.scope (r.out, r.host) hr
  unfold Action.embed
  generalize embedder name r.scope (r.out, r.host) = x at hembed ⊢
  cases x <;> exact hembed

theorem Keeps.within (h : Keeps Made action) (bindings : Bindings Value) :
    Keeps Made (Action.within bindings action) := by
  intro r hr
  unfold Action.within
  dsimp only
  generalize hx : action _ = x
  have hinner : Made (final x).effect := hx ▸ h _ hr
  cases x <;> exact hinner

theorem Keeps.rounds (h : Keeps Made action) (rounds : List (Bindings Value)) :
    Keeps Made (Action.rounds action rounds) := by
  induction rounds with
  | nil => exact keeps_pure
  | cons bindings more ih => exact (h.within bindings).then ih

end Action

/-! ## Programs -/

mutual

theorem keeps_node (node : Node) (h : Preserves now embedder Made node.items) :
    Action.Keeps Made (node.run now embedder) := by
  cases node with
  | text t => exact Action.keeps_write (h.writes t (.literal (by simp [Node.items])))
  | echo interpolation =>
      exact Action.keeps_get fun r =>
        Action.keeps_write (h.writes _ (.value (by simp [Node.items]) r.scope))
  | choice condition body rest =>
      have hbody := keeps_nodes body (h.mono (by simp [Node.items]))
      have hrest := keeps_branches rest (h.mono (by simp [Node.items]))
      refine Action.keeps_get fun r => ?_
      split
      · exact hbody
      · exact hrest
  | loop head body =>
      have hbody := keeps_nodes body (h.mono (by simp [Node.items]))
      exact Action.keeps_get fun r => hbody.rounds _
  | embed name => exact Action.keeps_embed (h.embeds name (by simp [Node.items]))

theorem keeps_branches (branches : Branches) (h : Preserves now embedder Made branches.items) :
    Action.Keeps Made (branches.run now embedder) := by
  cases branches with
  | done => exact Action.keeps_pure
  | otherwise body => exact keeps_nodes body (h.mono (by simp [Branches.items]))
  | elseIf condition body rest =>
      have hbody := keeps_nodes body (h.mono (by simp [Branches.items]))
      have hrest := keeps_branches rest (h.mono (by simp [Branches.items]))
      refine Action.keeps_get fun r => ?_
      split
      · exact hbody
      · exact hrest

theorem keeps_nodes (nodes : List Node) (h : Preserves now embedder Made (itemsOf nodes)) :
    Action.Keeps Made (runAll now embedder nodes) := by
  cases nodes with
  | nil => exact Action.keeps_pure
  | cons node nodes =>
      exact (keeps_node node (h.mono (by simp [itemsOf]))).then
        (keeps_nodes nodes (h.mono (by simp [itemsOf])))

end

theorem Program.keeps_run {p : Program} (h : Preserves now embedder Made p.items) :
    Action.Keeps Made (p.run now embedder) :=
  keeps_nodes p.nodes h

end

/-! ## Output in segments -/

def Continues (Segment : Text → Prop) (start out : Text) : Prop :=
  ∃ segments : List Text, out = start ++ segments.flatten ∧ ∀ s ∈ segments, Segment s

section

variable {Segment Segment' : Text → Prop} {start between out t : Text}

theorem Continues.refl (Segment : Text → Prop) (t : Text) : Continues Segment t t :=
  ⟨[], by simp, by simp⟩

theorem Continues.trans (h : Continues Segment start between)
    (h' : Continues Segment between out) : Continues Segment start out := by
  obtain ⟨segments, rfl, hsegments⟩ := h
  obtain ⟨more, rfl, hmore⟩ := h'
  refine ⟨segments ++ more, by simp, fun s hs => ?_⟩
  exact (List.mem_append.1 hs).elim (hsegments s) (hmore s)

theorem Continues.mono (h : Continues Segment start out) (hsub : ∀ s, Segment s → Segment' s) :
    Continues Segment' start out := by
  obtain ⟨segments, hout, hsegments⟩ := h
  exact ⟨segments, hout, fun s hs => hsub s (hsegments s hs)⟩

theorem Continues.append (h : Segment t) (start : Text) : Continues Segment start (start ++ t) :=
  ⟨[t], by simp, by simpa using h⟩

end

variable {embedder : Embedder ε σ}

theorem final_recording (embedder : Embedder ε σ) (name : Text) (scope : Scope) (out : Text)
    (host : σ) (earlier : List (Request σ)) :
    final (embedder.recording name scope (out, host, earlier)) =
      ((final (embedder name scope (out, host))).1, (final (embedder name scope (out, host))).2,
        earlier ++ [⟨name, scope, out, host⟩]) := by
  unfold Embedder.recording
  dsimp only
  cases embedder name scope (out, host) <;> rfl

theorem final_effects (x : EStateM.Result ε (Run σ) Unit) :
    final (effects x) = (final x).effect := by
  cases x <;> rfl

theorem out_recording (p : Program) (now : Moment) (embedder : Embedder ε σ) (r : Run σ) :
    (final (p.run now embedder.recording ⟨r.scope, r.out, r.host, []⟩)).out =
      (final (p.run now embedder r)).out := by
  have hrecorded : p.IsRecorded now embedder (fun _ => True) r :=
    Program.isRecorded (fun _ _ _ _ _ _ => trivial) trivial
  have hsame := hrecorded.same
  generalize p.run now embedder.recording ⟨r.scope, r.out, r.host, []⟩ = y at hsame ⊢
  have hout : (final (effects (p.run now embedder r))).1 = (final y).out := by
    rw [hsame]
    cases y <;> rfl
  rw [← hout, final_effects]
  rfl

theorem Program.continues (p : Program) (now : Moment) (Shown : Request σ → Text → Prop)
    (hembed : ∀ q : Request σ, Continues (Shown q) q.out (final (q.answer embedder)).1)
    (r : Run σ) :
    Continues
      (fun s => Writes now p.items s ∨ ∃ q ∈ p.requests now embedder r, Shown q s)
      r.out (final (p.run now embedder r)).out := by
  -- what is true on the way is about the requests so far, so the run is followed with its record
  let Made : Text × σ × List (Request σ) → Prop := fun x =>
    Continues (fun s => Writes now p.items s ∨ ∃ q ∈ x.2.2, Shown q s) r.out x.1
  have hpreserves : Preserves now embedder.recording Made p.items := by
    constructor
    · rintro t ht out ⟨host, log⟩ hmade
      exact hmade.trans (.append (Or.inl ht) _)
    · rintro name - scope ⟨out, host, log⟩ hmade
      rw [final_recording]
      have hanswer := hembed ⟨name, scope, out, host⟩
      refine Continues.trans (hmade.mono fun s hs => ?_) (hanswer.mono fun s hs => Or.inr ?_)
      · exact hs.imp_right fun ⟨q, hq, hshown⟩ => ⟨q, List.mem_append_left _ hq, hshown⟩
      · exact ⟨_, List.mem_append_right _ (List.mem_singleton_self _), hs⟩
  have hrun := Program.keeps_run hpreserves ⟨r.scope, r.out, r.host, []⟩ (.refl _ _)
  have hout := out_recording p now embedder r
  rw [← hout]
  exact hrun

end Stencil.Artifact
