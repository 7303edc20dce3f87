import Stencil.View
import Stencil.Proofs.Artifact.Requests
import Stencil.Proofs.Cache.Sources

/-!
# How a render goes

Templates that embed each other are rendered inside of each other.  The names of
those under way are on a stack, each once, and each has a source of its own.  So
there are no more of them than sources, a render ends, and a template that would
be rendered inside of itself is found.
-/

namespace Stencil

open Stencil.Artifact

namespace Rendering

variable {now : Moment} {fuel : Nat} {name : Text} {data : Context} {out : Text}
  {r r' : Rendering} {program : Program} {e : Failure}

def embedder (now : Moment) (fuel : Nat) : Embedder Failure Rendering :=
  fun name scope => renderInto now fuel name scope.flatten

def left : EStateM.Result Failure (Run Rendering) Unit →
    EStateM.Result Failure (Text × Rendering) Unit
  | .ok () run => .ok () (run.out, run.host.leave)
  | .error e run => .error e (run.out, run.host.leave)

/-! ## One template -/

theorem renderInto_of_mem (h : name ∈ r.stack) :
    renderInto now (fuel + 1) name data (out, r) =
      .error (.cycle (r.stack ++ [name])) (out, r) := by
  simp [renderInto, h]

theorem renderInto_cases (now : Moment) (name : Text) (data : Context) (out : Text)
    (r : Rendering) :
    (name ∈ r.stack ∧ ∀ fuel, renderInto now (fuel + 1) name data (out, r) =
      .error (.cycle (r.stack ++ [name])) (out, r)) ∨
    (name ∉ r.stack ∧ ∃ e r', r.enter name = (.error e, r') ∧
      ∀ fuel, renderInto now (fuel + 1) name data (out, r) = .error e (out, r')) ∨
    (name ∉ r.stack ∧ ∃ program r', r.enter name = (.ok program, r') ∧
      ∀ fuel, renderInto now (fuel + 1) name data (out, r) =
        left (program.run now (embedder now fuel) ⟨.ofData data, out, r'⟩)) := by
  by_cases hmem : name ∈ r.stack
  · exact Or.inl ⟨hmem, fun fuel => renderInto_of_mem hmem⟩
  · rcases henter : r.enter name with ⟨e | program, r'⟩
    · refine Or.inr (Or.inl ⟨hmem, e, r', rfl, fun fuel => ?_⟩)
      simp [renderInto, hmem, henter]
    · refine Or.inr (Or.inr ⟨hmem, program, r', rfl, fun fuel => ?_⟩)
      simp only [renderInto, hmem, if_false, henter]
      unfold embedder
      cases program.run now (fun name scope => renderInto now fuel name scope.flatten)
        ⟨.ofData data, out, r'⟩ <;> rfl

theorem eq_error_of_left {x : EStateM.Result Failure (Run Rendering) Unit} {s : Text × Rendering}
    (h : left x = .error e s) : ∃ after, x = .error e after := by
  cases x with
  | ok _ after => cases h
  | error e' after =>
      cases h
      exact ⟨after, rfl⟩

theorem of_enter_error (h : r.enter name = (.error e, r')) :
    r' = { r with cache := (r.cache.get name).2 } ∧
      ((r.cache.get name).1 = .error e ∨ ∃ fault, e = .malformed name fault) := by
  unfold enter at h
  rcases hget : r.cache.get name with ⟨e' | artifact, cache⟩
  · simp only [hget, Prod.mk.injEq, Except.error.injEq] at h
    exact ⟨h.2.symm, Or.inl (congrArg _ h.1)⟩
  · simp only [hget] at h
    split at h
    · next fault hfault =>
      simp only [Prod.mk.injEq, Except.error.injEq] at h
      exact ⟨h.2.symm, Or.inr ⟨fault, h.1.symm⟩⟩
    · cases h

theorem of_enter_ok (h : r.enter name = (.ok program, r')) :
    r' = ⟨(r.cache.get name).2, r.stack ++ [name]⟩ ∧
      ∃ artifact, (r.cache.get name).1 = .ok artifact ∧ Program.parse artifact = .ok program := by
  unfold enter at h
  rcases hget : r.cache.get name with ⟨e' | artifact, cache⟩
  · simp [hget] at h
  · simp only [hget] at h
    split at h
    · cases h
    · next program' hparse =>
      simp only [Prod.mk.injEq, Except.ok.injEq] at h
      exact ⟨h.2.symm, artifact, rfl, h.1 ▸ hparse⟩

/-! ## What a template leaves behind -/

structure IsAt (c : Cache) (stack : List Text) (r : Rendering) : Prop where
  sources : c.KeepsSources r.cache
  stack : r.stack = stack

section

variable {c : Cache} {stack : List Text}

theorem IsAt.enter_error (hc : c.IsSeparate) (h : IsAt c stack r)
    (henter : r.enter name = (.error e, r')) : IsAt c stack r' := by
  obtain ⟨rfl, -⟩ := of_enter_error henter
  exact ⟨h.sources.get hc name, h.stack⟩

theorem IsAt.enter_ok (hc : c.IsSeparate) (h : IsAt c stack r)
    (henter : r.enter name = (.ok program, r')) : IsAt c (stack ++ [name]) r' := by
  obtain ⟨rfl, -⟩ := of_enter_ok henter
  exact ⟨h.sources.get hc name, congrArg (· ++ [name]) h.stack⟩

theorem IsAt.leave (h : IsAt c (stack ++ [name]) r) : IsAt c stack r.leave := by
  refine ⟨h.sources, ?_⟩
  rw [Rendering.leave, h.stack, List.dropLast_concat]

theorem final_left (x : EStateM.Result Failure (Run Rendering) Unit) :
    (final (left x)).2 = (final x).host.leave := by
  cases x <;> rfl

theorem IsAt.renderInto (hc : c.IsSeparate) (now : Moment) (fuel : Nat) (name : Text)
    (data : Context) (out : Text) (h : IsAt c stack r) :
    IsAt c stack (final (renderInto now fuel name data (out, r))).2 := by
  induction fuel generalizing name data out r stack with
  | zero => exact h
  | succ fuel ih =>
      rcases renderInto_cases now name data out r with ⟨-, hcycle⟩ |
        ⟨-, e, r', henter, hfailed⟩ | ⟨-, program, r', henter, hrun⟩
      · rw [hcycle fuel]
        exact h
      · rw [hfailed fuel]
        exact h.enter_error hc henter
      · rw [hrun fuel, final_left]
        have hrecorded : program.IsRecorded now (embedder now fuel) (IsAt c (stack ++ [name]))
            ⟨.ofData data, out, r'⟩ :=
          Program.isRecorded (fun _ _ _ _ _ hhost => ih _ _ _ hhost) (h.enter_ok hc henter)
        exact hrecorded.ends.leave

theorem IsAt.isRecorded (hc : c.IsSeparate) (h : IsAt c stack r)
    (henter : r.enter name = (.ok program, r')) (now : Moment) (fuel : Nat) (data : Context)
    (out : Text) :
    program.IsRecorded now (embedder now fuel) (IsAt c (stack ++ [name]))
      ⟨.ofData data, out, r'⟩ :=
  Program.isRecorded (fun _ _ _ _ _ hhost => hhost.renderInto hc now fuel _ _ _)
    (h.enter_ok hc henter)

end

end Rendering

/-! ## The bound -/

/-- Templates under way: no two are the same, and each has a source. -/
structure Cache.IsStack (c : Cache) (stack : List Text) : Prop where
  nodup : stack.Nodup
  sources : ∀ name ∈ stack, c.HasSource name

theorem Cache.IsStack.length_le {c : Cache} {stack : List Text} (hc : c.IsSeparate)
    (h : c.IsStack stack) : stack.length ≤ c.sourceCount :=
  length_le_sourceCount hc h.nodup h.sources

namespace Rendering

variable {c : Cache} {stack : List Text} {now : Moment} {fuel : Nat} {name : Text}
  {data : Context} {out : Text} {r r' : Rendering} {program : Program}

theorem IsAt.isStack (h : IsAt c stack r) (hstack : c.IsStack stack) (hnew : name ∉ r.stack)
    (henter : r.enter name = (.ok program, r')) : c.IsStack (stack ++ [name]) := by
  obtain ⟨-, artifact, hget, -⟩ := of_enter_ok henter
  rw [h.stack] at hnew
  refine ⟨List.nodup_append.2 ⟨hstack.nodup, List.nodup_singleton _, ?_⟩, ?_⟩
  · rintro other hother _ hname rfl
    exact hnew (List.mem_singleton.1 hname ▸ hother)
  · intro other hother
    rcases List.mem_append.1 hother with hother | hother
    · exact hstack.sources other hother
    · rw [List.mem_singleton.1 hother]
      exact h.sources.hasSource (Cache.hasSource_of_get hget)

theorem ne_unfinished_of_enter {e : Failure} (henter : r.enter name = (.error e, r'))
    (other : Text) : e ≠ .unfinished other := by
  rintro rfl
  obtain ⟨-, hget | ⟨fault, hfault⟩⟩ := of_enter_error henter
  · exact r.cache.get_ne_unfinished name other hget
  · cases hfault

/-- Fuel for one template more than there are sources beside the stack. -/
structure IsFueled (c : Cache) (stack : List Text) (fuel : Nat) : Prop where
  isStack : c.IsStack stack
  enough : c.sourceCount < fuel + stack.length

theorem IsFueled.exists_eq_succ (hc : c.IsSeparate) (h : IsFueled c stack fuel) :
    ∃ less, fuel = less + 1 := by
  have hlength := h.isStack.length_le hc
  have henough := h.enough
  exact ⟨fuel - 1, by omega⟩

theorem IsAt.isFueled (h : IsAt c stack r) (hfuel : IsFueled c stack (fuel + 1))
    (hnew : name ∉ r.stack) (henter : r.enter name = (.ok program, r')) :
    IsFueled c (stack ++ [name]) fuel := by
  refine ⟨h.isStack hfuel.isStack hnew henter, ?_⟩
  have henough := hfuel.enough
  rw [List.length_append, List.length_singleton]
  omega

theorem renderInto_ne_unfinished (hc : c.IsSeparate) (hfuel : IsFueled c stack fuel)
    (h : IsAt c stack r) (other : Text) (s : Text × Rendering) :
    renderInto now fuel name data (out, r) ≠ .error (.unfinished other) s := by
  induction fuel generalizing name data out r stack s with
  | zero =>
      obtain ⟨less, hless⟩ := hfuel.exists_eq_succ hc
      cases hless
  | succ fuel ih =>
      rcases renderInto_cases now name data out r with ⟨-, hcycle⟩ |
        ⟨-, e, r', henter, hfailed⟩ | ⟨hnew, program, r', henter, hrun⟩
      · rw [hcycle fuel]
        rintro ⟨⟩
      · rw [hfailed fuel]
        rintro ⟨⟩
        exact ne_unfinished_of_enter henter other rfl
      · -- a program fails by what it embeds, which has enough fuel too
        have hrecorded := h.isRecorded hc henter now fuel data out
        rw [hrun fuel]
        intro hfailed
        obtain ⟨after, hresult⟩ := eq_error_of_left hfailed
        obtain ⟨q, hq, hanswer⟩ := hrecorded.fails _ after hresult
        exact ih (h.isFueled hfuel hnew henter) (hrecorded.requests q hq).1 _ hanswer

theorem renderInto_eq_of_le (hc : c.IsSeparate) (hfuel : IsFueled c stack fuel)
    (h : IsAt c stack r) {fuel' : Nat} (hle : fuel ≤ fuel') :
    renderInto now fuel' name data (out, r) = renderInto now fuel name data (out, r) := by
  induction fuel generalizing name data out r stack fuel' with
  | zero =>
      obtain ⟨less, hless⟩ := hfuel.exists_eq_succ hc
      cases hless
  | succ fuel ih =>
      obtain ⟨more, rfl, hmore⟩ : ∃ more, fuel' = more + 1 ∧ fuel ≤ more :=
        ⟨fuel' - 1, by omega, by omega⟩
      rcases renderInto_cases now name data out r with ⟨-, hcycle⟩ |
        ⟨-, e, r', henter, hfailed⟩ | ⟨hnew, program, r', henter, hrun⟩
      · rw [hcycle fuel, hcycle more]
      · rw [hfailed fuel, hfailed more]
      · rw [hrun fuel, hrun more]
        have hless := h.isFueled hfuel hnew henter
        refine congrArg left (Program.run_congr ?_ (h.enter_ok hc henter))
        intro embedded scope out host hhost
        exact ⟨ih hless hhost hmore, hhost.renderInto hc now fuel _ _ _⟩

end Rendering

/-! ## Templates under way -/

/-- A template that is to be rendered: the data it receives, what was written so far, and where the
render stands. -/
structure Call where
  fuel : Nat
  name : Text
  data : Context
  out : Text
  host : Rendering

namespace Call

def result (now : Moment) (call : Call) : EStateM.Result Failure (Text × Rendering) Unit :=
  Rendering.renderInto now call.fuel call.name call.data (call.out, call.host)

def program? (call : Call) : Option (Program × Rendering) :=
  if call.name ∈ call.host.stack then none
  else
    match call.host.enter call.name with
    | (.error _, _) => none
    | (.ok program, r) => some (program, r)

def inner (now : Moment) (call : Call) : List Call :=
  match call.fuel, call.program? with
  | fuel + 1, some (program, r) =>
    (program.requests now (Rendering.embedder now fuel)
      ⟨.ofData call.data, call.out, r⟩).map fun q =>
        ⟨fuel, q.name, q.scope.flatten, q.out, q.host⟩
  | _, _ => []

def first (c : Cache) (fuel : Nat) (name : Text) (data : Context) : Call :=
  ⟨fuel, name, data, [], ⟨c, []⟩⟩

/-- The calls that a call is made inside of, outermost first, at some moment after the first. -/
inductive IsMade (now : Moment) (first : Call) : (outer : List Call) → Call → Prop
  | first : IsMade now first [] first
  | inner {outer : List Call} {call inner : Call} (h : IsMade now first outer call)
      (hinner : inner ∈ call.inner now) : IsMade now first (outer ++ [call]) inner

def Embeds (call other : Call) : Prop :=
  ∃ program r, call.program? = some (program, r) ∧ .embed other.name ∈ program.items

variable {c : Cache} {now : Moment} {call other : Call} {program : Program} {r : Rendering}

theorem program?_eq_some_iff :
    call.program? = some (program, r) ↔
      call.name ∉ call.host.stack ∧ call.host.enter call.name = (.ok program, r) := by
  unfold program?
  by_cases hmem : call.name ∈ call.host.stack
  · simp [hmem]
  · rcases henter : call.host.enter call.name with ⟨e | program', r'⟩ <;> simp [hmem]

theorem mem_inner_iff :
    other ∈ call.inner now ↔ ∃ fuel program r, call.fuel = fuel + 1 ∧
      call.program? = some (program, r) ∧
      ∃ q ∈ program.requests now (Rendering.embedder now fuel) ⟨.ofData call.data, call.out, r⟩,
        ⟨fuel, q.name, q.scope.flatten, q.out, q.host⟩ = other := by
  unfold inner
  cases call.fuel with
  | zero => simp
  | succ fuel =>
      rcases call.program? with _ | ⟨program, r⟩
      · simp
      · simp

/-! ## Each call is where those around it left off -/

structure IsReached (c : Cache) (names : List Text) (call : Call) : Prop where
  isAt : Rendering.IsAt c names call.host
  isFueled : Rendering.IsFueled c names call.fuel

variable {names : List Text}

theorem IsReached.inner (hc : c.IsSeparate) (h : call.IsReached c names)
    (hother : other ∈ call.inner now) :
    other.IsReached c (names ++ [call.name]) ∧ call.Embeds other := by
  obtain ⟨fuel, program, r, hfuel, hprogram, q, hq, rfl⟩ := mem_inner_iff.1 hother
  obtain ⟨hnew, henter⟩ := program?_eq_some_iff.1 hprogram
  have hrecorded := h.isAt.isRecorded hc henter now fuel call.data call.out
  obtain ⟨hhost, hitem⟩ := hrecorded.requests q hq
  have hfueled := h.isAt.isFueled (hfuel ▸ h.isFueled) hnew henter
  exact ⟨⟨hhost, hfueled⟩, program, r, hprogram, hitem⟩

theorem IsReached.result_of_mem (hc : c.IsSeparate) (h : call.IsReached c names)
    (hmem : call.name ∈ call.host.stack) :
    call.result now =
      .error (.cycle (call.host.stack ++ [call.name])) (call.out, call.host) := by
  obtain ⟨fuel, hfuel⟩ := h.isFueled.exists_eq_succ hc
  rw [result, hfuel]
  exact Rendering.renderInto_of_mem hmem

theorem IsReached.of_cycle (hc : c.IsSeparate) (h : call.IsReached c names)
    (hnew : call.name ∉ call.host.stack) {chain : List Text} {s : Text × Rendering}
    (hfailed : call.result now = .error (.cycle chain) s) :
    (call.host.cache.get call.name).1 = .error (.cycle chain) ∨
      ∃ other ∈ call.inner now, ∃ s', other.result now = .error (.cycle chain) s' := by
  obtain ⟨fuel, hfuel⟩ := h.isFueled.exists_eq_succ hc
  rw [result, hfuel] at hfailed
  rcases Rendering.renderInto_cases now call.name call.data call.out call.host with ⟨hmem, -⟩ |
    ⟨-, e, r, henter, herror⟩ | ⟨-, program, r, henter, hrun⟩
  · exact absurd hmem hnew
  · rw [herror fuel] at hfailed
    cases hfailed
    obtain ⟨-, hget | ⟨fault, hfault⟩⟩ := Rendering.of_enter_error henter
    · exact Or.inl hget
    · cases hfault
  · right
    have hrecorded := h.isAt.isRecorded hc henter now fuel call.data call.out
    rw [hrun fuel] at hfailed
    obtain ⟨after, hresult⟩ := Rendering.eq_error_of_left hfailed
    obtain ⟨q, hq, hanswer⟩ := hrecorded.fails _ after hresult
    have hprogram := program?_eq_some_iff.2 ⟨hnew, henter⟩
    exact ⟨_, mem_inner_iff.2 ⟨fuel, program, r, hfuel, hprogram, q, hq, rfl⟩, _, hanswer⟩

theorem isReached_first {fuel : Nat} {name : Text} {data : Context} (hfuel : c.sourceCount < fuel) :
    (first c fuel name data).IsReached c [] where
  isAt := ⟨.refl c, rfl⟩
  isFueled := ⟨⟨List.nodup_nil, by simp⟩, hfuel⟩

theorem IsMade.isReached (hc : c.IsSeparate) {start : Call} (hstart : start.IsReached c [])
    {outer : List Call} (h : IsMade now start outer call) :
    call.IsReached c (outer.map Call.name) ∧ (outer ++ [call]).IsChain Embeds := by
  induction h with
  | first => exact ⟨hstart, .singleton _⟩
  | @inner outer call other h hother ih =>
      obtain ⟨hreached, hchain⟩ := ih
      obtain ⟨hinner, hembeds⟩ := hreached.inner hc hother
      refine ⟨by simpa using hinner, List.isChain_append.2 ⟨hchain, .singleton _, ?_⟩⟩
      simpa using hembeds

structure IsContained (now : Moment) (c : Cache) (outer : List Call) (call : Call) : Prop where
  stack : call.host.stack = outer.map Call.name
  nodup : call.host.stack.Nodup
  depth : outer.length + 1 ≤ c.sourceCount + 1
  embeds : (outer ++ [call]).IsChain Embeds
  entered : ∀ program r, call.program? = some (program, r) →
    r.stack = outer.map Call.name ++ [call.name] ∧ r.stack.Nodup ∧
      r.stack.length ≤ c.sourceCount
  cycle : call.name ∈ call.host.stack → call.result now =
    .error (.cycle (call.host.stack ++ [call.name])) (call.out, call.host)
  noCycle : call.name ∉ call.host.stack → ∀ chain s,
    call.result now = .error (.cycle chain) s →
      (call.host.cache.get call.name).1 = .error (.cycle chain) ∨
        ∃ other ∈ call.inner now, ∃ s', other.result now = .error (.cycle chain) s'
  restored : (final (call.result now)).2.stack = call.host.stack

theorem IsMade.isContained (hc : c.IsSeparate) {start : Call} (hstart : start.IsReached c [])
    {outer : List Call} (h : IsMade now start outer call) : call.IsContained now c outer := by
  obtain ⟨hreached, hchain⟩ := h.isReached hc hstart
  have hstack := hreached.isAt.stack
  have hnames := hreached.isFueled.isStack
  have hlength := hnames.length_le hc
  rw [List.length_map] at hlength
  constructor
  · exact hstack
  · exact hstack ▸ hnames.nodup
  · exact Nat.succ_le_succ hlength
  · exact hchain
  · intro program r hprogram
    obtain ⟨hnew, henter⟩ := program?_eq_some_iff.1 hprogram
    have hinside := (hreached.isAt.enter_ok hc henter).stack
    have hlonger := hreached.isAt.isStack hnames hnew henter
    rw [← hinside] at hlonger
    exact ⟨hinside, hlonger.nodup, hlonger.length_le hc⟩
  · exact hreached.result_of_mem hc
  · exact fun hnew chain s hfailed => hreached.of_cycle hc hnew hfailed
  · rw [hstack]
    exact (hreached.isAt.renderInto hc now call.fuel call.name call.data call.out).stack

end Call

/-! ## A render -/

/-- A render ends however much fuel there is above the number of sources, and each call on its way
is inside of calls of other templates. -/
structure Cache.IsRendered (c : Cache) (now : Moment) (name : Text) (data : Context) : Prop where
  enough : c.sourceCount < c.depth
  terminates : ∀ fuel, c.sourceCount < fuel →
    Rendering.renderInto now fuel name data ([], ⟨c, []⟩) =
      Rendering.renderInto now c.depth name data ([], ⟨c, []⟩)
  finished : ∀ other, (c.render now name data).1 ≠ .error (.unfinished other)
  calls : ∀ fuel outer call, c.sourceCount < fuel →
    Call.IsMade now (.first c fuel name data) outer call → call.IsContained now c outer

theorem Cache.sourceCount_lt_depth (c : Cache) : c.sourceCount < c.depth :=
  Nat.lt_succ_of_le (c.sourceCount_le.trans c.files.length_entries_le_weight)

theorem Cache.isRendered {c : Cache} (hc : c.IsSeparate) (now : Moment) (name : Text)
    (data : Context) : c.IsRendered now name data := by
  have hstart : ∀ fuel, c.sourceCount < fuel → (Call.first c fuel name data).IsReached c [] :=
    fun _ hfuel => Call.isReached_first hfuel
  constructor
  · exact c.sourceCount_lt_depth
  · intro fuel hfuel
    have hfirst := hstart _ hfuel
    have hdepth := hstart _ c.sourceCount_lt_depth
    rcases Nat.le_total fuel c.depth with hle | hle
    · exact (Rendering.renderInto_eq_of_le hc hfirst.isFueled hfirst.isAt hle).symm
    · exact Rendering.renderInto_eq_of_le hc hdepth.isFueled hdepth.isAt hle
  · intro other h
    have hdepth := hstart _ c.sourceCount_lt_depth
    unfold render at h
    split at h
    · cases h
    · next e out r hfailed =>
      cases h
      exact Rendering.renderInto_ne_unfinished hc hdepth.isFueled hdepth.isAt other _ hfailed
  · intro fuel outer call hfuel hmade
    exact hmade.isContained hc (hstart _ hfuel)

/-! ## Templates that embed each other -/

namespace Mutual

def files : FileSystem :=
  Siblings.filesOf [(['p'], "<@include('q')>".toList), (['q'], "@include('p')".toList)]

def cache : Cache := .new Sample.config files

def now : Moment := ⟨2024, 1, 1, 0, 0, 0⟩

theorem isSeparate : cache.IsSeparate where
  apart := Sample.isApart.congr (by decide +kernel)
  template := by decide
  artifact := by decide

def cycle? {α : Type} : Except Failure α → Option (List Text)
  | .error (.cycle chain) => some chain
  | _ => none

theorem eq_of_cycle? {α : Type} {x : Except Failure α} {chain : List Text}
    (h : cycle? x = some chain) : x = .error (.cycle chain) := by
  unfold cycle? at h
  split at h
  · cases h
    rfl
  · cases h

end Mutual

theorem Cache.isRendered_mutual :
    (Mutual.cache.render Mutual.now ['p'] []).1 = .error (.cycle [['p'], ['q'], ['p']]) ∧
      Mutual.cache.IsRendered Mutual.now ['p'] [] :=
  ⟨Mutual.eq_of_cycle? (by decide +kernel), Cache.isRendered Mutual.isSeparate _ _ _⟩

end Stencil
