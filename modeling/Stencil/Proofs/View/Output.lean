import Stencil.Proofs.Artifact.Appending
import Stencil.Proofs.Artifact.Output
import Stencil.Proofs.Text.Html
import Stencil.Proofs.View.Rendering

/-!
# What a render puts out

The output of a render is a sequence of segments.  Each is a text of a program
that ran, for the template of the render or for one that is embedded at some
distance, or the printed form of a value, escaped.  So the data come into the
output as values that such a program prints, and have no meaning in markup there.
What was in the output before is still there, and makes no difference.
-/

namespace Stencil

open Stencil.Artifact

/-! ## Behind any output -/

namespace Rendering

theorem appendAlike_left {out out' : Text} {x y : EStateM.Result Failure (Run Rendering) Unit}
    (h : AppendAlike Eq out out' (effects x) (effects y)) :
    AppendAlike Eq out out' (left x) (left y) := by
  rcases endAlike_effects_cases h with ⟨r, r', rfl, rfl, hend, hhost⟩ | ⟨e, r, r', rfl, rfl, hend⟩
  · exact .ok ⟨hend, congrArg leave hhost⟩
  · exact .error hend

theorem onlyAppends_embedder (now : Moment) (fuel : Nat) : (embedder now fuel).OnlyAppends Eq := by
  -- each template that is embedded has less fuel than the one around it
  induction fuel with
  | zero =>
      rintro name scope out out' r _ rfl
      exact .error (appends_refl out out' r r)
  | succ fuel ih =>
      rintro name scope out out' r _ rfl
      unfold embedder renderInto
      dsimp only
      by_cases hmem : name ∈ r.stack
      · rw [if_pos hmem, if_pos hmem]
        exact .error (appends_refl out out' r r)
      · rw [if_neg hmem, if_neg hmem]
        rcases r.enter name with ⟨e | program, r'⟩
        · exact .error (appends_refl out out' r' r')
        · exact appendAlike_left (program.onlyAppends_run now ih (.ofData scope.flatten) rfl)

end Rendering

/-! ## What a call shows -/

namespace Call

variable {now : Moment} {call inner made : Call} {outer : List Call}

def Shows (now : Moment) (call : Call) (t : Text) : Prop :=
  ∃ outer made program r, IsMade now call outer made ∧ made.program? = some (program, r) ∧
    Writes now program.items t

theorem IsMade.within (hinner : inner ∈ call.inner now) (h : IsMade now inner outer made) :
    IsMade now call (call :: outer) made := by
  induction h with
  | first => exact .inner .first hinner
  | inner _ hother ih => exact .inner ih hother

theorem Shows.within (hinner : inner ∈ call.inner now) {t : Text} (h : inner.Shows now t) :
    call.Shows now t := by
  obtain ⟨outer, made, program, r, hmade, hprogram, hwrites⟩ := h
  exact ⟨call :: outer, made, program, r, hmade.within hinner, hprogram, hwrites⟩

theorem fst_final_left (x : EStateM.Result Failure (Run Rendering) Unit) :
    (final (Rendering.left x)).1 = (final x).out := by
  cases x <;> rfl

theorem continues (now : Moment) (call : Call) :
    Continues (call.Shows now) call.out (final (call.result now)).1 := by
  obtain ⟨fuel, name, data, out, host⟩ := call
  -- each template that is embedded has less fuel than the one around it
  induction fuel generalizing name data out host with
  | zero => exact .refl _ _
  | succ fuel ih =>
      unfold result
      dsimp only
      rcases Rendering.renderInto_cases now name data out host with ⟨-, hcycle⟩ |
        ⟨-, e, r, -, hfailed⟩ | ⟨hnew, program, r, henter, hrun⟩
      · rw [hcycle fuel]
        exact .refl _ _
      · rw [hfailed fuel]
        exact .refl _ _
      · have hprogram : (⟨fuel + 1, name, data, out, host⟩ : Call).program? = some (program, r) :=
          program?_eq_some_iff.2 ⟨hnew, henter⟩
        rw [hrun fuel, fst_final_left]
        have hembed : ∀ q : Request Rendering,
            Continues (Shows now ⟨fuel, q.name, q.scope.flatten, q.out, q.host⟩) q.out
              (final (q.answer (Rendering.embedder now fuel))).1 :=
          fun q => ih q.name q.scope.flatten q.out q.host
        refine (program.continues now _ hembed ⟨.ofData data, out, r⟩).mono fun s hs => ?_
        rcases hs with hwrites | ⟨q, hq, hshows⟩
        · exact ⟨[], _, program, r, .first, hprogram, hwrites⟩
        · exact hshows.within (mem_inner_iff.2 ⟨fuel, program, r, rfl, hprogram, q, hq, rfl⟩)

end Call

/-! ## A render -/

/-- Each segment is a text of a program that ran for a call, or the printed form of a value that
the program prints, escaped. -/
inductive Call.IsSegment (now : Moment) (start : Call) (s : Text) : Prop
  | literal {outer : List Call} {call : Call} {program : Program} {r : Rendering}
      (hmade : IsMade now start outer call) (hprogram : call.program? = some (program, r))
      (htext : .text s ∈ program.items)
  | value {outer : List Call} {call : Call} {program : Program} {r : Rendering}
      {interpolation : Interpolation} {scope : Scope}
      (hmade : IsMade now start outer call) (hprogram : call.program? = some (program, r))
      (hecho : .echo interpolation ∈ program.items)
      (hvalue : s = Html.escape (interpolation.eval now scope.lookup).display)
      (hescaped : Html.IsEscaped s)

theorem Call.Shows.isSegment {now : Moment} {start : Call} {s : Text} (h : start.Shows now s) :
    start.IsSegment now s := by
  obtain ⟨outer, call, program, r, hmade, hprogram, hwrites⟩ := h
  cases hwrites with
  | literal htext => exact .literal hmade hprogram htext
  | value hecho scope => exact .value hmade hprogram hecho rfl (Html.isEscaped_escape _)

theorem Cache.render_segments {c : Cache} {now : Moment} {name : Text} {data : Context} {out : Text}
    (h : (c.render now name data).1 = .ok out) :
    ∃ segments : List Text, out = segments.flatten ∧
      ∀ s ∈ segments, (Call.first c c.depth name data).IsSegment now s := by
  have hcontinues := Call.continues now (.first c c.depth name data)
  unfold render at h
  unfold Call.result at hcontinues
  split at h
  · next shown r hresult =>
    cases h
    dsimp only [Call.first] at hcontinues
    rw [hresult] at hcontinues
    obtain ⟨segments, hout, hsegments⟩ := hcontinues
    exact ⟨segments, hout, fun s hs => (hsegments s hs).isSegment⟩
  · cases h

/-! ## A list of names -/

namespace Listed

def page : Text := "<ul>@foreach($xs as $x)@include('i')@endforeach</ul>".toList

def item : Text := "<li>{{ $x }}</li>".toList

def cache : Cache := .new Sample.config (Siblings.filesOf [(['p'], page), (['i'], item)])

def data : Context := [(['x', 's'], .array [.string "<b>".toList, .string "R&D".toList])]

def shown : Text := "<ul><li>&lt;b&gt;</li><li>R&amp;D</li></ul>".toList

theorem render_page : (cache.render Mutual.now ['p'] data).1 = .ok shown :=
  Siblings.eq_ok_of_toOption (by decide +kernel)

end Listed

theorem Cache.render_segments_listed :
    (Listed.cache.render Mutual.now ['p'] Listed.data).1 = .ok Listed.shown ∧
      ∃ segments : List Text, Listed.shown = segments.flatten ∧ ∀ s ∈ segments,
        (Call.first Listed.cache Listed.cache.depth ['p'] Listed.data).IsSegment Mutual.now s :=
  ⟨Listed.render_page, Cache.render_segments Listed.render_page⟩

end Stencil
