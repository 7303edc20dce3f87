import Stencil.Proofs.Cache.Inquiry
import Stencil.Proofs.View.Rendering

/-!
# Templates from within the view root

The name of a template leads down from the directory of the templates, by parts
of its own and to a file of its own.  Names come from callers, from layouts that
templates name, from records in artifacts and from templates that are embedded.
Whichever it was, a get or a render looks at no file as at a template whose path
is not that of a template name.
-/

namespace Stencil

/-! ## Paths of names -/

namespace Config

/-- Behind the directory of the templates come the parts of the name, the last of them with the
extension.  None of these is empty or leads elsewhere. -/
structure LeadsDown (c : Config) (name : Text) (source : Path) : Prop where
  isAbsolute : source.isAbsolute = c.viewRoot.isAbsolute
  parts : ∃ front last, Text.splitOn Path.slash name = front ++ [last] ∧
    source.parts = c.viewRoot.parts ++ (front ++ [last ++ '.' :: c.templateExtension]) ∧
    ∀ part ∈ front ++ [last ++ '.' :: c.templateExtension], IsPart part

variable {c : Config} {name : Text}

theorem leadsDown (h : checkExtension .templateExtension c.templateExtension = .ok ())
    (hname : isTemplateName name = true) : c.LeadsDown name (c.sourceFile name) := by
  have hslash := notMem_of_checkExtension h
  obtain ⟨front, last, hsplit⟩ := Text.exists_splitOn_eq_concat Path.slash name
  exact ⟨isAbsolute_sourceFile hname, front, last, hsplit, parts_sourceFile hname hsplit hslash,
    fun part => isPart_of_mem_named hname hsplit hslash (backslash_notMem_of_checkExtension h)⟩

theorem sourceFile_inj (hext : Path.slash ∉ c.templateExtension) {other : Text}
    (h : isTemplateName name = true) (hother : isTemplateName other = true)
    (hsame : (c.sourceFile name).same (c.sourceFile other) = true) : name = other := by
  obtain ⟨front, last, hsplit⟩ := Text.exists_splitOn_eq_concat Path.slash name
  obtain ⟨front', last', hsplit'⟩ := Text.exists_splitOn_eq_concat Path.slash other
  rw [Path.same, Bool.and_eq_true, beq_iff_eq, beq_iff_eq, parts_sourceFile h hsplit hext,
    parts_sourceFile hother hsplit' hext] at hsame
  obtain ⟨hfront, hlast⟩ := List.append_inj' (List.append_cancel_left hsame.2) rfl
  rw [← Text.join_splitOn Path.slash name, hsplit, hfront,
    List.append_cancel_right (List.singleton_inj.1 hlast), ← hsplit', Text.join_splitOn]

end Config

/-! ## Gets -/

structure Cache.LooksProperly (c : Cache) (name : Text) : Prop where
  proper : ∀ fuel, ∀ q ∈ (Inquiry.get c.config fuel name).asked c.files, q.IsProper c.config name
  settled : ∀ fuel, c.files.entries.length ≤ fuel →
    c.get name = c.settle name ((Inquiry.get c.config fuel name).result c.files)
  alone : ∀ fuel files, (∀ q, q.IsProper c.config name → files.answer q = c.files.answer q) →
    (Inquiry.get c.config fuel name).result files = (Inquiry.get c.config fuel name).result c.files

theorem Cache.looksProperly (c : Cache) (name : Text) : c.LooksProperly name := by
  have hproper : ∀ fuel, ∀ q ∈ (Inquiry.get c.config fuel name).asked c.files,
      q.IsProper c.config name := fun fuel =>
    (Inquiry.within_get c.config fuel name).asked c.files
  constructor
  · exact hproper
  · exact fun fuel hfuel => c.get_eq_settle hfuel name
  · exact fun fuel files h => Inquiry.result_congr fun q hq => h q (hproper fuel q hq)

/-! ## Renders -/

namespace Rendering

variable {r r' : Rendering} {name : Text} {program : Artifact.Program}

theorem config_enter (r : Rendering) (name : Text) :
    (r.enter name).2.cache.config = r.cache.config := by
  rcases henter : r.enter name with ⟨e | program, r'⟩
  · rw [(of_enter_error henter).1]
    exact r.cache.config_get name
  · rw [(of_enter_ok henter).1]
    exact r.cache.config_get name

open Artifact in
theorem config_renderInto (now : Moment) (fuel : Nat) (name : Text) (data : Context) (out : Text)
    (r : Rendering) :
    (final (renderInto now fuel name data (out, r))).2.cache.config = r.cache.config := by
  induction fuel generalizing name data out r with
  | zero => rfl
  | succ fuel ih =>
      have hentered := r.config_enter name
      rcases renderInto_cases now name data out r with ⟨-, hcycle⟩ |
        ⟨-, e, r', henter, hfailed⟩ | ⟨-, program, r', henter, hrun⟩
      · rw [hcycle fuel]
        rfl
      · rw [hfailed fuel]
        rwa [henter] at hentered
      · rw [henter] at hentered
        have hrecorded : program.IsRecorded now (embedder now fuel)
            (fun host => host.cache.config = r.cache.config) ⟨.ofData data, out, r'⟩ :=
          Program.isRecorded (fun _ _ _ _ _ hhost => (ih _ _ _ _).trans hhost) hentered
        rw [hrun fuel, final_left]
        exact hrecorded.ends

end Rendering

theorem Call.config_inner {now : Moment} {call inner : Call} (h : inner ∈ call.inner now) :
    inner.host.cache.config = call.host.cache.config := by
  obtain ⟨fuel, program, r, -, hprogram, q, hq, rfl⟩ := mem_inner_iff.1 h
  have hentered := call.host.config_enter call.name
  rw [(program?_eq_some_iff.1 hprogram).2] at hentered
  have hrecorded : program.IsRecorded now (Rendering.embedder now fuel)
      (fun host => host.cache.config = call.host.cache.config)
      ⟨.ofData call.data, call.out, r⟩ :=
    Artifact.Program.isRecorded
      (fun _ _ _ _ _ hhost => (Rendering.config_renderInto now fuel _ _ _ _).trans hhost) hentered
  exact (hrecorded.requests q hq).1

theorem Call.IsMade.config {now : Moment} {start call : Call} {outer : List Call}
    (h : IsMade now start outer call) :
    call.host.cache.config = start.host.cache.config := by
  induction h with
  | first => rfl
  | inner _ hinner ih => exact (config_inner hinner).trans ih

/-! ## No template from elsewhere -/

/-- Sources are files below the directory of the templates, one for each name, and nothing else is
looked at as a template. -/
structure Config.IsConfined (c : Config) : Prop where
  leadsDown : ∀ name source, c.sourcePath name = .ok source → c.LeadsDown name source
  below : ∀ (files : FileSystem) name source, c.sourcePath name = .ok source →
    ∃ inner, inner ≠ [] ∧ files.target source = inner ++ files.target c.viewRoot
  injective : ∀ name source other source', c.sourcePath name = .ok source →
    c.sourcePath other = .ok source' → source.same source' = true → name = other
  gets : ∀ cache : Cache, cache.config = c → ∀ name, cache.LooksProperly name
  renders : ∀ cache : Cache, cache.config = c → ∀ now fuel name data outer call,
    Call.IsMade now (.first cache fuel name data) outer call →
      call.host.cache.config = c ∧ call.host.cache.LooksProperly call.name

theorem Config.isConfined {c : Config}
    (h : checkExtension .templateExtension c.templateExtension = .ok ()) : c.IsConfined := by
  have hext := notMem_of_checkExtension h
  constructor
  · intro name source hsource
    obtain ⟨hname, rfl⟩ := sourcePath_eq_ok_iff.1 hsource
    exact leadsDown h hname
  · intro files name source hsource
    obtain ⟨hname, rfl⟩ := sourcePath_eq_ok_iff.1 hsource
    obtain ⟨front, last, hsplit⟩ := Text.exists_splitOn_eq_concat Path.slash name
    rw [target_sourceFile hname hext, namedPlace_eq hsplit, ← List.cons_append]
    exact ⟨_, List.cons_ne_nil _ _, rfl⟩
  · intro name source other source' hsource hother hsame
    obtain ⟨hname, rfl⟩ := sourcePath_eq_ok_iff.1 hsource
    obtain ⟨hname', rfl⟩ := sourcePath_eq_ok_iff.1 hother
    exact sourceFile_inj hext hname hname' hsame
  · exact fun cache _ name => cache.looksProperly name
  · intro cache hconfig now fuel name data outer call hmade
    exact ⟨hmade.config.trans hconfig, call.host.cache.looksProperly call.name⟩

theorem Config.isConfined_standard :
    checkExtension .templateExtension standard.templateExtension = .ok () ∧
      standard.IsConfined :=
  ⟨by decide, Config.isConfined (by decide)⟩

end Stencil
