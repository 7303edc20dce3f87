import Stencil.Proofs.Cache.Step
import Stencil.Proofs.Cache.Trail

/-!
# What a get looks at

A get asks about files before it keeps anything: whether a source is there, when
a file was changed, what is in it.  The questions are a program of their own,
whose next question may depend on every answer so far.  The result of a get
follows from the answers, and no other file has a part in it.
-/

namespace Stencil

/-! ## Questions -/

inductive Role where
  | template
  | artifact
deriving DecidableEq

inductive Aspect where
  | isFile
  | modified
  | text
deriving DecidableEq

def Aspect.Reply : Aspect → Type
  | .isFile => Bool
  | .modified => Option Int
  | .text => Except FileSystem.ReadFault Text

structure Question where
  role : Role
  path : Path
  aspect : Aspect
deriving DecidableEq

def FileSystem.answer (fs : FileSystem) : (q : Question) → q.aspect.Reply
  | ⟨_, p, .isFile⟩ => fs.isFile p
  | ⟨_, p, .modified⟩ => fs.modified? p
  | ⟨_, p, .text⟩ => fs.readText p

/-! ## Inquiries -/

/-- Questions, each of which may depend on the answers to those before it, and what comes of
them. -/
inductive Inquiry (α : Type) where
  | done (a : α)
  | ask (q : Question) (next : q.aspect.Reply → Inquiry α)

namespace Inquiry

variable {α β : Type}

def bind : Inquiry α → (α → Inquiry β) → Inquiry β
  | done a, f => f a
  | ask q next, f => ask q fun reply => (next reply).bind f

instance : Monad Inquiry where
  pure := done
  bind := bind

def result (fs : FileSystem) : Inquiry α → α
  | done a => a
  | ask q next => (next (fs.answer q)).result fs

def asked (fs : FileSystem) : Inquiry α → List Question
  | done _ => []
  | ask q next => q :: (next (fs.answer q)).asked fs

def Within (P : Question → Prop) : Inquiry α → Prop
  | done _ => True
  | ask q next => P q ∧ ∀ reply, (next reply).Within P

@[simp] theorem result_pure (fs : FileSystem) (a : α) : (pure a : Inquiry α).result fs = a := rfl

@[simp] theorem result_bind (fs : FileSystem) (i : Inquiry α) (f : α → Inquiry β) :
    (i >>= f).result fs = (f (i.result fs)).result fs := by
  induction i with
  | done a => rfl
  | ask q next ih => exact ih _

theorem within_pure (P : Question → Prop) (a : α) : (pure a : Inquiry α).Within P := trivial

theorem Within.bind {P : Question → Prop} {i : Inquiry α} {f : α → Inquiry β} (h : i.Within P)
    (hf : ∀ a, (f a).Within P) : (i >>= f).Within P := by
  induction i with
  | done a => exact hf a
  | ask q next ih => exact ⟨h.1, fun reply => ih reply (h.2 reply)⟩

theorem Within.asked {P : Question → Prop} {i : Inquiry α} (h : i.Within P) (fs : FileSystem) :
    ∀ q ∈ i.asked fs, P q := by
  induction i with
  | done a => simp [Inquiry.asked]
  | ask q next ih => exact List.forall_mem_cons.2 ⟨h.1, ih _ (h.2 _)⟩

theorem result_congr {i : Inquiry α} {fs fs' : FileSystem}
    (h : ∀ q ∈ i.asked fs, fs'.answer q = fs.answer q) : i.result fs' = i.result fs := by
  induction i with
  | done a => rfl
  | ask q next ih =>
      obtain ⟨hfirst, hrest⟩ := List.forall_mem_cons.1 h
      rw [result, result, hfirst]
      exact ih _ hrest

/-! ## Single questions -/

def isFile (role : Role) (p : Path) : Inquiry Bool := ask ⟨role, p, .isFile⟩ done

def modified (role : Role) (p : Path) : Inquiry (Option Int) := ask ⟨role, p, .modified⟩ done

def text (role : Role) (p : Path) : Inquiry (Except FileSystem.ReadFault Text) :=
  ask ⟨role, p, .text⟩ done

variable {fs : FileSystem} {role : Role} {p : Path}

@[simp] theorem result_isFile : (isFile role p).result fs = fs.isFile p := rfl

@[simp] theorem result_modified : (modified role p).result fs = fs.modified? p := rfl

@[simp] theorem result_text : (text role p).result fs = fs.readText p := rfl

/-! ## Freshness -/

def upToDate (source artifact : Path) (layouts : Option Int) : Inquiry Bool := do
  match ← modified .template source with
  | none => pure false
  | some changed =>
    match ← modified .artifact artifact with
    | none => pure false
    | some time => pure (changed ≤ time && layouts.all (· ≤ time))

def latest (c : Config) (time : Option Int) : List Text → Inquiry (Option (Option Int))
  | [] => pure (some time)
  | layout :: layouts =>
    match c.sourcePath layout with
    | .error _ => pure none
    | .ok source => do
      match ← modified .template source with
      | none => pure none
      | some changed => latest c (Build.later time (some changed)) layouts

def fresh (c : Config) (source artifact : Path) : Inquiry (Option Text) := do
  if ← upToDate source artifact none then
    match ← text .artifact artifact with
    | .error _ => pure none
    | .ok shown =>
      match ← latest c none (Artifact.dependencies shown) with
      | none => pure none
      | some layouts => if ← upToDate source artifact layouts then pure (some shown) else pure none
  else pure none

/-! ## Building -/

def document (c : Config) (name : Text) (missing : Failure) : Inquiry (Except Failure Reading) := do
  let path := c.sourceFile name
  let changed ← modified .template path
  match ← text .template path with
  | .ok source => pure (.ok ⟨name, .ofSource source, changed⟩)
  | .error .absent => pure (.error missing)
  | .error .unreadable => pure (.error (.unreadable path))

def follow (c : Config) :
    (fuel : Nat) → (earlier : List Text) → Reading → Inquiry (Except Failure (List Reading))
  | fuel, earlier, last =>
    match last.document.layout with
    | none => pure (.ok [last])
    | some layout =>
      let names := earlier ++ [last.name]
      let missing : Failure := .layoutNotFound last.name layout (c.sourceFile layout)
      if layout ∈ names then pure (.error (.cycle (names ++ [layout])))
      else if !isTemplateName layout then pure (.error missing)
      else
        match fuel with
        | 0 => pure (.error (.unfinished layout))
        | fuel + 1 => do
          match ← document c layout missing with
          | .error e => pure (.error e)
          | .ok next =>
            match ← follow c fuel names next with
            | .error e => pure (.error e)
            | .ok readings => pure (.ok (last :: readings))

def build (c : Config) (fuel : Nat) (name : Text) : Inquiry (Except Failure Build) := do
  match ← document c name (.templateNotFound name (c.sourceFile name)) with
  | .error e => pure (.error e)
  | .ok page =>
    match ← follow c fuel [] page with
    | .error e => pure (.error e)
    | .ok readings => pure (.ok (.ofChain readings))

/-! ## Getting -/

inductive Verdict where
  | fails (e : Failure)
  | shows (text : Text)
  | keeps (build : Build)

def get (c : Config) (fuel : Nat) (name : Text) : Inquiry Verdict :=
  match c.sourcePath name with
  | .error e => pure (.fails e)
  | .ok source => do
    if ← isFile .template source then
      match ← fresh c source (c.artifactPath name) with
      | some shown => pure (.shows shown)
      | none =>
        match ← build c fuel name with
        | .error e => pure (.fails e)
        | .ok built => pure (.keeps built)
    else pure (.fails (.templateNotFound name source))

end Inquiry

def Cache.settle (c : Cache) (name : Text) : Inquiry.Verdict → Except Failure Text × Cache
  | .fails e => (.error e, c)
  | .shows text => (.ok text, c)
  | .keeps build =>
    match c.keep name build with
    | (.error e, c) => (.error e, c)
    | (.ok (), c) => (.ok build.text, c)

/-! ## What comes of the questions -/

namespace Inquiry

variable {c : Config} {fs : FileSystem}

theorem result_upToDate (source artifact : Path) (layouts : Option Int) :
    (upToDate source artifact layouts).result fs =
      (fs.modified? artifact).any fun time =>
        notAfter fs source time && layouts.all (· ≤ time) := by
  unfold upToDate notAfter
  rw [result_bind, result_modified]
  cases fs.modified? source with
  | none => simp
  | some changed =>
      dsimp only
      rw [result_bind, result_modified]
      cases fs.modified? artifact <;> rfl

theorem later_all_le (time : Option Int) (changed bound : Int) :
    (Build.later time (some changed)).all (· ≤ bound) =
      (time.all (· ≤ bound) && decide (changed ≤ bound)) := by
  cases time with
  | none => rfl
  | some time =>
      rw [Build.later, Option.all_some, Option.all_some, ← Bool.decide_and]
      exact decide_eq_decide.2 Int.max_le

theorem any_result_latest (time : Option Int) (layouts : List Text) (bound : Int) :
    ((latest c time layouts).result fs).any (fun time => time.all (· ≤ bound)) =
      (time.all (· ≤ bound) && layouts.all fun layout =>
        isTemplateName layout && notAfter fs (c.sourceFile layout) bound) := by
  induction layouts generalizing time with
  | nil => simp [latest]
  | cons layout layouts ih =>
      unfold latest Config.sourcePath
      cases hname : isTemplateName layout with
      | false => simp [hname]
      | true =>
          rw [if_pos rfl]
          dsimp only
          rw [result_bind, result_modified, List.all_cons, hname, notAfter]
          cases fs.modified? (c.sourceFile layout) with
          | none => simp
          | some changed =>
              dsimp only
              rw [ih, later_all_le, Option.any_some, Bool.true_and, Bool.and_assoc]

theorem result_fresh (source artifact : Path) :
    (fresh c source artifact).result fs = c.freshText? fs source artifact := by
  unfold fresh Config.freshText?
  rw [result_bind, result_upToDate]
  cases hartifact : fs.modified? artifact with
  | none => rfl
  | some bound =>
      rw [Option.any_some, Option.all_none, Bool.and_true]
      dsimp only
      by_cases hsource : notAfter fs source bound = true
      swap
      · rw [if_neg hsource, if_neg hsource, result_pure]
      rw [if_pos hsource, if_pos hsource, result_bind, result_text]
      cases fs.readText artifact with
      | error fault => rfl
      | ok shown =>
          dsimp only
          have hlatest := @any_result_latest c fs none
            (Artifact.dependencies shown) bound
          rw [Option.all_none, Bool.true_and] at hlatest
          rw [← hlatest, result_bind]
          cases (latest c none (Artifact.dependencies shown)).result fs with
          | none => rfl
          | some layouts =>
              dsimp only
              rw [result_bind, result_upToDate, hartifact, Option.any_some, hsource, Bool.true_and,
                Option.any_some]
              split <;> rfl

theorem result_document (i : Nat) (name : Text) (missing : Failure) :
    (document c name missing).result fs = Reading.take c (fun _ => fs) i name missing := by
  unfold document Reading.take
  dsimp only
  rw [result_bind, result_modified, result_bind, result_text]
  rcases fs.readText (c.sourceFile name) with ⟨⟨⟩⟩ | source <;> rfl

theorem result_follow (fuel : Nat) (earlier : List Text) (last : Reading) :
    (follow c fuel earlier last).result fs =
      Reading.follow c (fun _ => fs) fuel earlier last := by
  induction fuel generalizing earlier last with
  | zero =>
      unfold follow Reading.follow
      cases last.document.layout with
      | none => rfl
      | some layout =>
          dsimp only
          split
          · rfl
          · split <;> rfl
  | succ fuel ih =>
      unfold follow Reading.follow
      cases last.document.layout with
      | none => rfl
      | some layout =>
          dsimp only
          split
          · rfl
          · split
            · rfl
            · rw [result_bind, result_document (earlier ++ [last.name]).length]
              cases Reading.take c (fun _ => fs) (earlier ++ [last.name]).length layout
                  (.layoutNotFound last.name layout (c.sourceFile layout)) with
              | error e => rfl
              | ok next =>
                  dsimp only
                  rw [result_bind, ih]
                  cases Reading.follow c (fun _ => fs) fuel (earlier ++ [last.name]) next <;> rfl

theorem result_build (fuel : Nat) (name : Text) :
    (build c fuel name).result fs = Build.onDisk c (fun _ => fs) fuel name := by
  unfold build Build.onDisk Reading.chain
  rw [result_bind, result_document 0]
  cases Reading.take c (fun _ => fs) 0 name (.templateNotFound name (c.sourceFile name)) with
  | error e => rfl
  | ok page =>
      dsimp only
      rw [result_bind, result_follow]
      cases Reading.follow c (fun _ => fs) fuel [] page <;> rfl

end Inquiry

theorem Cache.get_eq_settle (c : Cache) {fuel : Nat} (hfuel : c.files.entries.length ≤ fuel)
    (name : Text) :
    c.get name = c.settle name ((Inquiry.get c.config fuel name).result c.files) := by
  unfold get Inquiry.get
  cases hsource : c.config.sourcePath name with
  | error e => rfl
  | ok source =>
      have hname := (Config.sourcePath_eq_ok_iff.1 hsource).1
      dsimp only
      rw [Inquiry.result_bind, Inquiry.result_isFile]
      cases c.files.isFile source with
      | false => rfl
      | true =>
          rw [if_pos rfl, if_pos rfl, Inquiry.result_bind, Inquiry.result_fresh]
          cases c.config.freshText? c.files source (c.config.artifactPath name) with
          | some shown => rfl
          | none =>
              dsimp only
              rw [Inquiry.result_bind, Inquiry.result_build, Build.onDisk_eq_ofFiles hname hfuel]
              cases Build.ofFiles c.config c.files name <;> rfl

/-! ## What the questions are about -/

inductive Question.IsSource (c : Config) : Question → Prop
  | template {name : Text} {source : Path} {aspect : Aspect} (h : c.sourcePath name = .ok source) :
      IsSource c ⟨.template, source, aspect⟩

/-- Only sources of templates are taken for templates, and only the artifact of the name for an
artifact. -/
inductive Question.IsProper (c : Config) (name : Text) : Question → Prop
  | source {q : Question} (h : q.IsSource c) : IsProper c name q
  | artifact {aspect : Aspect} : IsProper c name ⟨.artifact, c.artifactPath name, aspect⟩

namespace Inquiry

variable {c : Config} {name other : Text} {source : Path}

theorem Within.mono {α : Type} {P Q : Question → Prop} {i : Inquiry α} (h : i.Within P)
    (hPQ : ∀ q, P q → Q q) : i.Within Q := by
  induction i with
  | done a => trivial
  | ask q next ih => exact ⟨hPQ q h.1, fun reply => ih reply (h.2 reply)⟩

theorem within_ask {P : Question → Prop} {role : Role} {p : Path} {aspect : Aspect}
    (h : P ⟨role, p, aspect⟩) : (ask ⟨role, p, aspect⟩ done).Within P := ⟨h, fun _ => trivial⟩

theorem within_upToDate (h : c.sourcePath other = .ok source) (layouts : Option Int) :
    (upToDate source (c.artifactPath name) layouts).Within (Question.IsProper c name) := by
  refine Within.bind (within_ask (.source (.template h))) fun changed => ?_
  split
  · exact within_pure ..
  · refine Within.bind (within_ask .artifact) fun time => ?_
    split <;> exact within_pure ..

theorem within_latest (time : Option Int) (layouts : List Text) :
    (latest c time layouts).Within (Question.IsSource c) := by
  induction layouts generalizing time with
  | nil => exact within_pure ..
  | cons layout layouts ih =>
      unfold latest
      split
      · exact within_pure ..
      · next source hsource =>
        refine Within.bind (within_ask (.template hsource)) fun changed => ?_
        split
        · exact within_pure ..
        · exact ih _

theorem within_fresh (h : c.sourcePath other = .ok source) :
    (fresh c source (c.artifactPath name)).Within (Question.IsProper c name) := by
  refine Within.bind (within_upToDate h none) fun upToDate => ?_
  split
  · refine Within.bind (within_ask .artifact) fun shown => ?_
    split
    · exact within_pure ..
    · refine Within.bind ((within_latest none _).mono fun _ => .source) fun layouts => ?_
      split
      · exact within_pure ..
      · refine Within.bind (within_upToDate h _) fun upToDate => ?_
        split <;> exact within_pure ..
  · exact within_pure ..

theorem within_document (h : isTemplateName name = true) (missing : Failure) :
    (document c name missing).Within (Question.IsSource c) := by
  have hsource : c.sourcePath name = .ok (c.sourceFile name) :=
    Config.sourcePath_eq_ok_iff.2 ⟨h, rfl⟩
  refine Within.bind (within_ask (.template hsource)) fun changed => ?_
  refine Within.bind (within_ask (.template hsource)) fun content => ?_
  split <;> exact within_pure ..

theorem within_follow (fuel : Nat) (earlier : List Text) (last : Reading) :
    (follow c fuel earlier last).Within (Question.IsSource c) := by
  induction fuel generalizing earlier last with
  | zero =>
      unfold follow
      split
      · exact within_pure ..
      · dsimp only
        split
        · exact within_pure ..
        · split <;> exact within_pure ..
  | succ fuel ih =>
      unfold follow
      split
      · exact within_pure ..
      · next layout _ =>
        dsimp only
        split
        · exact within_pure ..
        · split
          · exact within_pure ..
          · next hname =>
            have hvalid : isTemplateName layout = true := by simpa using hname
            refine Within.bind (within_document hvalid _) fun read => ?_
            split
            · exact within_pure ..
            · refine Within.bind (ih _ _) fun readings => ?_
              split <;> exact within_pure ..

theorem within_build (h : isTemplateName name = true) (fuel : Nat) :
    (build c fuel name).Within (Question.IsSource c) := by
  refine Within.bind (within_document h _) fun page => ?_
  split
  · exact within_pure ..
  · refine Within.bind (within_follow fuel _ _) fun readings => ?_
    split <;> exact within_pure ..

theorem within_get (c : Config) (fuel : Nat) (name : Text) :
    (get c fuel name).Within (Question.IsProper c name) := by
  unfold get
  split
  · exact within_pure ..
  · next source hsource =>
    have hname := (Config.sourcePath_eq_ok_iff.1 hsource).1
    refine Within.bind (within_ask (.source (.template hsource))) fun there => ?_
    split
    · refine Within.bind (within_fresh hsource) fun shown => ?_
      split
      · exact within_pure ..
      · refine Within.bind ((within_build hname fuel).mono fun _ => .source) fun built => ?_
        split <;> exact within_pure ..
    · exact within_pure ..

end Inquiry

end Stencil
