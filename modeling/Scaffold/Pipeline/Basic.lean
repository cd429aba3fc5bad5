import Scaffold.Project.Document
import Scaffold.Store.Basic
import Scaffold.Template.Context

/-!
# Pipelines

A project is made by named steps in order. A step reads the context and the log so far; it gives entries or an
error, and lines that go to the end of the log. The entries of a step are written before the next one starts,
and the first failure ends the run.
-/

namespace Scaffold

structure StepContext where
  settings : Settings
  store : Store
  document : Option Document := none

abbrev StepBody := StepContext → Log → Attempt (List Entry)

structure Step where
  name : String
  body : StepBody

structure Pipeline where
  steps : List Step := []

namespace StepContext

def render (context : StepContext) (path : String) : Attempt String := do
  let source ← context.store.loadText path
  Traced.ofExcept ((Template.render source (Template.context context.settings)).mapError Error.templateFailed)

end StepContext

namespace Pipeline

def names (p : Pipeline) : List String :=
  p.steps.map (·.name)

def contains (p : Pipeline) (name : String) : Bool :=
  p.steps.any (·.name == name)

def replaceIn (name : String) (body : StepBody) : List Step → List Step
  | [] => []
  | step :: rest =>
    if step.name = name then { step with body } :: rest else step :: replaceIn name body rest

/-- The pipeline with another body for the step of a name, if there is one. -/
def replace (p : Pipeline) (name : String) (body : StepBody) : Pipeline :=
  ⟨replaceIn name body p.steps⟩

/-- The pipeline with a step: in the place of the one with its name, or else at the end. -/
def step (p : Pipeline) (name : String) (body : StepBody) : Pipeline :=
  if p.contains name then p.replace name body else ⟨p.steps ++ [⟨name, body⟩]⟩

def remove (p : Pipeline) (name : String) : Pipeline :=
  ⟨p.steps.filter (·.name != name)⟩

@[simp] theorem contains_iff (p : Pipeline) (name : String) : p.contains name = true ↔ name ∈ p.names := by
  simp [contains, names]

private theorem map_name_replaceIn (name : String) (body : StepBody) (steps : List Step) :
    (replaceIn name body steps).map Step.name = steps.map Step.name := by
  induction steps with
  | nil => rfl
  | cons step rest ih =>
    rw [replaceIn]
    split
    · rfl
    · rw [List.map_cons, ih, List.map_cons]

/-- A step with another body keeps its place and its name. -/
@[simp] theorem names_replace (p : Pipeline) (name : String) (body : StepBody) :
    (p.replace name body).names = p.names :=
  map_name_replaceIn name body p.steps

/-- A step whose name is there keeps its place, and another one comes last. -/
@[simp] theorem names_step (p : Pipeline) (name : String) (body : StepBody) :
    (p.step name body).names = if name ∈ p.names then p.names else p.names ++ [name] := by
  by_cases h : name ∈ p.names
  · rw [step, if_pos ((contains_iff p name).mpr h), if_pos h, names_replace]
  · rw [step, if_neg (fun hc => h ((contains_iff p name).mp hc)), if_neg h]
    exact List.map_append

@[simp] theorem names_remove (p : Pipeline) (name : String) :
    (p.remove name).names = p.names.filter (· != name) := by
  simp only [names, remove, List.filter_map]
  rfl

/-- The events of the entries that were written, when as many as `count` were. -/
def written (entries : List Entry) (count : Nat) : List Event :=
  (entries.take count).map fun e => .wrote e.path e.content.length

def runSteps (codec : Codec) (context : StepContext) (w : Writer) (log : Log) : List Step → Writer × Attempt Unit
  | [] => (w, pure ())
  | step :: rest =>
    let attempt := step.body context log
    let events := .step step.name :: attempt.trace
    match attempt.result with
    | .error e => (w, ⟨events, .error e⟩)
    | .ok entries =>
      let old := w.accepted.length
      match w.writeAll codec entries with
      | (w, .error e) => (w, ⟨events ++ written entries (w.accepted.length - old), .error (Error.ofWrite e)⟩)
      | (w, .ok ()) =>
        let (w, more) := runSteps codec context w (attempt.logAfter log) rest
        (w, ⟨events ++ written entries entries.length ++ more.trace, more.result⟩)

/-- Runs all steps on an archive and a log, to which their lines are added. -/
def run (codec : Codec) (p : Pipeline) (context : StepContext) (w : Writer) (log : Log) : Writer × Attempt Unit :=
  runSteps codec context w log p.steps

end Pipeline

/-- A finished project: its archive, and the paths in it. The log is that of the attempt it comes from. -/
structure Project where
  archive : Bytes
  entries : List String
  deriving DecidableEq, Repr

/-- Makes a project in memory. Nothing is made from settings with a problem, nor when a step fails. -/
def Pipeline.generate (codec : Codec) (p : Pipeline) (context : StepContext) : Attempt Project :=
  match context.settings.problem? with
  | some problem => Traced.fail (.invalidSettings problem)
  | none =>
    let (w, attempt) := p.run codec context {} {}
    attempt.andThen fun _ =>
      match w.finish codec with
      | .error e => Traced.fail (Error.ofWrite e)
      | .ok archive => ⟨[.finished w.paths.length archive.length], .ok ⟨archive, w.paths⟩⟩

end Scaffold
