import Scaffold.CommandLine.Invocation
import Scaffold.CommandLine.Terminal

/-!
# Making a settings file

The command asks before it writes over a file, unless that is forced, and for the name of the project,
unless it is given. Nothing is written before all questions have answers and the settings are valid.
-/

namespace Scaffold.CommandLine.Init

def nextSteps : List Output :=
  [.plain "", .plain "  Next steps:",
   .plain "    quarkus-codegen generate --sources <generated-dir> --openapi <api.json> -o project.zip", .plain ""]

def answered (answer : Except NoAnswer α) : Spoken α :=
  Traced.ofExcept (answer.mapError NoAnswer.report)

/-- Whether the settings file may be written, and the terminal after the question. -/
def mayWrite (tree : FileTree) (path : Path) (force : Bool) (terminal : Terminal) : Spoken (Bool × Terminal) :=
  if tree.pathExists path && !force then answered terminal.confirm else pure (true, terminal)

def projectName (choices : Settings.Choices) (terminal : Terminal) : Spoken String :=
  match choices.projectName with
  | some name => pure name
  | none => do
    let (name, _) ← answered (terminal.line ({} : Settings).projectName)
    pure name

/-- The settings to write, or nothing when the file is to be left as it is. -/
def settings (tree : FileTree) (path : Path) (o : InitOptions) (terminal : Terminal) :
    Spoken (Option Settings) := do
  Spoken.put (.header "quarkus-codegen init")
  let (write, terminal) ← mayWrite tree path o.force terminal
  if write then
    let name ← projectName o.choices terminal
    let s := Settings.ofChoices { o.choices with projectName := some name }
    Spoken.ofExcept s.validate
    pure (some s)
  else
    Spoken.put (.warning "Left existing settings untouched")
    pure none

def summary (s : Settings) : Spoken Unit :=
  ⟨[.success s!"Settings for '{s.projectName}' written ({s.flavor.name} flavor)", .pair "groupId" s.groupId,
    .pair "artifactId" s.artifactId, .pair "package" s.javaPackage] ++ nextSteps, .ok ()⟩

def run (tree : FileTree) (path : Path) (o : InitOptions) (terminal : Terminal) : Spoken FileTree := do
  match ← settings tree path o terminal with
  | none => pure tree
  | some s =>
    Spoken.put (.step 1 1 s!"Writing {path.display}")
    let tree ← Spoken.ofExcept (s.save tree path)
    summary s
    pure tree

end Scaffold.CommandLine.Init
