import Scaffold.CommandLine.Generate
import Scaffold.CommandLine.Init

/-!
# The program

What the program does with its arguments in a file tree: it says how it is used, or it runs a command,
which shows something, may change the tree, and may fail.
-/

namespace Scaffold.CommandLine

def listTemplates (flavor : Flavor) : List Output :=
  .header s!"quarkus-codegen templates: {flavor.name}" ::
    (Bundled.sizes flavor).map (fun (path, size) => .pair path (Size.format size)) ++ [.plain ""]

/-- What a command left behind: its output, the tree, and its report if it failed. -/
structure Run where
  output : List Output
  tree : FileTree
  failure : Option Report

def failureOf (result : Except Report α) : Option Report :=
  match result with
  | .ok _ => none
  | .error r => some r

def Invocation.run (codec : Codec) (tree : FileTree) (terminal : Terminal) (i : Invocation) : Run :=
  match i.command with
  | .init o =>
    let spoken := Init.run tree i.settingsFile o terminal
    ⟨spoken.trace, spoken.result.toOption.getD tree, failureOf spoken.result⟩
  | .generate o =>
    let (tree, spoken) := Generate.run codec tree i.settingsFile o
    ⟨spoken.trace, tree, failureOf spoken.result⟩
  | .templates flavor => ⟨listTemplates flavor, tree, none⟩

def Run.exitCode (r : Run) : Nat :=
  if r.failure.isNone then 0 else 1

def Run.text (moment : String) (verbosity : Nat) (r : Run) : String :=
  String.join ((r.output.filterMap (Output.text? moment verbosity)).map (· ++ "\n"))

def Run.reportText (r : Run) : String :=
  (r.failure.map Report.text).getD ""

end Scaffold.CommandLine
