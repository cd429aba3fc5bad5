import Scaffold.CommandLine.Options
import Scaffold.Files.Path
import Scaffold.Settings.File

/-!
# Invocations

What the arguments of the program ask for: one of its commands, with the options that all of them have.
-/

namespace Scaffold.CommandLine

def programName : String := "quarkus-codegen"

def programVersion : String := "0.1.0"

def defaultSettingsFile : String := "quarkus-codegen.config.json"

structure InitOptions where
  choices : Settings.Choices
  force : Bool
  deriving DecidableEq, Repr

structure GenerateOptions where
  output : Path
  sources : Option Path := none
  openapi : Option Path := none
  templates : Option Path := none
  overrides : Settings.Overrides := {}
  force : Bool := false
  logFile : Option Path := none
  deriving DecidableEq, Repr

inductive Command where
  | init (options : InitOptions)
  | generate (options : GenerateOptions)
  | templates (flavor : Flavor)
  deriving DecidableEq, Repr

/-- A command with the settings file it uses and how much it reports. -/
structure Invocation where
  command : Command
  settingsFile : Path
  verbosity : Nat
  deriving DecidableEq, Repr

/-! ## Grammars -/

def anyText : Takes := .value fun _ => true

def somePath : Takes := .value fun s => s ≠ ""

def someFlavor : Takes := .value fun s => (Flavor.ofName? s).isSome

def commonOptions : List Opt :=
  [⟨"config", none, somePath⟩, ⟨"verbose", some 'v', .count⟩, ⟨"help", some 'h', .help⟩,
   ⟨"version", some 'V', .version⟩]

def helpCommand : String := "help"

def commandOptions : List (String × List Opt) :=
  [("init",
    [⟨"project-name", none, anyText⟩, ⟨"group-id", none, anyText⟩, ⟨"artifact-id", none, anyText⟩,
     ⟨"package", none, anyText⟩, ⟨"flavor", none, someFlavor⟩, ⟨"force", none, .nothing⟩]),
   ("generate",
    [⟨"output", some 'o', somePath⟩, ⟨"sources", none, somePath⟩, ⟨"openapi", none, somePath⟩,
     ⟨"templates", none, somePath⟩, ⟨"flavor", none, someFlavor⟩, ⟨"code-only", none, .nothing⟩,
     ⟨"update-only", none, .nothing⟩, ⟨"force", none, .nothing⟩, ⟨"log-file", none, somePath⟩]),
   ("templates", [⟨"flavor", none, someFlavor⟩])]

def commandNames : List String :=
  commandOptions.map (·.1)

def programGrammar : Grammar :=
  ⟨programName, commonOptions, commandNames ++ [helpCommand]⟩

def commandGrammar (name : String) : Grammar :=
  ⟨s!"{programName}-{name}", (commandOptions.lookup name).getD [] ++ commonOptions, []⟩

/-! ## Reading -/

/-- What asking for help gives: help about the program or about one of its commands. -/
def helpFor : List String → Usage
  | [] => .help
  | [name] => if programGrammar.commands.contains name then .help else .unknownCommand
  | _ => .unknownCommand

def Matches.flavor? (m : Matches) : Option Flavor :=
  (m.value? "flavor").bind Flavor.ofName?

def Matches.path? (m : Matches) (name : String) : Option Path :=
  (m.value? name).map Path.ofString

def commandOf (name : String) (m : Matches) : Except Usage Command :=
  if name = "init" then
    .ok (.init
      { choices :=
          { projectName := m.value? "project-name", groupId := m.value? "group-id"
            artifactId := m.value? "artifact-id", javaPackage := m.value? "package"
            flavor := m.flavor?.getD .quarkus }
        force := m.has "force" })
  else if name = "generate" then
    match m.path? "output" with
    | none => .error .missingRequired
    | some output =>
      .ok (.generate
        { output, sources := m.path? "sources", openapi := m.path? "openapi", templates := m.path? "templates"
          overrides :=
            { flavor := m.flavor?, codeOnly := m.has "code-only", updateOnly := m.has "update-only" }
          force := m.has "force", logFile := m.path? "log-file" })
  else .ok (.templates (m.flavor?.getD .quarkus))

/-- Reads the arguments of the program. What a command is given for a common option counts before what the
program is given for it. -/
def read (arguments : List String) : Except Usage Invocation := do
  match ← readArguments programGrammar {} false arguments with
  | (m, none) => do
    let m ← m.settle
    .error (if m.isEmpty then .noCommand else .missingCommand)
  | (m, some (name, rest)) => do
    if name = helpCommand then .error (helpFor rest)
    let (own, _) ← readArguments (commandGrammar name) {} false rest
    let own ← own.settle
    let command ← commandOf name own
    let m ← m.settle
    return {
      command
      settingsFile := ((own.path? "config").or (m.path? "config")).getD (Path.ofString defaultSettingsFile)
      verbosity := if own.count = 0 then m.count else own.count }

end Scaffold.CommandLine
