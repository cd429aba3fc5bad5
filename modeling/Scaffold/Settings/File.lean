import Scaffold.Attempt

/-!
# Settings files

Settings kept in a file of a tree, and the settings of a run: those of the file, or the defaults where
there is none, with what was asked for besides.
-/

namespace Scaffold.Settings

def load (tree : FileTree) (path : Path) : Except Error Settings := do
  let text ← (tree.readText path).mapError (Error.settingsNotFound path)
  let document := Text.encode text
  (parse document).mapError (Error.settingsUnreadable path document)

def save (tree : FileTree) (path : Path) (s : Settings) : Except Error FileTree :=
  (tree.write path (Text.encode s.write)).mapError Error.file

def validate (s : Settings) : Except Error Unit :=
  match s.problem? with
  | some problem => .error (.invalidSettings problem)
  | none => .ok ()

structure Overrides where
  flavor : Option Flavor := none
  codeOnly : Bool := false
  updateOnly : Bool := false
  deriving DecidableEq, Repr

/-- Settings with what was asked for besides. A mode that the settings ask for stays. -/
def override (s : Settings) (o : Overrides) : Settings :=
  { s with
    flavor := o.flavor.getD s.flavor
    codeOnly := s.codeOnly || o.codeOnly
    updateOnly := s.updateOnly || o.updateOnly }

def resolve (tree : FileTree) (path : Path) (o : Overrides) : Attempt Settings :=
  if tree.pathExists path then Traced.ofExcept ((load tree path).map (override · o))
  else ⟨[.noSettings path], .ok (override {} o)⟩

structure Choices where
  projectName : Option String := none
  groupId : Option String := none
  artifactId : Option String := none
  javaPackage : Option String := none
  flavor : Flavor := .quarkus
  deriving DecidableEq, Repr

/-- New settings: what is given, and the defaults for the rest; the artifact is named after the project. -/
def ofChoices (c : Choices) : Settings :=
  let defaults : Settings := {}
  let projectName := c.projectName.getD defaults.projectName
  { defaults with
    projectName
    groupId := c.groupId.getD defaults.groupId
    artifactId := c.artifactId.getD projectName
    javaPackage := c.javaPackage.getD defaults.javaPackage
    flavor := c.flavor }

end Scaffold.Settings
