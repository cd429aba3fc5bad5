import Scaffold.Settings.Flavor
import Scaffold.Settings.JavaPackage
import Scaffold.Text.Blank

/-!
# Settings

The coordinates of a project and what a run is asked to produce.
-/

namespace Scaffold

structure Settings where
  projectName : String := "generated-api"
  groupId : String := "org.example"
  artifactId : String := "generated-api"
  version : String := "1.0.0-SNAPSHOT"
  javaPackage : String := "org.example.api"
  flavor : Flavor := .quarkus
  codeOnly : Bool := false
  updateOnly : Bool := false
  deriving DecidableEq, Repr

inductive SettingsProblem where
  | javaPackage (name : String)
  | artifactId
  deriving DecidableEq, Repr

def SettingsProblem.message : SettingsProblem → String
  | .javaPackage name => s!"java_package '{name}' is not a valid Java package name"
  | .artifactId => "artifact_id must not be empty"

namespace Settings

/-- The run makes a whole project, not only sources for one that exists. -/
def isFullProject (s : Settings) : Bool :=
  !s.codeOnly && !s.updateOnly

/-- The directory of the package below the root of the Java sources. -/
def packagePath (s : Settings) : String :=
  JavaPackage.path s.javaPackage

def problem? (s : Settings) : Option SettingsProblem :=
  if !JavaPackage.isValid s.javaPackage then some (.javaPackage s.javaPackage)
  else if s.artifactId.toList.all Text.isBlank then some .artifactId
  else none

end Settings

end Scaffold
