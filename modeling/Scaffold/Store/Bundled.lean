import Scaffold.Bundled.Build
import Scaffold.Bundled.Docker
import Scaffold.Bundled.Notes
import Scaffold.Bundled.Plain
import Scaffold.Bundled.Wrapper
import Scaffold.Store.Basic

/-!
# Bundled templates

The templates every program has with it, in one table per flavor.
-/

namespace Scaffold.Bundled

/-- The templates of a flavor by their paths, in order. -/
def table : Flavor → List (String × String)
  | .jaxrs => [("pom.xml", plainPom), ("JaxRsApplication.java", applicationClass)]
  | .quarkus =>
    [("pom.xml", pom), ("src/main/docker/Dockerfile.jvm", dockerJvm),
     ("src/main/docker/Dockerfile.legacy-jar", dockerLegacyJar), ("src/main/docker/Dockerfile.native", dockerNative),
     ("src/main/docker/Dockerfile.native-micro", dockerNativeMicro),
     ("src/main/resources/application.properties", properties), (".mvn/wrapper/.gitignore", wrapperIgnore),
     (".mvn/wrapper/maven-wrapper.properties", wrapperProperties),
     (".mvn/wrapper/MavenWrapperDownloader.java", wrapperDownloader), (".dockerignore", dockerIgnore),
     (".gitignore", ignore), ("mvnw", script), ("mvnw.cmd", windowsScript), ("README.md", readme)]

def paths (flavor : Flavor) : List String :=
  (table flavor).map (·.1)

/-- The paths of the templates of a flavor with their sizes in bytes. -/
def sizes (flavor : Flavor) : List (String × Nat) :=
  (table flavor).map fun (path, text) => (path, text.utf8ByteSize)

def store (flavor : Flavor) : Store where
  load path :=
    match (table flavor).lookup path with
    | some text => pure (Text.encode text)
    | none => Traced.fail (.templateNotFound path)
  quiet path := by split <;> rfl

end Scaffold.Bundled
