import Scaffold.Pipeline.Basic
import Scaffold.Project.Sources
import Scaffold.Store.Bundled

/-!
# Layouts

The steps of each flavor. A whole application shares the steps of a plain project but its last, the
application class, and adds its own files after them.
-/

namespace Scaffold.Layout

def pomStep : String := "pom"

def sourcesStep : String := "sources"

def documentStep : String := "openapi-document"

def applicationStep : String := "application"

def extrasStep : String := "quarkus-extras"

/-- The path of the build file, in a project as in a store. -/
def pomPath : String := "pom.xml"

/-- The template of the application class, and its name in a package. -/
def applicationName : String := "JaxRsApplication.java"

def pom : StepBody := fun context _ => do
  if !context.settings.isFullProject then pure []
  else
    Attempt.note "Generating pom.xml"
    let text ← context.render pomPath
    pure [⟨pomPath, Text.encode text, none⟩]

def sources (sources : Sources) : StepBody := fun context _ => do
  Attempt.note "Generating JAX-RS interfaces and beans"
  sources context.settings

def document : StepBody := fun context _ => do
  match context.document with
  | none => pure []
  | some document =>
    if context.settings.updateOnly then pure []
    else
      Attempt.note "Generating OpenAPI document"
      pure [⟨document.archivePath, document.content, none⟩]

def applicationPath (s : Settings) : String :=
  s!"{Sources.javaRoot}/{s.packagePath}/{applicationName}"

def application : StepBody := fun context _ => do
  if context.settings.updateOnly then pure []
  else
    Attempt.note "Generating JAX-RS Application class"
    let text ← context.render applicationName
    pure [⟨applicationPath context.settings, Text.encode text, none⟩]

def jaxrs (provider : Sources) : Pipeline :=
  Pipeline.step {} pomStep pom
    |>.step sourcesStep (sources provider)
    |>.step documentStep document
    |>.step applicationStep application

/-! ## The files of a whole application -/

/-- The variants of the images. -/
def dockerVariants : List String := ["jvm", "legacy-jar", "native", "native-micro"]

def dockerPath (variant : String) : String :=
  s!"src/main/docker/Dockerfile.{variant}"

def propertiesPath : String := "src/main/resources/application.properties"

/-- The files that are copied after the properties. -/
def projectPaths : List String :=
  [".mvn/wrapper/.gitignore", ".mvn/wrapper/maven-wrapper.properties", ".mvn/wrapper/MavenWrapperDownloader.java",
   ".dockerignore", ".gitignore", "mvnw", "mvnw.cmd", "README.md"]

/-- The files that can be run. -/
def executablePaths : List String := ["mvnw"]

/-- The line of the properties that turns the scan for annotations off. -/
def scanDirective : String := "mp.openapi.scan.disable=true"

/-- Properties with the directive after them, on a line of its own. -/
def deriveProperties (text : String) : String :=
  text ++ "\n" ++ scanDirective ++ "\n"

/-- A template as it is, with the mode its path asks for. -/
def copyTemplate (store : Store) (path : String) : Attempt Entry := do
  let content ← store.load path
  pure (if path ∈ executablePaths then Entry.executable path content else ⟨path, content, none⟩)

def copyAll (store : Store) : List String → Attempt (List Entry)
  | [] => pure []
  | path :: rest => do
    let entry ← copyTemplate store path
    let more ← copyAll store rest
    pure (entry :: more)

def dockerPaths : List String :=
  dockerVariants.map dockerPath

/-- The files of a whole application, in order; none unless the project is made in full. -/
def extras (s : Settings) (store : Store) : Attempt (List Entry) := do
  if !s.isFullProject then pure []
  else
    Attempt.note "Generating Dockerfiles"
    let images ← copyAll store dockerPaths
    Attempt.note "Generating application.properties"
    let properties ← store.loadText propertiesPath
    let derived : Entry := ⟨propertiesPath, Text.encode (deriveProperties properties), none⟩
    Attempt.note "Generating project files"
    let files ← copyAll store projectPaths
    pure (images ++ derived :: files)

def quarkus (provider : Sources) : Pipeline :=
  (jaxrs provider).remove applicationStep
    |>.step extrasStep fun context _ => extras context.settings context.store

def ofFlavor : Flavor → Sources → Pipeline
  | .quarkus => quarkus
  | .jaxrs => jaxrs

end Scaffold.Layout
