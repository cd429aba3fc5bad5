import Scaffold.CommandLine.Invocation
import Scaffold.CommandLine.Output
import Scaffold.Digest
import Scaffold.Pipeline.Layout
import Scaffold.Size

/-!
# Making a project

The project is made in memory first; files are only written once that has succeeded, the archive before
the log.
-/

namespace Scaffold.CommandLine.Generate

def within (context : String) (result : Except FileError α) : Except Report α :=
  result.mapError fun e => Report.because context ⟨e.message, []⟩

def mode? (s : Settings) : Option String :=
  if s.codeOnly then some "code only" else if s.updateOnly then some "update only" else none

def settings (tree : FileTree) (path : Path) (o : GenerateOptions) : Spoken Settings := do
  Spoken.put (.step 1 3 "Loading settings")
  let s ← Spoken.ofAttempt (Settings.resolve tree path o.overrides)
  Spoken.put (.pair "Flavor" s.flavor.name)
  Spoken.put (.pair "Package" s.javaPackage)
  match mode? s with
  | some mode => Spoken.put (.pair "Mode" mode)
  | none => pure ()
  pure s

def document (tree : FileTree) (o : GenerateOptions) : Spoken (Option Document) :=
  match o.openapi with
  | none => pure none
  | some path =>
    Traced.ofExcept <|
      match Document.load tree path with
      | .ok document => .ok (some document)
      | .error e => .error (Report.because s!"failed to read OpenAPI document {path.display}" (Report.ofError e))

def sources (tree : FileTree) (o : GenerateOptions) : Spoken Sources :=
  match o.sources with
  | some root => pure (Sources.directory tree root)
  | none => do
    Spoken.put (.warning "No --sources given; the project will contain no API sources")
    pure Sources.empty

/-- The templates of a flavor, under those that were asked for. -/
def store (tree : FileTree) (flavor : Flavor) (o : GenerateOptions) : Store :=
  match o.templates with
  | some root => Store.overlay (Store.directory tree root) (Bundled.store flavor)
  | none => Bundled.store flavor

/-- A project with the log of the run that made it. -/
structure Made where
  project : Project
  log : Log

def make (codec : Codec) (tree : FileTree) (path : Path) (o : GenerateOptions) : Spoken Made := do
  Spoken.put (.header "quarkus-codegen generate")
  if tree.pathExists o.output && !o.force then
    Traced.fail ⟨s!"{o.output.display} already exists (use --force to overwrite)", []⟩
  else
    let s ← settings tree path o
    let document ← document tree o
    let sources ← sources tree o
    Spoken.put (.step 2 3 "Assembling project")
    let attempt := (Layout.ofFlavor s.flavor sources).generate codec ⟨s, store tree s.flavor o, document⟩
    let project ← Spoken.ofAttempt attempt
    ⟨attempt.lines.map Output.item, .ok ()⟩
    pure ⟨project, attempt.log⟩

def makeParent (tree : FileTree) (output : Path) : FileTree × Except Report Unit :=
  match output.parent? with
  | none => (tree, .ok ())
  | some [] => (tree, .ok ())
  | some parent =>
    let (tree, result) := tree.makeDirs parent
    (tree, within s!"failed to create {parent.display}" result)

def writeFile (tree : FileTree) (path : Path) (content : Bytes) : Except Report FileTree :=
  within s!"failed to write {path.display}" (tree.write path content)

/-- Writes the archive, and then the log if it was asked for. The tree is what is left also after a
failure. -/
def write (tree : FileTree) (made : Made) (o : GenerateOptions) : FileTree × Except Report Unit :=
  match makeParent tree o.output with
  | (tree, .error r) => (tree, .error r)
  | (tree, .ok ()) =>
    match writeFile tree o.output made.project.archive with
    | .error r => (tree, .error r)
    | .ok tree =>
      match o.logFile with
      | none => (tree, .ok ())
      | some path =>
        match writeFile tree path (Text.encode made.log.render) with
        | .error r => (tree, .error r)
        | .ok tree => (tree, .ok ())

def sizeKey : String := "Size"

def digestKey : String := "SHA-256"

def summary (project : Project) : List Output :=
  [.success "Project archive complete", .pair "Entries" (toString project.entries.length),
   .pair sizeKey (Size.format project.archive.length), .pair digestKey (Digest.sha256 project.archive)]

def run (codec : Codec) (tree : FileTree) (path : Path) (o : GenerateOptions) : FileTree × Spoken Unit :=
  let made := make codec tree path o
  match made.result with
  | .error r => (tree, ⟨made.trace, .error r⟩)
  | .ok m =>
    let announced := made.trace ++ [.step 3 3 s!"Writing {o.output.display}"]
    match write tree m o with
    | (tree, .error r) => (tree, ⟨announced, .error r⟩)
    | (tree, .ok ()) => (tree, ⟨announced ++ summary m.project, .ok ()⟩)

end Scaffold.CommandLine.Generate
