import Scaffold.Archive.Writer
import Scaffold.Files.Tree
import Scaffold.Settings.Document
import Scaffold.Template.Problem

/-!
# Errors

Everything that can end a run, each with its cause where something else failed first.
-/

namespace Scaffold

inductive Error where
  | settingsNotFound (path : Path) (cause : FileError)
  | settingsUnreadable (path : Path) (document : Bytes) (cause : Json.Fault)
  | unknownFlavor (name : String)
  | invalidSettings (problem : SettingsProblem)
  | templateNotFound (path : String)
  | templateNotText (path : String) (cause : Text.Utf8Fault)
  | templateFailed (fault : Template.Fault)
  | sourcesNotFound (root : Path)
  | sourceNameNotText (path : Path)
  | entryLost (path : String) (cause : SinkError)
  | duplicateEntry (path : String)
  | file (cause : FileError)
  deriving DecidableEq, Repr

namespace Error

def message : Error → String
  | .settingsNotFound path _ => s!"config file not found at {path.display}"
  | .settingsUnreadable path _ _ => s!"failed to parse config at {path.display}"
  | .unknownFlavor name => s!"unknown flavor: {name} (supported: quarkus, jaxrs)"
  | .invalidSettings problem => s!"invalid settings: {problem.message}"
  | .templateNotFound path => s!"template resource not found: {path}"
  | .templateNotText path _ => s!"template {path} is not valid UTF-8"
  | .templateFailed fault => s!"template rendering failed: {fault.message}"
  | .sourcesNotFound root => s!"sources directory not found: {root.display}"
  | .sourceNameNotText path => s!"source path is not valid UTF-8: {path.display}"
  | .entryLost path _ => s!"failed to write archive entry {path}"
  | .duplicateEntry path => s!"duplicate archive entry: {path}"
  | .file cause => cause.message

/-- The cause of an error in words, where it has one besides itself. -/
def cause? : Error → Option String
  | .settingsNotFound _ cause => some cause.message
  | .settingsUnreadable _ document cause => some (cause.message document)
  | .templateNotText _ cause => some cause.message
  | .entryLost _ cause => some cause.message
  | _ => none

def ofWrite : WriteError → Error
  | .duplicate path => .duplicateEntry path
  | .sink path cause => .entryLost path cause

end Error

end Scaffold
