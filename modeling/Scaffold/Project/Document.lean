import Scaffold.Error

/-!
# OpenAPI documents

The description of an interface that goes into a project unread.
-/

namespace Scaffold

inductive DocumentFormat where
  | json
  | yaml
  deriving DecidableEq, Repr

def DocumentFormat.extension : DocumentFormat → String
  | .json => "json"
  | .yaml => "yaml"

/-- The form that an extension stands for: JSON, unless it names the other in any case. -/
def DocumentFormat.ofExtension (extension : Option Bytes) : DocumentFormat :=
  match extension.bind Text.decode? with
  | some text => if text.toLower = "yaml" || text.toLower = "yml" then .yaml else .json
  | none => .json

structure Document where
  format : DocumentFormat
  content : Bytes
  deriving DecidableEq, Repr

namespace Document

def load (tree : FileTree) (path : Path) : Except Error Document := do
  let content ← (tree.read path).mapError Error.file
  return ⟨.ofExtension path.extension?, content⟩

def archivePath (document : Document) : String :=
  s!"src/main/resources/META-INF/openapi.{document.format.extension}"

end Document

end Scaffold
