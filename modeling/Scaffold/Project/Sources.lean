import Scaffold.Archive.Entry
import Scaffold.Attempt

/-!
# Sources

The generated sources of a project. Those of a directory are all files below it in the order of their
names, name by name, whatever order the directory lists them in.
-/

namespace Scaffold

/-- What gives the sources for settings. It leaves no line in the log. -/
structure Sources where
  entries : Settings → Attempt (List Entry)
  quiet : ∀ s, (entries s).lines = []

namespace Sources

instance : CoeFun Sources fun _ => Settings → Attempt (List Entry) where
  coe := entries

def javaRoot : String := "src/main/java"

def empty : Sources where
  entries _ := pure []
  quiet _ := rfl

def fixed (entries : List Entry) : Sources where
  entries _ := pure entries
  quiet _ := rfl

def nameLe (a b : Bytes) : Bool :=
  match a, b with
  | [], _ => true
  | _ :: _, [] => false
  | x :: a, y :: b => x < y || (x == y && nameLe a b)

def namesLe (a b : List Bytes) : Bool :=
  match a, b with
  | [], _ => true
  | _ :: _, [] => false
  | x :: a, y :: b => if x == y then namesLe a b else nameLe x y

def below (root : Path) (names : List Bytes) : Path :=
  names.foldl Path.join root

/-- The entry of one source file. Its names must be texts. -/
def entryAt (tree : FileTree) (root : Path) (names : List Bytes) : Except Error Entry := do
  let texts ←
    match names.mapM Text.decode? with
    | some texts => pure texts
    | none => .error (.sourceNameNotText (below root names))
  let content ← (tree.read (below root names)).mapError Error.file
  return ⟨"/".intercalate (javaRoot :: texts), content, none⟩

def filesBelow (node : Node) : List (List Bytes) :=
  node.leaves.mergeSort namesLe

/-- The entries of all files below a directory. Every directory among them is opened before the first file is read. -/
def collect (tree : FileTree) (root : Path) (node : Node) : Except Error (List Entry) := do
  node.dirs.forM fun names => (tree.openDir (below root names)).mapError Error.file
  (filesBelow node).mapM (entryAt tree root)

def directory (tree : FileTree) (root : Path) : Sources where
  entries _ := do
    match tree.find root with
    | .ok (.dir children) =>
      let entries ← Traced.ofExcept (collect tree root (.dir children))
      Traced.tell (.collected root entries.length)
      pure entries
    | _ => Traced.fail (.sourcesNotFound root)
  quiet _ := by
    split
    · rename_i children _
      rcases collect tree root (.dir children) with _ | entries
      · rfl
      · rfl
    · rfl

end Sources

end Scaffold
