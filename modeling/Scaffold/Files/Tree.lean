import Scaffold.Files.Path

/-!
# File trees

A file tree and the operations a program performs on it by path. Paths are resolved name by name from
the working directory: a directory must exist before a name in it is looked up, and symbolic links are
followed, at most forty on one way. Operations fail with the error of the first step that cannot be
taken and then leave the tree as it was; only directories made on the way to others stay.
-/

namespace Scaffold

inductive FileError where
  | notFound
  | exists
  | notDirectory
  | isDirectory
  | nameTooLong
  | tooManyLinks
  | nulInPath
  | notText
  deriving DecidableEq, Repr

def FileError.message : FileError → String
  | .notFound => "No such file or directory (os error 2)"
  | .exists => "File exists (os error 17)"
  | .notDirectory => "Not a directory (os error 20)"
  | .isDirectory => "Is a directory (os error 21)"
  | .nameTooLong => "File name too long (os error 36)"
  | .tooManyLinks => "Too many levels of symbolic links (os error 40)"
  | .nulInPath => "file name contained an unexpected NUL byte"
  | .notText => "stream did not contain valid UTF-8"

inductive Node where
  | file (content : Bytes)
  | link (target : Path)
  | dir (entries : List (Bytes × Node))
  deriving Repr, Inhabited

namespace Node

def isDir : Node → Bool
  | .dir _ => true
  | _ => false

def entries : Node → List (Bytes × Node)
  | .dir entries => entries
  | _ => []

def get? : List Bytes → Node → Option Node
  | [], node => some node
  | name :: rest, node => (node.entries.lookup name).bind (get? rest)

def setEntry (name : Bytes) (node : Node) : List (Bytes × Node) → List (Bytes × Node)
  | [] => [(name, node)]
  | (n, old) :: rest => if n = name then (name, node) :: rest else (n, old) :: setEntry name node rest

/-- Puts a node at the given names; directories on the way that are missing are made. -/
def set (node : Node) : List Bytes → Node → Node
  | [], new => new
  | name :: rest, new =>
    .dir (setEntry name (((node.entries.lookup name).getD (.dir [])).set rest new) node.entries)

mutual

/-- The names and the content of every regular file, each with the names on the way to it. -/
def regularFiles : Node → List (List Bytes × Bytes)
  | .file content => [([], content)]
  | .link _ => []
  | .dir entries => regularFilesIn entries

/-- `regularFiles` for the entries of a directory. -/
def regularFilesIn : List (Bytes × Node) → List (List Bytes × Bytes)
  | [] => []
  | (name, node) :: rest =>
    (regularFiles node).map (fun (names, content) => (name :: names, content)) ++ regularFilesIn rest

end

mutual

/-- The names on the way to everything that is no directory; links are not followed. -/
def leaves : Node → List (List Bytes)
  | .file _ => [[]]
  | .link _ => [[]]
  | .dir entries => leavesIn entries

/-- `leaves` for the entries of a directory. -/
def leavesIn : List (Bytes × Node) → List (List Bytes)
  | [] => []
  | (name, node) :: rest => (leaves node).map (name :: ·) ++ leavesIn rest

end

mutual

/-- The names on the way to every directory, the node itself included; links are not followed. -/
def dirs : Node → List (List Bytes)
  | .file _ => []
  | .link _ => []
  | .dir entries => [] :: dirsIn entries

/-- `dirs` for the entries of a directory. -/
def dirsIn : List (Bytes × Node) → List (List Bytes)
  | [] => []
  | (name, node) :: rest => (dirs node).map (name :: ·) ++ dirsIn rest

end

end Node

/-- A file tree with a working directory, given by its names from the root. -/
structure FileTree where
  root : Node
  cwd : List Bytes
  deriving Repr

/-- Where a path leads: to a directory, or to a name in one under which there may be something. The
names of the directory are listed from the inside out. -/
inductive Spot where
  | dir (names : List Bytes)
  | entry (parent : List Bytes) (name : Bytes) (node : Option Node) (slash : Bool)
  deriving Repr

namespace FileTree

/-- The longest name, in bytes. -/
def maxName : Nat := 255

/-- The longest path, in bytes. -/
def maxPath : Nat := 4095

/-- The most links that are followed on one way. -/
def maxLinks : Nat := 40

/-- Walks along `pending` from the directory `here`, whose names are listed from the inside out. A link
at the end is followed when `follow` holds or a separator comes after it. -/
def walk (root : Node) (follow : Bool) (links : Nat) (here pending : List Bytes) (slash : Bool) :
    Except FileError Spot :=
  match pending with
  | [] => .ok (.dir here)
  | name :: rest =>
    if name = Path.self then walk root follow links here rest slash
    else if name = Path.up then walk root follow links here.tail rest slash
    else if maxName < name.length then .error .nameTooLong
    else
      match root.get? (name :: here).reverse with
      | none => if rest.isEmpty then .ok (.entry here name none slash) else .error .notFound
      | some (.dir _) => walk root follow links (name :: here) rest slash
      | some (.file content) =>
        if rest.isEmpty then .ok (.entry here name (some (.file content)) slash) else .error .notDirectory
      | some (.link target) =>
        if rest.isEmpty && !follow && !slash then .ok (.entry here name (some (.link target)) slash)
        else
          match links with
          | 0 => .error .tooManyLinks
          | links + 1 =>
            walk root follow links (if target.isAbsolute then [] else here) (target.names ++ rest)
              (slash || rest.isEmpty && target.endsInSeparator)
termination_by (links, pending.length)

def locate (tree : FileTree) (follow : Bool) (path : Path) : Except FileError Spot :=
  if 0 ∈ path then .error .nulInPath
  else if path.isEmpty then .error .notFound
  else if maxPath < path.length then .error .nameTooLong
  else
    walk tree.root follow maxLinks (if path.isAbsolute then [] else tree.cwd.reverse) path.names
      path.endsInSeparator

def find (tree : FileTree) (path : Path) : Except FileError Node := do
  match ← tree.locate true path with
  | .dir names =>
    match tree.root.get? names.reverse with
    | some node => return node
    | none => .error .notFound
  | .entry _ _ none _ => .error .notFound
  | .entry _ _ (some node) slash => if slash then .error .notDirectory else return node

def pathExists (tree : FileTree) (path : Path) : Bool :=
  (tree.find path).isOk

def isDirectory (tree : FileTree) (path : Path) : Bool :=
  match tree.find path with
  | .ok node => node.isDir
  | .error _ => false

def read (tree : FileTree) (path : Path) : Except FileError Bytes := do
  match ← tree.find path with
  | .file content => return content
  | .dir _ => .error .isDirectory
  | .link _ => .error .tooManyLinks

/-- Opens a directory to list what is in it. -/
def openDir (tree : FileTree) (path : Path) : Except FileError Unit := do
  match ← tree.find path with
  | .dir _ => return ()
  | _ => .error .notDirectory

def readText (tree : FileTree) (path : Path) : Except FileError String := do
  match Text.decode (← tree.read path) with
  | .ok text => return text
  | .error _ => .error .notText

/-- Writes a file, which is made if need be. Directories are not. -/
def write (tree : FileTree) (path : Path) (content : Bytes) : Except FileError FileTree := do
  match ← tree.locate (!path.endsInSeparator) path with
  | .dir _ => .error .isDirectory
  | .entry parent name _ slash =>
    if slash then .error .isDirectory
    else return { tree with root := tree.root.set (name :: parent).reverse (.file content) }

def makeDir (tree : FileTree) (path : Path) : Except FileError FileTree := do
  match ← tree.locate false path with
  | .entry parent name none _ =>
    return { tree with root := tree.root.set (name :: parent).reverse (.dir []) }
  | _ => .error .exists

/-- The path and its parents, innermost first, up to the first that exists or can be made at once. -/
def missingDirs (tree : FileTree) : Nat → Path → Except FileError (List Path)
  | 0, _ => .ok []
  | fuel + 1, path =>
    match path.parent? with
    | none => .ok []
    | some parent =>
      match tree.makeDir path with
      | .ok _ => .ok [path]
      | .error .notFound => do return path :: (← missingDirs tree fuel parent)
      | .error .exists => if tree.isDirectory path then .ok [] else .error .exists
      | .error e => .error e

/-- Makes directories in order, each unless it is there already, up to the first that cannot be made. What
was made before a failure stays. -/
def makeEach (tree : FileTree) : List Path → FileTree × Except FileError Unit
  | [] => (tree, .ok ())
  | dir :: rest =>
    match tree.makeDir dir with
    | .ok tree => makeEach tree rest
    | .error .exists => if tree.isDirectory dir then makeEach tree rest else (tree, .error .exists)
    | .error e => (tree, .error e)

/-- Makes a directory and those of its parents that are missing. -/
def makeDirs (tree : FileTree) (path : Path) : FileTree × Except FileError Unit :=
  match tree.missingDirs (path.length + 1) path with
  | .error e => (tree, .error e)
  | .ok missing => tree.makeEach missing.reverse

end FileTree

end Scaffold
