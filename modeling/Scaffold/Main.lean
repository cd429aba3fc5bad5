import Scaffold.CommandLine.Program

/-!
# The executable

Brings the files that a command names into a tree, runs the command there, and writes back the files that
changed.
-/

namespace Scaffold.Executable

open CommandLine

/-- The names of a path in the file system, from the root. -/
def namesAt (cwd : List Bytes) (path : Path) : List Bytes :=
  (path.names.foldl
    (fun here name => if name = Path.self then here else if name = Path.up then here.tail else name :: here)
    (if path.isAbsolute then [] else cwd.reverse)).reverse

def textAt (names : List Bytes) : String :=
  "/" ++ "/".intercalate (names.map Text.display)

/-- What is in the file system at names from the root, directories with all that is below them if `deep`
holds. -/
partial def nodeAt (deep : Bool) (names : List Bytes) : IO (Option Node) := do
  let path := (← IO.currentDir) / textAt names
  if ← path.isDir then
    if deep then
      let entries ← (← path.readDir).toList.mapM fun entry => do
        let name := Text.encode entry.fileName
        return (← nodeAt true (names ++ [name])).map (name, ·)
      return some (.dir (entries.filterMap id))
    else return some (.dir [])
  else if ← path.pathExists then return some (.file (← IO.FS.readBinFile path).toList)
  else return none

/-- Brings what is at names, and the directories on the way, into a tree. -/
def bring (deep : Bool) (root : Node) (names : List Bytes) : IO Node := do
  let mut root := root
  for n in List.range names.length do
    let here := names.take (n + 1)
    let last := n + 1 == names.length
    if (root.get? here).isNone || (last && deep) then
      match ← nodeAt (deep && last) here with
      | some node => root := root.set here node
      | none => pure ()
  return root

/-- The paths that a command uses, and whether all below them is used. -/
def pathsOf (i : Invocation) : List (Path × Bool) :=
  match i.command with
  | .init _ => [(i.settingsFile, false)]
  | .generate o =>
    (o.sources.map (·, true)).toList ++ (o.templates.map (·, true)).toList ++
      ([i.settingsFile, o.output] ++ o.openapi.toList ++ o.logFile.toList).map (·, false)
  | .templates _ => []

def treeFor (i : Invocation) : IO FileTree := do
  let cwd := (Path.ofString (← IO.currentDir).toString).names
  let mut root := Node.dir []
  for (path, deep) in (i.settingsFile, false) :: pathsOf i do
    root ← bring deep root (namesAt cwd path)
  return ⟨root, cwd⟩

/-- Writes the files of a tree that are not the same in another. -/
def writeBack (old new : FileTree) : IO Unit := do
  for (names, content) in new.root.regularFiles do
    let unchanged :=
      match old.root.get? names with
      | some (.file before) => before == content
      | _ => false
    if !unchanged then
      IO.FS.createDirAll (textAt names.dropLast)
      IO.FS.writeBinFile (textAt names) (ByteArray.mk content.toArray)

/-- Runs a command; lines are read as long as questions have no answer. A line of one character is one
key. -/
partial def runAt (i : Invocation) (tree : FileTree) (terminal : Terminal) : IO Run := do
  let r := i.run Codec.stored tree terminal
  match terminal with
  | .absent => return r
  | .typed keys =>
    if r.failure = some NoAnswer.keysEnded.report then
      let line ← (← IO.getStdin).getLine
      let fresh := if line.length = 2 then line.toList.take 1 else line.toList
      if line.isEmpty then return r else runAt i tree (.typed (keys ++ fresh))
    else return r

def run (arguments : List String) : IO UInt32 := do
  match CommandLine.read arguments with
  | .error u =>
    let said := match u with
      | .version program => s!"{program} {programVersion}"
      | u => u.message
    if u.exitCode = 0 then IO.println said else IO.eprintln said
    return UInt32.ofNat u.exitCode
  | .ok i =>
    let tree ← treeFor i
    let terminal := if ← (← IO.getStdin).isTty then Terminal.typed [] else Terminal.absent
    let r ← runAt i tree terminal
    writeBack tree r.tree
    let now ← IO.monoMsNow
    IO.print (r.text s!"{now}ms" i.verbosity)
    IO.eprint r.reportText
    return UInt32.ofNat r.exitCode

end Scaffold.Executable

def main (arguments : List String) : IO UInt32 :=
  Scaffold.Executable.run arguments
