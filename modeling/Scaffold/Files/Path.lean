import Scaffold.Text.Utf8

/-!
# Paths

A path is a string of bytes in which `/` separates names. A name may hold any other byte, so a path
need not be a text.
-/

namespace Scaffold

abbrev Path := Bytes

namespace Path

def separator : UInt8 := 0x2F

def self : Bytes := [0x2E]

/-- The name of a directory's parent in it. -/
def up : Bytes := [0x2E, 0x2E]

def ofString (s : String) : Path := Text.encode s

def display (p : Path) : String := Text.display p

def isAbsolute (p : Path) : Bool :=
  p.head? == some separator

/-- The path ends in a separator, so it can only name a directory. -/
def endsInSeparator (p : Path) : Bool :=
  p.getLast? == some separator

def names (p : Path) : List Bytes :=
  (p.splitOn separator).filter (· ≠ [])

/-- `inner` as seen from the directory `p`. -/
def join (p inner : Path) : Path :=
  if inner.isAbsolute || p.isEmpty then inner
  else if p.endsInSeparator then p ++ inner
  else p ++ separator :: inner

/-- A piece between separators that adds nothing to the path before it. -/
def isIdle (piece : Bytes) : Bool :=
  piece == [] || piece == self

/-- The pieces of a path up to its last name. Idle pieces after it are left out, but the first piece of
a relative path counts: a leading `.` is a name of its own. -/
def pieces (p : Path) : List Bytes :=
  match p.splitOn separator with
  | [] => []
  | first :: rest =>
    let kept := (rest.reverse.dropWhile isIdle).reverse
    if first == [] && kept.isEmpty then [] else first :: kept

/-- The path of the directory that holds the last name, if the path has a name. -/
def parent? (p : Path) : Option Path :=
  match p.pieces with
  | [] => none
  | first :: rest =>
    match rest.reverse with
    | [] => some []
    | _ :: before =>
      let kept := (before.dropWhile isIdle).reverse
      some (if first == [] && kept.isEmpty then [separator] else [separator].intercalate (first :: kept))

/-- The last name of a path, unless the path ends in `.` alone or in `..`. -/
def fileName? (p : Path) : Option Bytes :=
  match p.pieces.reverse with
  | [] => none
  | name :: _ => if name == up || name == self then none else some name

/-- What follows the last point of the last name, unless the name starts with that point. -/
def extension? (p : Path) : Option Bytes := do
  let name ← p.fileName?
  match name.reverse.splitOn 0x2E with
  | last :: before :: more => if more.isEmpty && before.isEmpty then none else some last.reverse
  | _ => none

end Path

end Scaffold
