import Scaffold.Text.Utf8

/-!
# Entries

The files of a project as they go into its archive.
-/

namespace Scaffold

/-- One file: its path below the root of the project, its content, and the permissions it asks for. -/
structure Entry where
  path : String
  content : Bytes
  mode : Option UInt32 := none
  deriving DecidableEq, Repr

namespace Entry

/-- The permissions of a file that asks for none. -/
def plainMode : UInt32 := 0o644

def executableMode : UInt32 := 0o755

def executable (path : String) (content : Bytes) : Entry :=
  ⟨path, content, some executableMode⟩

/-- The mode an entry has in an archive: a regular file with the permission bits it asks for. -/
def unixMode (e : Entry) : Nat :=
  0o100000 + (e.mode.getD plainMode).toNat % 0o1000

end Entry

end Scaffold
