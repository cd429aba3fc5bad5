/-!
# Java package names

A package name is a sequence of identifiers joined by points. Its directory has the same names joined
by separators.
-/

namespace Scaffold.JavaPackage

def reservedWords : List String :=
  ["_", "abstract", "assert", "boolean", "break", "byte", "case", "catch", "char", "class", "const",
   "continue", "default", "do", "double", "else", "enum", "extends", "false", "final", "finally", "float",
   "for", "goto", "if", "implements", "import", "instanceof", "int", "interface", "long", "native", "new",
   "null", "package", "private", "protected", "public", "return", "short", "static", "strictfp", "super",
   "switch", "synchronized", "this", "throw", "throws", "transient", "true", "try", "void", "volatile",
   "while"]

def isLetter (c : Char) : Bool :=
  ('a' ≤ c && c ≤ 'z') || ('A' ≤ c && c ≤ 'Z')

def isStart (c : Char) : Bool :=
  isLetter c || c == '_'

def isPart (c : Char) : Bool :=
  isStart c || ('0' ≤ c && c ≤ '9')

def isSegment (cs : List Char) : Bool :=
  match cs with
  | [] => false
  | c :: rest => isStart c && rest.all isPart && !reservedWords.contains (String.ofList cs)

def segments (name : String) : List (List Char) :=
  name.toList.splitOn '.'

def isValid (name : String) : Bool :=
  (segments name).all isSegment

/-- The directory of a package, with `/` between the names. -/
def path (name : String) : String :=
  String.ofList (name.toList.map fun c => if c = '.' then '/' else c)

end Scaffold.JavaPackage
