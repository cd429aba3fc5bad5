import Scaffold.Json.Skip
import Scaffold.Settings.Basic

/-!
# Settings documents

Settings as a JSON document. They are written as an object with all fields in order; they are read from
an object with any of the fields in any order, or from a list of the fields in order. Fields that are
missing have their defaults, and members with other names are checked and skipped.
-/

namespace Scaffold.Settings

open Json

inductive Field where
  | projectName
  | groupId
  | artifactId
  | version
  | javaPackage
  | flavor
  | codeOnly
  | updateOnly
  deriving DecidableEq, Repr

namespace Field

def all : List Field :=
  [.projectName, .groupId, .artifactId, .version, .javaPackage, .flavor, .codeOnly, .updateOnly]

def name : Field → String
  | .projectName => "project_name"
  | .groupId => "group_id"
  | .artifactId => "artifact_id"
  | .version => "version"
  | .javaPackage => "java_package"
  | .flavor => "flavor"
  | .codeOnly => "code_only"
  | .updateOnly => "update_only"

def ofName? (s : String) : Option Field :=
  all.find? fun field => field.name == s

end Field

/-! ## Writing -/

def writeChar (c : Char) : List Char :=
  if c = '"' then ['\\', '"']
  else if c = '\\' then ['\\', '\\']
  else if c = '\x08' then ['\\', 'b']
  else if c = '\x0c' then ['\\', 'f']
  else if c = '\n' then ['\\', 'n']
  else if c = '\r' then ['\\', 'r']
  else if c = '\t' then ['\\', 't']
  else if c.toNat < 0x20 then ['\\', 'u'] ++ Text.hexDigits c.toNat 4
  else [c]

def writeString (s : String) : List Char :=
  '"' :: s.toList.flatMap writeChar ++ ['"']

def writeBool (b : Bool) : List Char :=
  (if b then "true" else "false").toList

def writeField (s : Settings) : Field → List Char
  | .projectName => writeString s.projectName
  | .groupId => writeString s.groupId
  | .artifactId => writeString s.artifactId
  | .version => writeString s.version
  | .javaPackage => writeString s.javaPackage
  | .flavor => writeString s.flavor.name
  | .codeOnly => writeBool s.codeOnly
  | .updateOnly => writeBool s.updateOnly

def writeMember (s : Settings) (field : Field) : List Char :=
  [' ', ' '] ++ writeString field.name ++ [':', ' '] ++ writeField s field

def write (s : Settings) : String :=
  String.ofList
    (['{', '\n'] ++ [',', '\n'].intercalate (Field.all.map (writeMember s)) ++ ['\n', '}'])

/-! ## Reading -/

def wrongKind (found : Found) (expected : String) (rest : Bytes) : Fault :=
  ⟨.wrongKind found expected, rest⟩

def wrongNumber (n : Number) (expected : String) (rest : Bytes) : Fault :=
  match n with
  | .whole n => wrongKind (.whole n) expected rest
  | .float x => wrongKind (.float (Decimal.floatText Decimal.jsonStyle x)) expected rest

/-- The fault of a result, or else the fault made from what was read. -/
def faultOr (result : Except Fault α) (make : α → Fault) : Fault :=
  match result with
  | .ok a => make a
  | .error fault => fault

/-- The fault of a value that starts with `b` where something else is expected: what is wrong in the
value itself, or else its kind. Lists and objects are not read. -/
def unexpected (b : UInt8) (rest : Bytes) (expected : String) : Fault :=
  if b = ascii 'n' then faultOr (readWord nullTail rest) (wrongKind .null expected)
  else if b = ascii 't' then faultOr (readWord trueTail rest) (wrongKind (.bool true) expected)
  else if b = ascii 'f' then faultOr (readWord falseTail rest) (wrongKind (.bool false) expected)
  else if b = ascii '-' then faultOr (readNumber true rest) fun (n, rest) => wrongNumber n expected rest
  else if isDigit b then faultOr (readNumber false (b :: rest)) fun (n, rest) => wrongNumber n expected rest
  else if b = ascii '"' then faultOr (readString rest) fun (s, rest) => wrongKind (.string s) expected rest
  else if b = ascii '[' then wrongKind .array expected (b :: rest)
  else if b = ascii '{' then wrongKind .object expected (b :: rest)
  else ⟨.expectedValue, rest⟩

def readStringValue (expected : String) (rest : Bytes) : Except Fault (String × Bytes) :=
  match skipSpace rest with
  | [] => .error ⟨.endOfValue, []⟩
  | b :: rest => if b = ascii '"' then readString rest else .error (unexpected b rest expected)

def readBoolValue (rest : Bytes) : Except Fault (Bool × Bytes) :=
  match skipSpace rest with
  | [] => .error ⟨.endOfValue, []⟩
  | b :: rest =>
    if b = ascii 't' then (readWord trueTail rest).map (true, ·)
    else if b = ascii 'f' then (readWord falseTail rest).map (false, ·)
    else .error (unexpected b rest "a boolean")

def readNullValue (rest : Bytes) : Except Fault Bytes :=
  match skipSpace rest with
  | [] => .error ⟨.endOfValue, []⟩
  | b :: rest => if b = ascii 'n' then readWord nullTail rest else .error (unexpected b rest "unit")

def readColon (rest : Bytes) : Except Fault Bytes :=
  match skipSpace rest with
  | [] => .error ⟨.endOfObject, []⟩
  | b :: rest => if b = ascii ':' then .ok rest else .error ⟨.expectedColon, rest⟩

/-- The flavor of a name that ends before `rest`. -/
def flavorOf (name : String) (rest : Bytes) : Except Fault (Flavor × Bytes) :=
  match Flavor.ofName? name with
  | some flavor => .ok (flavor, rest)
  | none => .error ⟨.unknownVariant name "`quarkus` or `jaxrs`", rest⟩

/-- Reads a flavor: its name, or an object with the name of the flavor for its only member, which is
null. -/
def readFlavorValue (rest : Bytes) : Except Fault (Flavor × Bytes) :=
  match skipSpace rest with
  | [] => .error ⟨.endOfValue, []⟩
  | b :: rest =>
    if b = ascii '"' then do
      let (name, rest) ← readString rest
      flavorOf name rest
    else if b = ascii '{' then do
      let (name, rest) ← readStringValue "variant identifier" rest
      let (flavor, rest) ← flavorOf name rest
      let rest ← readColon rest
      let rest ← readNullValue rest
      match skipSpace rest with
      | [] => .error ⟨.endOfObject, []⟩
      | b :: more => if b = ascii '}' then .ok (flavor, more) else .error ⟨.expectedValue, b :: more⟩
    else .error ⟨.expectedValue, rest⟩

def readField (s : Settings) (field : Field) (rest : Bytes) : Except Fault (Settings × Bytes) :=
  match field with
  | .projectName => do let (v, rest) ← readStringValue "a string" rest; return ({ s with projectName := v }, rest)
  | .groupId => do let (v, rest) ← readStringValue "a string" rest; return ({ s with groupId := v }, rest)
  | .artifactId => do let (v, rest) ← readStringValue "a string" rest; return ({ s with artifactId := v }, rest)
  | .version => do let (v, rest) ← readStringValue "a string" rest; return ({ s with version := v }, rest)
  | .javaPackage => do let (v, rest) ← readStringValue "a string" rest; return ({ s with javaPackage := v }, rest)
  | .flavor => do let (v, rest) ← readFlavorValue rest; return ({ s with flavor := v }, rest)
  | .codeOnly => do let (v, rest) ← readBoolValue rest; return ({ s with codeOnly := v }, rest)
  | .updateOnly => do let (v, rest) ← readBoolValue rest; return ({ s with updateOnly := v }, rest)

/-- Reads fields in order from a list, up to its closing bracket. -/
def readListed (s : Settings) (first : Bool) : List Field → Bytes → Except Fault (Settings × Bytes)
  | [], rest => .ok (s, rest)
  | field :: fields, rest =>
    match skipSpace rest with
    | [] => .error ⟨.endOfList, []⟩
    | b :: more =>
      if b = ascii ']' then .ok (s, b :: more)
      else if first then do
        let (s, rest) ← readField s field (b :: more)
        readListed s false fields rest
      else if b = ascii ',' then
        match skipSpace more with
        | [] => .error ⟨.endOfValue, []⟩
        | c :: more =>
          if c = ascii ']' then .error ⟨.trailingComma, more⟩
          else do
            let (s, rest) ← readField s field (c :: more)
            readListed s false fields rest
      else .error ⟨.expectedListEnd, more⟩

def readListEnd (rest : Bytes) : Except Fault Bytes :=
  match skipSpace rest with
  | [] => .error ⟨.endOfList, []⟩
  | b :: more =>
    if b = ascii ']' then .ok more
    else if b = ascii ',' then
      match skipSpace more with
      | [] => .error ⟨.trailingCharacters, []⟩
      | c :: after => .error ⟨if c = ascii ']' then .trailingComma else .trailingCharacters, after⟩
    else .error ⟨.trailingCharacters, more⟩

/-- The rest after the closing bracket of an object, if it comes next. -/
def afterObjectEnd (rest : Bytes) : Bytes :=
  match skipSpace rest with
  | [] => []
  | b :: more => if b = ascii '}' then more else b :: more

/-- Goes on to the next name of an object and past its opening quote, or past the closing bracket. -/
def nextName (first : Bool) (rest : Bytes) : Except Fault (Bool × Bytes) :=
  match skipSpace rest with
  | [] => .error ⟨.endOfObject, []⟩
  | b :: more =>
    if b = ascii '}' then .ok (false, more)
    else if first then
      if b = ascii '"' then .ok (true, more) else .error ⟨.keyMustBeString, more⟩
    else if b = ascii ',' then
      match skipSpace more with
      | [] => .error ⟨.endOfValue, []⟩
      | c :: more =>
        if c = ascii '"' then .ok (true, more)
        else if c = ascii '}' then .error ⟨.trailingComma, more⟩
        else .error ⟨.keyMustBeString, more⟩
    else .error ⟨.expectedObjectEnd, more⟩

/-- Reads one member after the opening quote of its name; `seen` are the fields that have a value. A
field that comes twice is noticed at its second name, and the closing bracket of the object counts to the
place if it comes next. -/
def readMember (s : Settings) (seen : List Field) (rest : Bytes) :
    Except Fault (Settings × List Field × Bytes) := do
  let (name, rest) ← readString rest
  match Field.ofName? name with
  | none => do
    let rest ← readColon rest
    let rest ← skipValue rest
    return (s, seen, rest)
  | some field =>
    if seen.contains field then .error ⟨.duplicateField field.name, afterObjectEnd rest⟩
    else do
      let rest ← readColon rest
      let (s, rest) ← readField s field rest
      return (s, field :: seen, rest)

/-- Reads members up to the closing bracket of an object; `fuel` bounds their number. -/
def readMembers : Nat → Settings → List Field → Bool → Bytes → Except Fault (Settings × Bytes)
  | 0, _, _, _, rest => .error ⟨.endOfObject, rest⟩
  | fuel + 1, s, seen, first, rest => do
    let (more, rest) ← nextName first rest
    if more then
      let (s, seen, rest) ← readMember s seen rest
      readMembers fuel s seen false rest
    else return (s, rest)

/-- Reads settings. Every member takes at least one byte. -/
def readSettings (rest : Bytes) : Except Fault (Settings × Bytes) :=
  match skipSpace rest with
  | [] => .error ⟨.endOfValue, []⟩
  | b :: more =>
    if b = ascii '[' then do
      let (s, rest) ← readListed {} true Field.all more
      let rest ← readListEnd rest
      return (s, rest)
    else if b = ascii '{' then readMembers (more.length + 1) {} [] true more
    else .error (unexpected b more "struct GenerationSettings")

def parse (document : Bytes) : Except Fault Settings := do
  let (s, rest) ← readSettings document
  match skipSpace rest with
  | [] => return s
  | _ :: rest => .error ⟨.trailingCharacters, rest⟩

end Scaffold.Settings
