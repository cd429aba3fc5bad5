import Scaffold.Text.Utf8
import Scaffold.Text.Quoted

/-!
# Faults of JSON documents

What can be wrong with a document, in words, and where: a fault keeps the part of the document that
was not read yet, and its place is counted from what came before that part.
-/

namespace Scaffold.Json

/-- What a value of the wrong kind turned out to be. -/
inductive Found where
  | null
  | bool (b : Bool)
  | whole (n : Int)
  | float (text : String)
  | string (s : String)
  | array
  | object
  deriving DecidableEq, Repr

def Found.describe : Found → String
  | .null => "null"
  | .bool b => s!"boolean `{b}`"
  | .whole n => s!"integer `{n}`"
  | .float text => s!"floating point `{text}`"
  | .string s => "string " ++ Text.quote s
  | .array => "sequence"
  | .object => "map"

inductive Cause where
  | endOfValue
  | endOfList
  | endOfObject
  | endOfString
  | expectedColon
  | expectedListEnd
  | expectedObjectEnd
  | expectedWord
  | expectedValue
  | invalidEscape
  | invalidNumber
  | outOfRange
  | invalidCodePoint
  | controlCharacter
  | keyMustBeString
  | loneSurrogate
  | endOfHexEscape
  | trailingComma
  | trailingCharacters
  | tooDeep
  | duplicateField (name : String)
  | wrongKind (found : Found) (expected : String)
  | unknownVariant (name : String) (known : String)
  deriving DecidableEq, Repr

def Cause.message : Cause → String
  | .endOfValue => "EOF while parsing a value"
  | .endOfList => "EOF while parsing a list"
  | .endOfObject => "EOF while parsing an object"
  | .endOfString => "EOF while parsing a string"
  | .expectedColon => "expected `:`"
  | .expectedListEnd => "expected `,` or `]`"
  | .expectedObjectEnd => "expected `,` or `\x7d`"
  | .expectedWord => "expected ident"
  | .expectedValue => "expected value"
  | .invalidEscape => "invalid escape"
  | .invalidNumber => "invalid number"
  | .outOfRange => "number out of range"
  | .invalidCodePoint => "invalid unicode code point"
  | .controlCharacter => "control character (\\u0000-\\u001F) found while parsing a string"
  | .keyMustBeString => "key must be a string"
  | .loneSurrogate => "lone leading surrogate in hex escape"
  | .endOfHexEscape => "unexpected end of hex escape"
  | .trailingComma => "trailing comma"
  | .trailingCharacters => "trailing characters"
  | .tooDeep => "recursion limit exceeded"
  | .duplicateField name => s!"duplicate field `{name}`"
  | .wrongKind found expected => "invalid type: " ++ found.describe ++ ", expected " ++ expected
  | .unknownVariant name known => s!"unknown variant `{name}`, expected {known}"

/-- A cause and the part of the document after the place where it was noticed. -/
structure Fault where
  cause : Cause
  rest : Bytes
  deriving DecidableEq, Repr

/-- The fault of a byte that was looked at but not taken. -/
def Fault.atNext (cause : Cause) (rest : Bytes) : Fault :=
  ⟨cause, rest.drop 1⟩

/-- A place in a document: lines count from one, columns are the bytes of the line so far. -/
structure Place where
  line : Nat
  column : Nat
  deriving DecidableEq, Repr

def Place.step (place : Place) (b : UInt8) : Place :=
  if b = 0x0A then ⟨place.line + 1, 0⟩ else ⟨place.line, place.column + 1⟩

def Place.after (text : Bytes) : Place :=
  text.foldl Place.step ⟨1, 0⟩

def Fault.place (fault : Fault) (document : Bytes) : Place :=
  Place.after (document.take (document.length - fault.rest.length))

def Fault.message (fault : Fault) (document : Bytes) : String :=
  let place := fault.place document
  s!"{fault.cause.message} at line {place.line} column {place.column}"

end Scaffold.Json
