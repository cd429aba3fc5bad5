import Scaffold.Json.Skip

/-!
# Reading JSON values

A whole document as a value. Lists and objects may nest 127 deep.
-/

namespace Scaffold.Json

/-- Reads items separated by commas up to the closing bracket; `fuel` bounds their number and `seen`
holds those read so far, last first. -/
def readItems (item : Bytes → Except Fault (Json × Bytes)) :
    Nat → List Json → Bytes → Except Fault (List Json × Bytes)
  | 0, _, rest => .error ⟨.endOfList, rest⟩
  | fuel + 1, seen, rest => do
    let (value, rest) ← item rest
    match skipSpace rest with
    | [] => .error ⟨.endOfList, []⟩
    | b :: rest =>
      if b = ascii ']' then return ((value :: seen).reverse, rest)
      else if b = ascii ',' then readItems item fuel (value :: seen) rest
      else .error ⟨.expectedListEnd, rest⟩

/-- Reads members separated by commas up to the closing bracket; `fuel` bounds their number and `seen`
holds those read so far, last first. -/
def readMembers (item : Bytes → Except Fault (Json × Bytes)) :
    Nat → List (String × Json) → Bytes → Except Fault (List (String × Json) × Bytes)
  | 0, _, rest => .error ⟨.endOfObject, rest⟩
  | fuel + 1, seen, rest =>
    match skipSpace rest with
    | [] => .error ⟨.endOfObject, []⟩
    | q :: rest => do
      if q != ascii '"' then .error ⟨.keyMustBeString, rest⟩
      let (name, rest) ← readString rest
      match skipSpace rest with
      | [] => .error ⟨.endOfObject, []⟩
      | c :: rest => do
        if c != ascii ':' then .error ⟨.expectedColon, rest⟩
        let (value, rest) ← item rest
        match skipSpace rest with
        | [] => .error ⟨.endOfObject, []⟩
        | b :: rest =>
          if b = ascii '}' then return (((name, value) :: seen).reverse, rest)
          else if b = ascii ',' then readMembers item fuel ((name, value) :: seen) rest
          else .error ⟨.expectedObjectEnd, rest⟩

/-- Reads one value, with at most `depth` lists and objects around one another. -/
def readValue : Nat → Bytes → Except Fault (Json × Bytes)
  | 0, rest => .error ⟨.tooDeep, rest⟩
  | depth + 1, rest =>
    match skipSpace rest with
    | [] => .error ⟨.endOfValue, []⟩
    | b :: rest =>
      if b = ascii 'n' then do return (.null, ← readWord nullTail rest)
      else if b = ascii 't' then do return (.bool true, ← readWord trueTail rest)
      else if b = ascii 'f' then do return (.bool false, ← readWord falseTail rest)
      else if b = ascii '-' then do
        let (n, rest) ← readNumber true rest
        return (.number n, rest)
      else if isDigit b then do
        let (n, rest) ← readNumber false (b :: rest)
        return (.number n, rest)
      else if b = ascii '"' then do
        let (s, rest) ← readString rest
        return (.string s, rest)
      else if depth = 0 ∧ (Bracket.opens? b).isSome then .error ⟨.tooDeep, rest⟩
      else if b = ascii '[' then
        match skipSpace rest with
        | [] => .error ⟨.endOfList, []⟩
        | c :: more =>
          if c = ascii ']' then return (.array [], more)
          else do
            let (items, rest) ← readItems (readValue depth) rest.length [] rest
            return (.array items, rest)
      else if b = ascii '{' then
        match skipSpace rest with
        | [] => .error ⟨.endOfObject, []⟩
        | c :: more =>
          if c = ascii '}' then return (.object [], more)
          else do
            let (members, rest) ← readMembers (readValue depth) rest.length [] rest
            return (ofMembers members, rest)
      else .error ⟨.expectedValue, rest⟩

def parse (document : Bytes) : Except Fault Json := do
  let (value, rest) ← readValue 128 document
  match skipSpace rest with
  | [] => return value
  | _ :: rest => .error ⟨.trailingCharacters, rest⟩

end Scaffold.Json
