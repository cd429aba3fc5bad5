/-!
# JSON values

Numbers are whole when they fit 64 bits, with or without sign, and 64-bit floats otherwise. Objects
list their members by name, each name once, in the order of code points.
-/

namespace Scaffold

inductive Number where
  | whole (n : Int)
  | float (x : Float)
  deriving BEq, Repr

/-- One more than the greatest whole number of 64 bits without a sign. -/
def Number.wordLimit : Nat := 0x10000000000000000

/-- One more than the greatest whole number of 64 bits with a sign. -/
def Number.signedLimit : Nat := 0x8000000000000000

def Number.toFloat : Number → Float
  | .whole n => if n < 0 then -n.natAbs.toFloat else n.natAbs.toFloat
  | .float x => x

inductive Json where
  | null
  | bool (b : Bool)
  | number (n : Number)
  | string (s : String)
  | array (items : List Json)
  | object (members : List (String × Json))
  deriving BEq, Repr, Inhabited

namespace Json

def insertMember (name : String) (value : Json) : List (String × Json) → List (String × Json)
  | [] => [(name, value)]
  | (n, v) :: rest =>
    if n = name then (name, value) :: rest
    else if name < n then (name, value) :: (n, v) :: rest
    else (n, v) :: insertMember name value rest

/-- The object with the given members; of two with one name the later counts. -/
def ofMembers (members : List (String × Json)) : Json :=
  .object (members.foldl (fun sorted (n, v) => insertMember n v sorted) [])

end Json

end Scaffold
