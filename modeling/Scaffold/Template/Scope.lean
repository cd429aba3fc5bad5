import Scaffold.Decimal.Style
import Scaffold.Template.Problem

/-!
# Scopes

What references mean inside nested blocks. Every block has a base, the value it is about: a path into the
data, or a value of its own. It may also give variables, such as the index of an item, and names to values.
-/

namespace Scaffold.Template

inductive Base where
  | path (names : List String)
  | value (v : Json)
  deriving Repr

inductive Given where
  | base
  | value (v : Json)
  deriving Repr

structure Level where
  base : Base
  locals : List (String × Json) := []
  names : List (String × Given) := []
  deriving Repr

/-- The data of a template and the blocks around an element, innermost first. -/
structure Scope where
  data : Json
  levels : List Level
  deriving Repr

def Scope.start (data : Json) : Scope :=
  ⟨data, [{ base := .path [] }]⟩

def Scope.enter (scope : Scope) (level : Level) : Scope :=
  { scope with levels := level :: scope.levels }

/-- A value given to a helper, if it is there: where it stands in the data and the reference to it, as far
as it has them. -/
structure Operand where
  value? : Option Json
  path : Option (List String) := none
  raw : Option String := none
  deriving Repr

/-- The value of an operand; a missing one counts as null. -/
def Operand.value (o : Operand) : Json :=
  o.value?.getD .null

/-- The index an item of a list is asked for by. -/
def indexOf? (name : String) : Option Nat :=
  let digits :=
    match name.toList with
    | '+' :: rest => rest
    | cs => cs
  if digits.isEmpty || !digits.all Char.isDigit then none
  else
    let n := digits.foldl (fun n c => 10 * n + (c.toNat - '0'.toNat)) 0
    if n < Number.wordLimit then some n else none

def step (value : Option Json) (name : String) : Except Problem (Option Json) :=
  match value with
  | some (.array items) =>
    match indexOf? name with
    | some i => .ok items[i]?
    | none => .error (.badIndex name)
  | some (.object members) => .ok (members.lookup name)
  | _ => .ok none

def follow (value : Json) (names : List String) : Except Problem (Option Json) :=
  names.foldlM step (some value)

namespace Scope

def atPath (scope : Scope) (names : List String) : Except Problem Operand := do
  match ← follow scope.data names with
  | some v => return { value? := some v, path := some names }
  | none => return { value? := none }

def fromBase (scope : Scope) (base : Base) (names : List String) : Except Problem Operand :=
  match base with
  | .path path => scope.atPath (path ++ names)
  | .value v => (follow v names).map fun value? => { value? }

/-- The innermost block that gives a name, with what the name stands for there. -/
def given? (scope : Scope) (name : String) : Option (Given × Base) :=
  scope.levels.findSome? fun level => (level.names.lookup name).map (·, level.base)

/-- The block a number of blocks out; the innermost when there are not so many. -/
def level (scope : Scope) (ups : Nat) : Level :=
  (scope.levels[ups]?).getD (scope.levels.headD { base := .path [] })

/-- The operand that names reach from a number of blocks out. A name that a block gives counts before all
others. -/
def look (scope : Scope) (ups : Nat) (names : List String) : Except Problem Operand :=
  match names with
  | [] => scope.fromBase (scope.level ups).base []
  | name :: rest =>
    match scope.given? name with
    | some (.value v, _) => scope.fromBase (.value v) rest
    | some (.base, base) => scope.fromBase base rest
    | none => scope.fromBase (scope.level ups).base names

def blockVariable (scope : Scope) (ups : Nat) (name : String) : Option Json :=
  (scope.levels[ups]?).bind (·.locals.lookup name)

def resolve (scope : Scope) (r : Reference) : Except Problem Operand := do
  let operand ←
    match r.origin, r.names with
    | .root, names => scope.atPath names
    | .variable, [] => scope.look 0 []
    | .variable, name :: _ => .ok { value? := scope.blockVariable r.ups name }
    | .scope, names => scope.look r.ups names
  return { operand with raw := some r.raw }

end Scope

/-! ## Values -/

mutual

def shownText : Json → String
  | .null => ""
  | .bool b => if b then "true" else "false"
  | .number (.whole n) => toString n
  | .number (.float x) => Decimal.floatText Decimal.jsonStyle x
  | .string s => s
  | .array items => "[" ++ ", ".intercalate (shownTexts items) ++ "]"
  | .object _ => "[object]"

def shownTexts : List Json → List String
  | [] => []
  | v :: rest => shownText v :: shownTexts rest

end

/-- A float that is neither zero nor too small for full precision, nor infinite. -/
def isNormal (x : Float) : Bool :=
  let biased := Decimal.exponentField x.toBits
  biased != 0 && biased + 1 != Decimal.exponentLimit

/-- A value counts as true. Zero does not, unless it is asked for. -/
def isTrue (includeZero : Bool) : Json → Bool
  | .null => false
  | .bool b => b
  | .number n => if includeZero then !n.toFloat.isNaN else isNormal n.toFloat
  | .string s => s ≠ ""
  | .array items => !items.isEmpty
  | .object members => !members.isEmpty

end Scaffold.Template
