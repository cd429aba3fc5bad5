import Scaffold.Decimal.Reader
import Scaffold.Template.Scope

/-!
# Helpers

What a tag or a block can ask for by name. A helper gets its operands and, in a block, the body and the
inverse as functions from a scope to a text; it gives a value or a text.
-/

namespace Scaffold.Template

/-- A part of a template: the text it gives in a scope. -/
abbrev Body := Scope → Except RenderError String

/-- What a helper is given: operands in order and by name, names for values of its body, and in a block the
body and the inverse. -/
structure Use where
  params : List Operand
  named : List (String × Operand)
  names : List String := []
  body : Option Body := none
  inverse : Option Body := none

inductive Outcome where
  | value (v : Json)
  | text (s : String)
  deriving Repr

inductive Comparison where
  | greater
  | greaterOrEqual
  | less
  | lessOrEqual
  deriving DecidableEq, Repr

inductive Helper where
  | choose (positive : Bool)
  | each
  | with
  | lookup
  | raw
  | log
  | equal (positive : Bool)
  | compare (how : Comparison)
  | both
  | either
  | negate
  | length
  deriving DecidableEq, Repr

namespace Helper

def ofName? (name : String) : Option Helper :=
  List.lookup name
    [("if", .choose true), ("unless", .choose false), ("each", .each), ("with", .with),
     ("lookup", .lookup), ("raw", .raw), ("log", .log), ("eq", .equal true), ("ne", .equal false),
     ("gt", .compare .greater), ("gte", .compare .greaterOrEqual), ("lt", .compare .less),
     ("lte", .compare .lessOrEqual), ("and", .both), ("or", .either), ("not", .negate), ("len", .length)]

/-! ## Values -/

/-- The order of two numbers: of the numbers themselves when both are whole and fit 64 bits with a sign, and
of the nearest floats otherwise. -/
def orderNumbers (a b : Number) : Option Ordering :=
  let floats : Option Ordering :=
    let x := a.toFloat
    let y := b.toFloat
    if x < y then some .lt else if x == y then some .eq else if y < x then some .gt else none
  match a, b with
  | .whole m, .whole n => if m < Number.signedLimit && n < Number.signedLimit then some (compareOfLessAndEq m n) else floats
  | _, _ => floats

/-- The order of a number and a text, which is read as a number. -/
def orderToText (a : Number) (s : String) : Option Ordering :=
  (Decimal.read? s).bind fun x => orderNumbers (.float a.toFloat) (.float x)

def order? : Json → Json → Option Ordering
  | .number a, .number b => orderNumbers a b
  | .string a, .string b => some (compareOfLessAndEq a b)
  | .bool a, .bool b => some (compareOfLessAndEq a.toNat b.toNat)
  | .number a, .string s => orderToText a s
  | .string s, .number b => (orderToText b s).map Ordering.swap
  | _, _ => none

def Comparison.holds : Comparison → Option Ordering → Bool
  | .greater, some .gt => true
  | .greaterOrEqual, some .gt => true
  | .greaterOrEqual, some .eq => true
  | .less, some .lt => true
  | .lessOrEqual, some .lt => true
  | .lessOrEqual, some .eq => true
  | _, _ => false

/-- The length of a value: its items, its members, or the bytes of a text. -/
def lengthOf : Json → Nat
  | .array items => items.length
  | .object members => members.length
  | .string s => s.utf8ByteSize
  | _ => 0

/-- An operand that must be there, named in the helper's own terms. -/
def required (helper : String) (use : Use) (index : Nat) (name : String) : Except RenderError Json :=
  match use.params[index]? with
  | some ⟨some v, _, _⟩ => .ok v
  | _ => .error (Problem.noNamedParam helper name).toError

def binary (helper : String) (f : Json → Json → Bool) (use : Use) : Except RenderError Outcome := do
  let x ← required helper use 0 "x"
  let y ← required helper use 1 "y"
  return .value (.bool (f x y))

/-- An operand by its place, which may be one that is missing in the data. -/
def operand (helper : String) (use : Use) (index : Nat) : Except RenderError Operand :=
  match use.params[index]? with
  | some o => .ok o
  | none => .error (Problem.noParam helper index).toError

/-- The item of a list or the member of an object that another value asks for. -/
def item? : Json → Json → Option Json
  | .array items, .number (.whole n) => if n < 0 then none else items[n.toNat]?
  | .object members, .string name => members.lookup name
  | _, _ => none

/-! ## Blocks -/

def optional (part : Option Body) (scope : Scope) : Except RenderError Outcome :=
  match part with
  | some body => (body scope).map .text
  | none => .ok (.text "")

/-- What happens when there is nothing to show: the inverse, or else the value counts as missing. -/
def otherwise (use : Use) (o : Operand) (scope : Scope) : Except RenderError Outcome :=
  match use.inverse with
  | some body => (body scope).map .text
  | none => .error (Problem.missing o.raw).toError

def baseOf (o : Operand) : Base :=
  match o.path with
  | some path => .path path
  | none => .value o.value

/-- What a name for the value of a block stands for. -/
def givenOf (o : Operand) : Given :=
  match o.path with
  | some _ => .base
  | none => .value o.value

/-- The names of a block for an item and for the key of the item. -/
def namesFor (names : List String) (item : Given) (key : Json) : List (String × Given) :=
  match names with
  | [name] => [(name, item)]
  | name :: keyName :: _ => [(keyName, .value key), (name, item)]
  | [] => []

/-- The block around one item: its key as a step of a path and as a value, and its variables. -/
def itemLevel (use : Use) (o : Operand) (step : String) (key v : Json) (locals : List (String × Json)) :
    Level :=
  let item : Operand := { value? := some v, path := o.path.map (· ++ [step]) }
  { base := baseOf item, locals, names := namesFor use.names (givenOf item) key }

/-- The variables that say whether an item is the first or the last. -/
def ends (index count : Nat) : List (String × Json) :=
  [("first", .bool (index == 0)), ("last", .bool (index + 1 == count))]

/-- The blocks around the items of a list or an object, in order. -/
def itemLevels (use : Use) (o : Operand) : Option (List Level) :=
  match o.value with
  | .array items =>
    some (items.mapIdx fun i v =>
      let key : Json := .number (.whole i)
      itemLevel use o (toString i) key v (ends i items.length ++ [("index", key)]))
  | .object members =>
    some (members.mapIdx fun i (name, v) =>
      itemLevel use o name (.string name) v (ends i members.length ++ [("key", .string name)]))
  | _ => none

def joinBodies (body : Body) (scope : Scope) : List Level → Except RenderError String
  | [] => .ok ""
  | level :: rest => do
    let first ← body (scope.enter level)
    let others ← joinBodies body scope rest
    return first ++ others

def runEach (use : Use) (scope : Scope) : Except RenderError Outcome := do
  let o ← operand "each" use 0
  match use.body with
  | none => return .text ""
  | some body =>
    match itemLevels use o with
    | some levels =>
      if levels.isEmpty && use.inverse.isSome then otherwise use o scope
      else return .text (← joinBodies body scope levels)
    | none => otherwise use o scope

def runWith (use : Use) (scope : Scope) : Except RenderError Outcome := do
  let o ← operand "with" use 0
  if isTrue false o.value then
    let names :=
      match use.names with
      | [name] => [(name, givenOf o)]
      | _ => []
    optional use.body (scope.enter { base := baseOf o, names })
  else otherwise use o scope

/-- The body or the inverse, as a value counts as true or not. -/
def runChoose (positive : Bool) (use : Use) (scope : Scope) : Except RenderError Outcome := do
  let o ← operand "if" use 0
  let includeZero :=
    match (use.named.lookup "includeZero").map Operand.value with
    | some (.bool b) => b
    | _ => false
  optional (if isTrue includeZero o.value == positive then use.body else use.inverse) scope

def logLevels : List String :=
  ["error", "warn", "info", "debug", "trace"]

def runLog (use : Use) : Except RenderError Outcome :=
  match (use.named.lookup "level").map Operand.value with
  | some (.string level) =>
    if logLevels.contains (String.ofList (level.toList.map Char.toLower)) then .ok (.text "")
    else .error (Problem.badLevel level).toError
  | _ => .ok (.text "")

def run (helper : Helper) (use : Use) (scope : Scope) : Except RenderError Outcome :=
  match helper with
  | .choose positive => runChoose positive use scope
  | .each => runEach use scope
  | .with => runWith use scope
  | .raw => optional use.body scope
  | .log => runLog use
  | .lookup => do
    let collection ← operand "lookup" use 0
    let index ← operand "lookup" use 1
    match item? collection.value index.value with
    | some v => return .value v
    | none => .error (Problem.missing none).toError
  | .equal true => binary "eq" (fun x y => x == y) use
  | .equal false => binary "ne" (fun x y => !(x == y)) use
  | .compare .greater => binary "gt" (fun x y => Comparison.holds .greater (order? x y)) use
  | .compare .greaterOrEqual => binary "gte" (fun x y => Comparison.holds .greaterOrEqual (order? x y)) use
  | .compare .less => binary "lt" (fun x y => Comparison.holds .less (order? x y)) use
  | .compare .lessOrEqual => binary "lte" (fun x y => Comparison.holds .lessOrEqual (order? x y)) use
  | .both => binary "and" (fun x y => isTrue false x && isTrue false y) use
  | .either => binary "or" (fun x y => isTrue false x || isTrue false y) use
  | .negate => do
    let x ← required "not" use 0 "x"
    return .value (.bool (!isTrue false x))
  | .length => do
    let x ← required "len" use 0 "x"
    return .value (.number (.whole (lengthOf x)))

end Helper

end Scaffold.Template
