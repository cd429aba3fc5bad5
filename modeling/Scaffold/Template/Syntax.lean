import Scaffold.Json.Value

/-!
# Templates

A template is a sequence of elements: text that stands for itself, tags that stand for a value, and
blocks, which render their body as often as the helper they name asks for.
-/

namespace Scaffold

namespace Template

/-- A place in the source of a template. Lines and columns count from one, columns in characters. -/
structure Place where
  line : Nat
  column : Nat
  deriving DecidableEq, Repr

def Place.step (place : Place) (c : Char) : Place :=
  if c = '\n' then ⟨place.line + 1, 1⟩ else ⟨place.line, place.column + 1⟩

inductive Origin where
  | root
  | variable
  | scope
  deriving DecidableEq, Repr

/-- A reference to a value: how many blocks it goes out, and the names it follows from there. `raw` is the
reference as it was written. -/
structure Reference where
  raw : String
  origin : Origin
  ups : Nat
  names : List String
  deriving DecidableEq, Repr

/-- A value given to a helper: a constant, a reference, or what another helper gives. -/
inductive Param where
  | constant (value : Json)
  | reference (r : Reference)
  | call (name : String) (params : List Param) (named : List (String × Param))
  deriving Repr

/-- A helper by its name, with the values it is given in order and by name. -/
structure Call where
  name : String
  params : List Param
  named : List (String × Param)
  deriving Repr

/-- An element of a template. A block inside the inverse of another, where an else tag started it, has no
place of its own. -/
inductive Element where
  | text (s : String)
  | value (place : Place) (head : Param) (escaped : Bool)
  | call (place : Place) (call : Call) (escaped : Bool)
  | block (place : Option Place) (call : Call) (names : List String) (body : List Element)
      (inverse : Option (List Element))
  | fragment (place : Place) (call : Call) (fallback : Option (List Element))
  | decorator (place : Place) (call : Call)
  deriving Repr

end Template

abbrev Template := List Template.Element

end Scaffold
