/-!
# Flavors

The two layouts of a generated project.
-/

namespace Scaffold

/-- The layout of a project: with the files of a whole application, or a plain one with an application
class. -/
inductive Flavor where
  | quarkus
  | jaxrs
  deriving DecidableEq, Repr

namespace Flavor

def name : Flavor → String
  | .quarkus => "quarkus"
  | .jaxrs => "jaxrs"

def ofName? (s : String) : Option Flavor :=
  if s = "quarkus" then some .quarkus
  else if s = "jaxrs" then some .jaxrs
  else none

@[simp] theorem ofName?_name (f : Flavor) : ofName? f.name = some f := by
  cases f <;> rfl

end Flavor

end Scaffold
