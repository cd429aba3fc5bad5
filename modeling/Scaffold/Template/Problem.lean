import Scaffold.Template.Syntax
import Scaffold.Text.Quoted

/-!
# Problems of rendering

Why a template cannot be rendered, and the place of the element where it was noticed.
-/

namespace Scaffold.Template

/-- Why an element cannot be rendered. A value that is missing is named by its reference, if it has one. -/
inductive Problem where
  | missing (raw : Option String)
  | noHelper (name : String)
  | noFragment (name : String)
  | noDecorator (name : String)
  | badIndex (text : String)
  | noParam (helper : String) (index : Nat)
  | noNamedParam (helper : String) (param : String)
  | badLevel (text : String)
  deriving DecidableEq, Repr

def Problem.message : Problem → String
  | .missing (some raw) => "Failed to access variable in strict mode Some(" ++ Text.quote raw ++ ")"
  | .missing none => "Failed to access variable in strict mode None"
  | .noHelper name => s!"Helper not found {name}"
  | .noFragment name => s!"Partial not found {name}"
  | .noDecorator name => s!"Decorator not found {name}"
  | .badIndex text => s!"Cannot access array/vector with string index, {text}"
  | .noParam helper index => s!"Helper/Decorator {helper} param at index {index} required but not found"
  | .noNamedParam helper param =>
    s!"Helper/Decorator {helper} param with name {param} required but not found"
  | .badLevel text => s!"Invalid logging level: {text}"

/-- A problem and the place of the innermost element around it that has one. -/
structure RenderError where
  problem : Problem
  place : Option Place
  deriving DecidableEq, Repr

def Problem.toError (problem : Problem) : RenderError :=
  ⟨problem, none⟩

def RenderError.at (place : Option Place) (e : RenderError) : RenderError :=
  { e with place := e.place.or place }

def RenderError.message (e : RenderError) : String :=
  match e.place with
  | some place =>
    s!"Error rendering \"Unnamed template\" line {place.line}, col {place.column}: {e.problem.message}"
  | none => e.problem.message

/-- Why there is no text for a template and its data: the template cannot be read, or an element cannot be
rendered. -/
inductive Fault where
  | unreadable
  | failed (e : RenderError)
  deriving DecidableEq, Repr

def Fault.message : Fault → String
  | .unreadable => "Failed to parse template Template error"
  | .failed e => e.message

end Scaffold.Template
