import Scaffold.Template.Escape
import Scaffold.Template.Helper
import Scaffold.Template.Reader

/-!
# Rendering

The text a template gives for its data. Every value that is shown must be there, and it is escaped unless
its tag says otherwise.
-/

namespace Scaffold.Template

mutual

def operandOf : Param → Scope → Except RenderError Operand
  | .constant v, _ => .ok { value? := some v }
  | .reference r, scope => (scope.resolve r).mapError Problem.toError
  | .call name params named, scope => do
    let params ← operandsOf params scope
    let named ← namedOperandsOf named scope
    match Helper.ofName? name with
    | none => .error (Problem.noHelper name).toError
    | some helper =>
      match ← helper.run { params, named } scope with
      | .value v => return { value? := some v }
      | .text s => return { value? := some (.string s) }

def operandsOf : List Param → Scope → Except RenderError (List Operand)
  | [], _ => .ok []
  | p :: rest, scope => do return (← operandOf p scope) :: (← operandsOf rest scope)

def namedOperandsOf : List (String × Param) → Scope → Except RenderError (List (String × Operand))
  | [], _ => .ok []
  | (name, p) :: rest, scope => do return (name, ← operandOf p scope) :: (← namedOperandsOf rest scope)

end

def shown (escaped : Bool) (v : Json) : String :=
  if escaped then escape (shownText v) else shownText v

/-- What a call of a helper gives, in a block with its parts. -/
def runCall (call : Call) (names : List String) (body inverse : Option Body) (scope : Scope) :
    Except RenderError Outcome := do
  let params ← operandsOf call.params scope
  let named ← namedOperandsOf call.named scope
  match Helper.ofName? call.name with
  | none => .error (Problem.noHelper call.name).toError
  | some helper => helper.run { params, named, names, body, inverse } scope

def Outcome.render (escaped : Bool) : Outcome → String
  | .value v => shown escaped v
  | .text s => s

/-- The text of a tag that shows a value. Where its reference is the name of a helper, the helper is called;
a nested call is called by the text of its value in the same way. -/
def renderValue (head : Param) (escaped : Bool) (scope : Scope) : Except RenderError String := do
  let name ←
    match head with
    | .reference r => .ok r.raw
    | head => (operandOf head scope).map fun o => shownText o.value
  match Helper.ofName? name with
  | some helper => return (← helper.run { params := [], named := [] } scope).render escaped
  | none =>
    let o ← operandOf head scope
    match o.value? with
    | some v => return shown escaped v
    | none => .error (Problem.missing o.raw).toError

mutual

def renderElement : Element → Scope → Except RenderError String
  | .text s, _ => .ok s
  | .value place head escaped, scope =>
    (renderValue head escaped scope).mapError (RenderError.at (some place))
  | .call place call escaped, scope =>
    ((runCall call [] none none scope).map (Outcome.render escaped)).mapError (RenderError.at (some place))
  | .block place call names body inverse, scope =>
    ((runCall call names (some (renderAll body)) (renderInverse inverse) scope).map (Outcome.render true)).mapError
      (RenderError.at place)
  | .fragment place call fallback, scope =>
    (do
      let _ ← operandsOf call.params scope
      let _ ← namedOperandsOf call.named scope
      match renderInverse fallback with
      | some body => body scope
      | none => .error (Problem.noFragment call.name).toError).mapError (RenderError.at (some place))
  | .decorator place call, scope =>
    (do
      let _ ← operandsOf call.params scope
      let _ ← namedOperandsOf call.named scope
      .error (Problem.noDecorator call.name).toError).mapError (RenderError.at (some place))

def renderAll : List Element → Scope → Except RenderError String
  | [], _ => .ok ""
  | e :: rest, scope => do
    let first ← renderElement e scope
    let others ← renderAll rest scope
    return first ++ others

def renderInverse : Option (List Element) → Option Body
  | none => none
  | some elements => some (renderAll elements)

end

def render (source : String) (data : Json) : Except Fault String :=
  match parse? source with
  | none => .error .unreadable
  | some template => (renderAll template (Scope.start data)).mapError .failed

end Scaffold.Template
