import Scaffold.Attempt
import Scaffold.Text.Quoted

/-!
# Output

What a command shows, line by line, and how it says why it failed. Events are only shown when they are
asked for: the more, the finer.
-/

namespace Scaffold

inductive Event.Level where
  | info
  | debug
  | trace
  deriving DecidableEq, Repr

def Event.level : Event → Level
  | .noSettings _ => .info
  | .finished _ _ => .info
  | .notOverridden _ => .trace
  | _ => .debug

/-- The verbosity from which on events of a level are shown. -/
def Event.Level.least : Event.Level → Nat
  | .info => 1
  | .debug => 2
  | .trace => 3

def Event.Level.label : Event.Level → String
  | .info => " INFO"
  | .debug => "DEBUG"
  | .trace => "TRACE"

def Event.message : Event → String
  | .line text => text
  | .noSettings path => s!"no settings file at {path.display}, using defaults"
  | .step name => "running generation step step=" ++ Text.quote name
  | .collected root count => s!"collected generated sources root={root.display} count={count}"
  | .notOverridden path => "template not overridden, using fallback path=" ++ Text.quote path
  | .wrote path size => "wrote archive entry path=" ++ Text.quote path ++ s!" bytes={size}"
  | .finished entries size => s!"project archive complete entries={entries} bytes={size}"

namespace CommandLine

inductive Output where
  | header (title : String)
  | step (index total : Nat) (title : String)
  | pair (key value : String)
  | item (text : String)
  | success (text : String)
  | warning (text : String)
  | plain (text : String)
  | event (e : Event)
  deriving DecidableEq, Repr

/-- The text of a piece of output at a moment, if the verbosity asks for it. -/
def Output.text? (moment : String) (verbosity : Nat) : Output → Option String
  | .header title => some ("\n" ++ title ++ "\n" ++ String.ofList (List.replicate title.utf8ByteSize '='))
  | .step index total title => some s!"[{index}/{total}] {title}"
  | .pair key value => some s!"  {key}: {value}"
  | .item text => some s!"  - {text}"
  | .success text => some s!"[OK] {text}"
  | .warning text => some s!"[WARN] {text}"
  | .plain text => some text
  | .event e =>
    if e.level.least ≤ verbosity then some s!"{moment} {e.level.label} {e.message}" else none

structure Report where
  message : String
  causes : List String := []
  deriving DecidableEq, Repr

namespace Report

def ofError (e : Error) : Report :=
  ⟨e.message, e.cause?.toList⟩

def because (message : String) (cause : Report) : Report :=
  ⟨message, cause.message :: cause.causes⟩

def indent (width : Nat) (text : String) : String :=
  String.ofList (text.toList.flatMap fun c => if c = '\n' then '\n' :: List.replicate width ' ' else [c])

def causeText (causes : List String) : String :=
  match causes with
  | [] => ""
  | [cause] => "\n\nCaused by:\n    " ++ indent 4 cause
  | causes => "\n\nCaused by:" ++ String.join (causes.mapIdx fun i cause => s!"\n    {i}: " ++ indent 7 cause)

def text (r : Report) : String :=
  s!"Error: {r.message}{causeText r.causes}\n"

end Report

/-- What a command shows, in order, and a value or the report of a failure. -/
abbrev Spoken := Traced Output Report

namespace Spoken

def put (piece : Output) : Spoken Unit :=
  Traced.tell piece

def ofExcept (result : Except Error α) : Spoken α :=
  Traced.ofExcept (result.mapError Report.ofError)

def ofAttempt (attempt : Attempt α) : Spoken α :=
  ⟨attempt.trace.map Output.event, attempt.result.mapError Report.ofError⟩

end Spoken

end CommandLine

end Scaffold
