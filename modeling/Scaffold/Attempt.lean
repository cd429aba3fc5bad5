import Scaffold.Error
import Scaffold.Log
import Scaffold.Traced

/-!
# Attempts

What a part of a run does: the events it reports, in order, and its value or the error that ended it. The
lines of the generation log are events among others.
-/

namespace Scaffold

inductive Event where
  | line (text : String)
  | noSettings (path : Path)
  | step (name : String)
  | collected (root : Path) (count : Nat)
  | notOverridden (path : String)
  | wrote (path : String) (size : Nat)
  | finished (entries size : Nat)
  deriving DecidableEq, Repr

def Event.line? : Event → Option String
  | .line text => some text
  | _ => none

abbrev Attempt := Traced Event Error

namespace Attempt

def note (text : String) : Attempt Unit :=
  Traced.tell (.line text)

def lines (attempt : Attempt α) : List String :=
  attempt.trace.filterMap Event.line?

@[simp] theorem lines_pure (a : α) : (pure a : Attempt α).lines = [] :=
  rfl

@[simp] theorem lines_note (text : String) : (note text).lines = [text] :=
  rfl

theorem lines_bind_of_ok {first : Attempt α} {next : α → Attempt β} {a : α} (h : first.result = .ok a) :
    (first >>= next).lines = first.lines ++ (next a).lines := by
  rw [lines, Traced.trace_bind_of_ok h, List.filterMap_append]
  rfl

def log (attempt : Attempt α) : Log :=
  ⟨attempt.lines⟩

/-- A log with the lines of an attempt at its end. -/
def logAfter (attempt : Attempt α) (log : Log) : Log :=
  ⟨log.lines ++ attempt.lines⟩

@[simp] theorem lines_logAfter (attempt : Attempt α) (log : Log) :
    (attempt.logAfter log).lines = log.lines ++ attempt.lines :=
  rfl

end Attempt

end Scaffold
