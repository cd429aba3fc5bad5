import Scaffold.Text.Lines

/-!
# Generation log

The lines that a run leaves for its reader, in order.
-/

namespace Scaffold

structure Log where
  lines : List String := []
  deriving DecidableEq, Repr

namespace Log

def append (log : Log) (line : String) : Log :=
  ⟨log.lines ++ [line]⟩

def render (log : Log) : String :=
  Text.crlfLines log.lines

@[simp] theorem lines_append (log : Log) (line : String) : (log.append line).lines = log.lines ++ [line] :=
  rfl

end Log

end Scaffold
