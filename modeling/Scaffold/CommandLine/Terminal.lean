import Scaffold.CommandLine.Output

/-!
# Questions at a terminal

The keys that are typed at a terminal answer the questions of a command in order. A question takes keys up
to the one that settles it and leaves the rest for the next.
-/

namespace Scaffold.CommandLine

/-- Where a question is put: at a terminal with the keys that are typed there, or nowhere. -/
inductive Terminal where
  | absent
  | typed (keys : List Char)
  deriving DecidableEq, Repr

inductive NoAnswer where
  | noTerminal
  | keysEnded
  deriving DecidableEq, Repr

def NoAnswer.cause : NoAnswer → String
  | .noTerminal => "not a terminal"
  | .keysEnded => "Reached end of file"

def NoAnswer.report (e : NoAnswer) : Report :=
  Report.because s!"IO error: {e.cause}" ⟨e.cause, []⟩

namespace Terminal

def isEnter (c : Char) : Bool :=
  c = '\n' || c = '\r'

def backspace : Char := '\x7f'

def isControl (c : Char) : Bool :=
  c.toNat < 0x20 || c = backspace

/-- The answer to a question for yes or no, where the end of the line stands for no and other keys do not
count, and the keys after it. -/
def confirmKeys : List Char → Except NoAnswer (Bool × List Char)
  | [] => .error .keysEnded
  | c :: rest =>
    if c = 'y' || c = 'Y' then .ok (true, rest)
    else if c = 'n' || c = 'N' || isEnter c then .ok (false, rest)
    else confirmKeys rest

/-- The line that is typed after `line`, which holds its characters so far, last first, and the keys after
it. -/
def lineKeys (line : List Char) : List Char → Except NoAnswer (String × List Char)
  | [] => .error .keysEnded
  | c :: rest =>
    if isEnter c then .ok (String.ofList line.reverse, rest)
    else if c = backspace then lineKeys line.tail rest
    else if isControl c then lineKeys line rest
    else lineKeys (c :: line) rest

def ask (keys : List Char → Except NoAnswer (α × List Char)) (terminal : Terminal) :
    Except NoAnswer (α × Terminal) :=
  match terminal with
  | .absent => .error .noTerminal
  | .typed input => (keys input).map fun (a, rest) => (a, .typed rest)

def confirm (terminal : Terminal) : Except NoAnswer (Bool × Terminal) :=
  terminal.ask confirmKeys

/-- Asks for a line; an empty one stands for the default. -/
def line (default : String) (terminal : Terminal) : Except NoAnswer (String × Terminal) :=
  (terminal.ask (lineKeys [])).map fun (s, rest) => (if s = "" then default else s, rest)

end Terminal

end Scaffold.CommandLine
