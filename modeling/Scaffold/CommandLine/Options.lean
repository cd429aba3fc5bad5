/-!
# Options

Options of a command as they stand in its arguments. An option is written `--name`, and some also with one
letter after a single dash, where several may share the dash. A value follows after a space or an equals
sign, or, after a letter, at once. What an option with a value was given is checked when the next option
starts, or at the end.
-/

namespace Scaffold.CommandLine

/-- Why arguments are not run: something was asked for instead, or something is wrong with them. -/
inductive Usage where
  | help
  | version (program : String)
  | noCommand
  | missingCommand
  | unknownCommand
  | unknownArgument
  | invalidValue
  | tooManyValues
  | conflict
  | missingRequired
  deriving DecidableEq, Repr

/-- The exit code of a program that was asked for something else than a run. -/
def Usage.exitCode : Usage → Nat
  | .help => 0
  | .version _ => 0
  | _ => 2

def Usage.message : Usage → String
  | .help => "usage: quarkus-codegen [--config FILE] [-v]... init|generate|templates|help [OPTIONS]"
  | .version program => program
  | .noCommand => "error: there is no command"
  | .missingCommand => "error: there is no command"
  | .unknownCommand => "error: there is no such command"
  | .unknownArgument => "error: an argument was not expected"
  | .invalidValue => "error: an option has no value that it can take"
  | .tooManyValues => "error: an option takes no value"
  | .conflict => "error: an option was given more than once"
  | .missingRequired => "error: an option that must be given is missing"

inductive Takes where
  | nothing
  | count
  | help
  | version
  | value (accepts : String → Bool)

structure Opt where
  name : String
  letter : Option Char := none
  takes : Takes

/-- What can stand in the arguments of a command: its options, and the commands below it. -/
structure Grammar where
  program : String
  options : List Opt
  commands : List String := []

/-- What was found in arguments: values, flags, how often the counted option came, and the option whose
value is not checked yet. -/
structure Matches where
  values : List (String × String) := []
  flags : List String := []
  count : Nat := 0
  pending : Option (Opt × Option String) := none

namespace Matches

def value? (m : Matches) (name : String) : Option String :=
  m.values.lookup name

def has (m : Matches) (name : String) : Bool :=
  m.flags.contains name

def isEmpty (m : Matches) : Bool :=
  m.values.isEmpty && m.flags.isEmpty && m.count == 0

/-- Takes the value of an option, which may have only one. -/
def store (m : Matches) (name value : String) (accepts : String → Bool) : Except Usage Matches :=
  if (m.value? name).isSome then .error .conflict
  else if accepts value then .ok { m with values := (name, value) :: m.values }
  else .error .invalidValue

def settle (m : Matches) : Except Usage Matches :=
  match m.pending with
  | none => .ok m
  | some (_, none) => .error .invalidValue
  | some (option, some value) =>
    match option.takes with
    | .value accepts => { m with pending := none }.store option.name value accepts
    | _ => .ok { m with pending := none }

def flag (m : Matches) (program : String) (option : Opt) : Except Usage Matches := do
  let m ← m.settle
  match option.takes with
  | .help => .error .help
  | .version => .error (.version program)
  | .count => return { m with count := m.count + 1 }
  | _ => if m.has option.name then .error .conflict else return { m with flags := option.name :: m.flags }

/-- An option with a value that is attached, or still to come. -/
def take (m : Matches) (option : Opt) (accepts : String → Bool) (attached : Option String) :
    Except Usage Matches := do
  let m ← m.settle
  match attached with
  | some value => m.store option.name value accepts
  | none => return { m with pending := some (option, none) }

def waiting (m : Matches) : Option Opt :=
  match m.pending with
  | some (option, none) => some option
  | _ => none

end Matches

def splitLong (cs : List Char) : String × Option String :=
  let name := cs.takeWhile (· ≠ '=')
  match cs.dropWhile (· ≠ '=') with
  | [] => (String.ofList name, none)
  | _ :: value => (String.ofList name, some (String.ofList value))

def readLong (g : Grammar) (m : Matches) (cs : List Char) : Except Usage Matches :=
  let (name, attached) := splitLong cs
  match g.options.find? (·.name == name) with
  | none => .error .unknownArgument
  | some option =>
    match option.takes with
    | .value accepts => m.take option accepts attached
    | _ => if attached.isSome then .error .tooManyValues else m.flag g.program option

def readLetters (g : Grammar) (m : Matches) : List Char → Except Usage Matches
  | [] => .ok m
  | c :: rest =>
    match g.options.find? (·.letter == some c) with
    | none => .error .unknownArgument
    | some option =>
      match option.takes with
      | .value accepts =>
        match rest with
        | [] => m.take option accepts none
        | '=' :: value => m.take option accepts (some (String.ofList value))
        | value => m.take option accepts (some (String.ofList value))
      | _ => do readLetters g (← m.flag g.program option) rest

def Grammar.refuse (g : Grammar) (verbatim : Bool) (argument : String) : Usage :=
  if g.commands.isEmpty || (verbatim && g.commands.contains argument) then .unknownArgument
  else .unknownCommand

/-- Reads arguments up to a command below, which is given with the arguments after it. After two dashes
alone, `verbatim` holds and nothing is an option. -/
def readArguments (g : Grammar) (m : Matches) (verbatim : Bool) :
    List String → Except Usage (Matches × Option (String × List String))
  | [] => .ok (m, none)
  | argument :: rest =>
    if verbatim then .error (g.refuse true argument)
    else if m.waiting.isNone && g.commands.contains argument then .ok (m, some (argument, rest))
    else
      match argument.toList with
      | ['-', '-'] => readArguments g m true rest
      | '-' :: '-' :: long => do readArguments g (← readLong g m long) false rest
      | '-' :: c :: letters => do readArguments g (← readLetters g m (c :: letters)) false rest
      | _ =>
        match m.waiting with
        | some option => readArguments g { m with pending := some (option, some argument) } false rest
        | none => .error (g.refuse false argument)

end Scaffold.CommandLine
