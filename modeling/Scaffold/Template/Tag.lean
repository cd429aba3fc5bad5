import Scaffold.Template.Literal
import Scaffold.Template.Syntax

/-!
# Tags

What stands between braces in the source of a template. Each reader takes the text where a part of a tag
must start and gives the part and the text after it; where alternatives are tried in order, the first that
matches is taken for good.
-/

namespace Scaffold.Template

/-! ## References -/

def isStep (c : Char) : Bool :=
  c = '.' || c = '/'

def afterStep? : List Char → Option (List Char)
  | [] => none
  | c :: rest => if isStep c then some rest else none

/-- Skips the steps that stay in place: `./` and `this/`; `fuel` bounds their number. -/
def skipStays : Nat → List Char → List Char
  | 0, cs => cs
  | fuel + 1, cs =>
    match ((after? "this".toList cs).bind afterStep?).or (after? "./".toList cs) with
    | some rest => skipStays fuel rest
    | none => cs

/-- Counts the steps out of a block; `fuel` bounds their number. -/
def readUps : Nat → List Char → Nat × List Char
  | 0, cs => (0, cs)
  | fuel + 1, cs =>
    match (after? "..".toList cs).bind afterStep? with
    | some rest =>
      let (ups, rest) := readUps fuel rest
      (ups + 1, rest)
    | none => (0, cs)

/-- Reads a name of a reference: symbols, or anything between brackets. -/
def readItem (cs : List Char) : Option (String × List Char) :=
  match cs with
  | '[' :: rest => do
    let more ← after? [']'] (rest.dropWhile (· ≠ ']'))
    return (String.ofList (rest.takeWhile (· ≠ ']')), more)
  | _ =>
    let name := cs.takeWhile isSymbol
    if name.isEmpty then none else some (String.ofList name, cs.dropWhile isSymbol)

/-- Reads the names after the first, as long as there are any; `fuel` bounds their number. -/
def readItems : Nat → List Char → List String × List Char
  | 0, cs => ([], cs)
  | fuel + 1, cs =>
    match (afterStep? cs).bind readItem with
    | some (name, rest) =>
      let (names, rest) := readItems fuel rest
      (name :: names, rest)
    | none => ([], cs)

/-- The name that stands for the value itself and is no step. -/
def selfName : String := "this"

def readReference (cs : List Char) : Option (Reference × List Char) := do
  let fuel := cs.length
  let start := skipStays fuel cs
  let rooted := (after? "@root".toList start).bind afterStep?
  let start := rooted.getD start
  let marked := after? ['@'] start
  let start := marked.getD start
  let (ups, start) := readUps fuel start
  let (first, rest) ← readItem start
  let (more, rest) := readItems fuel rest
  let origin := if rooted.isSome then .root else if marked.isSome then .variable else .scope
  return ({ raw := String.ofList (before cs rest), origin, ups,
            names := (first :: more).filter (· ≠ selfName) }, rest)

/-! ## Values and calls -/

def readName (cs : List Char) : Option (String × List Char) :=
  let name := cs.takeWhile isSymbol
  if name.isEmpty then none else some (String.ofList name, cs.dropWhile isSymbol)

/-- A word that cannot be a value, unless more symbols come after it. -/
def atKeyword (cs : List Char) : Bool :=
  match (after? "as".toList cs).or (after? "else".toList cs) with
  | some rest => endsName (skipGap rest)
  | none => false

abbrev Argument := Option String × Param

def readArgument (value : List Char → Option (Param × List Char)) (cs : List Char) :
    Option (Argument × List Char) :=
  let named := do
    let (name, rest) ← readName cs
    let rest ← after? ['='] (skipGap rest)
    let (param, rest) ← value (skipGap rest)
    return ((some name, param), rest)
  named.or ((value cs).map fun (param, rest) => ((none, param), rest))

/-- Reads arguments as long as there are any; `fuel` bounds their number. -/
def readArguments (value : List Char → Option (Param × List Char)) : Nat → List Char → List Argument × List Char
  | 0, cs => ([], cs)
  | fuel + 1, cs =>
    match readArgument value (skipGap cs) with
    | some (argument, rest) =>
      let (more, rest) := readArguments value fuel rest
      (argument :: more, rest)
    | none => ([], cs)

def inOrder (arguments : List Argument) : List Param :=
  arguments.filterMap fun (name, param) => if name.isNone then some param else none

/-- The arguments that are given by name; of two with one name the later counts. -/
def byName (arguments : List Argument) : List (String × Param) :=
  (arguments.filterMap fun (name, param) => name.map (·, param)).reverse

/-- Reads a call of a helper with at least one argument. -/
def readCall (value : List Char → Option (Param × List Char)) (cs : List Char) : Option (Call × List Char) := do
  let (name, rest) ← readName cs
  let (arguments, rest) := readArguments value cs.length rest
  if arguments.isEmpty then none
  else return ({ name, params := inOrder arguments, named := byName arguments }, rest)

/-- Reads a call between parentheses, or a reference there, which names a helper without arguments. -/
def readNested (value : List Char → Option (Param × List Char)) (cs : List Char) :
    Option (Param × List Char) := do
  let cs := skipGap (← after? ['('] cs)
  let called := (readCall value cs).map fun (call, rest) => (Param.call call.name call.params call.named, rest)
  let named := (readReference cs).map fun (r, rest) => (Param.call r.raw [] [], rest)
  let (param, rest) ← called.or named
  return (param, ← after? [')'] (skipGap rest))

/-- Reads a value given to a helper; `fuel` bounds the depth of nested calls. A constant that says nothing
is no value, even where its text could be a reference. -/
def readParam : Nat → List Char → Option (Param × List Char)
  | 0, _ => none
  | fuel + 1, cs =>
    if atKeyword cs then none
    else
      match readConstant? cs with
      | some (value, rest) => value.map fun value => (.constant value, rest)
      | none =>
        ((readReference cs).map fun (r, rest) => (Param.reference r, rest)).or (readNested (readParam fuel) cs)

def readValue (cs : List Char) : Option (Param × List Char) :=
  readParam (cs.length + 1) cs

/-! ## Whole tags -/

/-- What a tag shows: a value, or what a helper gives. -/
inductive Shown where
  | value (head : Param)
  | call (call : Call)
  deriving Repr

def readShown (cs : List Char) : Option (Shown × List Char) :=
  ((readCall readValue cs).map fun (call, rest) => (Shown.call call, rest)).or
    (((readNested readValue cs).map fun (p, rest) => (Shown.value p, rest)).or
      ((readReference cs).map fun (r, rest) => (Shown.value (.reference r), rest)))

/-- The head of a block: the helper, its arguments, and the names it gives to values of its body. -/
structure Head where
  call : Call
  names : List String
  deriving Repr

def readNames (cs : List Char) : Option (List String × List Char) := do
  let rest ← after? "as".toList cs
  let rest ← after? ['|'] (skipGap rest)
  let (first, rest) ← readName (skipGap rest)
  let (names, rest) :=
    match readName (skipGap rest) with
    | some (second, rest) => ([first, second], rest)
    | none => ([first], rest)
  return (names, ← after? ['|'] (skipGap rest))

def readHead (cs : List Char) : Option (Head × List Char) := do
  let (name, rest) ← readName cs
  let (arguments, rest) := readArguments readValue cs.length rest
  let call : Call := { name, params := inOrder arguments, named := byName arguments }
  match readNames (skipGap rest) with
  | some (names, rest) => return (⟨call, names⟩, rest)
  | none => return (⟨call, []⟩, rest)

def isFragmentSymbol (c : Char) : Bool :=
  isSymbol c && c ≠ '$' && c ≠ ':' || isStep c

/-- Reads the name of a fragment, plain or between single quotes. -/
def readFragmentName (cs : List Char) : Option (String × List Char) :=
  match cs with
  | '\'' :: rest => do
    let more ← after? ['\''] (rest.dropWhile (· ≠ '\''))
    return (String.ofList (rest.takeWhile (· ≠ '\'')), more)
  | _ =>
    let name := cs.takeWhile isFragmentSymbol
    if name.isEmpty then (readReference cs).map fun (r, rest) => (r.raw, rest)
    else some (String.ofList name, cs.dropWhile isFragmentSymbol)

/-- Reads the name of the block that a tag ends, which is a helper or a fragment. -/
def readBlockName (cs : List Char) : Option (String × List Char) :=
  let inName (c : Char) : Bool := isSymbol c || isFragmentSymbol c
  let name := cs.takeWhile inName
  if name.isEmpty then none else some (String.ofList name, cs.dropWhile inName)

def readFragment (cs : List Char) : Option (Call × List Char) := do
  let (name, rest) ← readFragmentName cs
  let (arguments, rest) := readArguments readValue cs.length rest
  return ({ name, params := inOrder arguments, named := byName arguments }, rest)

inductive BlockKind where
  | helper
  | fragment
  | decorator
  deriving DecidableEq, Repr

/-- A tag. A chain tag is an else tag that starts another block. -/
inductive Tag where
  | shown (what : Shown) (escaped : Bool)
  | start (kind : BlockKind) (head : Head)
  | otherwise
  | chain (head : Head)
  | finish (name : String)
  | comment
  | fragment (call : Call)
  | decorator (call : Call)
  deriving Repr

/-- A tag with its marks: whether it takes away the blanks before it and after it. -/
structure Marked where
  tag : Tag
  trimsBefore : Bool
  trimsAfter : Bool
  deriving Repr

def readMark (cs : List Char) : Bool × List Char :=
  match skipGap cs with
  | '~' :: rest => (true, skipGap rest)
  | rest => (false, rest)

def closing : List Char := ['}', '}']

def readEnd (close : List Char) (cs : List Char) : Option (Bool × List Char) := do
  let (mark, rest) := readMark cs
  return (mark, ← after? close rest)

/-- What follows the first `close`; `fuel` bounds the text before it. -/
def skipTo (close : List Char) : Nat → List Char → Option (List Char)
  | 0, _ => none
  | fuel + 1, cs =>
    (after? close cs).or
      (match cs with
       | [] => none
       | _ :: rest => skipTo close fuel rest)

/-- What follows a comment, after its exclamation mark. One that starts with dashes ends with dashes, if the
text holds such an end. -/
def skipComment (cs : List Char) : Option (List Char) :=
  let dashed := (after? "--".toList (skipGap cs)).bind fun rest => skipTo ('-' :: '-' :: closing) (rest.length + 1) rest
  dashed.or (skipTo closing (cs.length + 1) cs)

def readInner (cs : List Char) : Option (Tag × List Char) :=
  match cs with
  | '#' :: rest =>
    match skipGap rest with
    | '>' :: rest => do
      let (call, rest) ← readFragment (skipGap rest)
      return (.start .fragment ⟨call, []⟩, rest)
    | '*' :: rest => do
      let (head, rest) ← readHead (skipGap rest)
      return (.start .decorator head, rest)
    | rest => do
      let (head, rest) ← readHead rest
      return (.start .helper head, rest)
  | '/' :: rest => do
    let (name, rest) ← readBlockName (skipGap rest)
    return (.finish name, rest)
  | '>' :: rest => do
    let (call, rest) ← readFragment (skipGap rest)
    return (.fragment call, rest)
  | '*' :: rest => do
    let (head, rest) ← readHead (skipGap rest)
    return (.decorator head.call, rest)
  | '&' :: rest => do
    let rest := skipGap rest
    let (p, rest) ←
      (readNested readValue rest).or ((readReference rest).map fun (r, rest) => (Param.reference r, rest))
    return (.shown (.value p) false, rest)
  | '{' :: rest => do
    let (what, rest) ← readShown (skipGap rest)
    return (.shown what false, ← after? ['}'] (skipGap rest))
  | _ => do
    let (what, rest) ← readShown cs
    return (.shown what true, rest)

def readElse (cs : List Char) : Option (List Char) :=
  (after? "else".toList cs).or (after? ['^'] cs)

/-- Reads the rest of a tag between two braces on each side, after the opening ones. -/
def readBraced (cs : List Char) : Option (Marked × List Char) := do
  let (trimsBefore, inner) := readMark cs
  let alone : Option (Marked × List Char) := do
    let (trimsAfter, rest) ← readEnd closing (← readElse inner)
    return (⟨.otherwise, trimsBefore, trimsAfter⟩, rest)
  let chained : Option (Marked × List Char) := do
    let (head, rest) ← readHead (skipGap (← readElse inner))
    let (trimsAfter, rest) ← readEnd closing rest
    return (⟨.chain head, trimsBefore, trimsAfter⟩, rest)
  let plain : Option (Marked × List Char) := do
    let (tag, rest) ← readInner inner
    let (trimsAfter, rest) ← readEnd closing rest
    return (⟨tag, trimsBefore, trimsAfter⟩, rest)
  alone.or (chained.or plain)

/-- Reads the rest of a tag between three braces on each side whose marks stand inside them, after the
opening ones. -/
def readTripled (cs : List Char) : Option (Marked × List Char) := do
  let (trimsBefore, inner) := readMark cs
  let (what, rest) ← readShown inner
  let (trimsAfter, rest) ← readEnd ('}' :: closing) rest
  return (⟨.shown what false, trimsBefore, trimsAfter⟩, rest)

def readTag (cs : List Char) : Option (Marked × List Char) :=
  let comment : Option (Marked × List Char) :=
    match skipGap cs with
    | '!' :: rest => (skipComment rest).map fun rest => (⟨.comment, false, false⟩, rest)
    | _ => none
  (readBraced cs).or (((after? ['{'] cs).bind readTripled).or comment)

end Scaffold.Template
