import Scaffold.Json.Reader

/-!
# Constants in tags

Numbers, strings, truth values, null, lists and objects as they are written inside a tag. The extent of a
constant is found first; what it says is then read as JSON, except that a string may stand between single
quotes. A word is only a constant when no other symbol follows it, so `truex` and `1st` are names.
-/

namespace Scaffold.Template

/-- A character that may stand between the parts of a tag. -/
def isGap (c : Char) : Bool :=
  c = ' ' || c = '\t' || c = '\n' || c = '\r'

def skipGap (cs : List Char) : List Char :=
  cs.dropWhile isGap

def isSymbol (c : Char) : Bool :=
  c.isAlphanum || c = '_' || c = '-' || c = '$' || c = ':' || 0x80 ≤ c.toNat

def endsName (cs : List Char) : Bool :=
  !cs.head?.any isSymbol

def after? (word : List Char) (cs : List Char) : Option (List Char) :=
  if word.isPrefixOf cs then some (cs.drop word.length) else none

def afterWord? (word : List Char) (cs : List Char) : Option (List Char) :=
  (after? word cs).filter endsName

def isHexDigit (c : Char) : Bool :=
  c.isDigit || ('a' ≤ c && c ≤ 'f') || ('A' ≤ c && c ≤ 'F')

/-- What follows a string, after its opening quote; `fuel` bounds its length. -/
def skipString (quote : Char) : Nat → List Char → Option (List Char)
  | 0, _ => none
  | _ + 1, [] => none
  | _ + 1, ['\\'] => none
  | fuel + 1, '\\' :: c :: rest =>
    if c = 'u' then
      if (rest.take 4).length = 4 && (rest.take 4).all isHexDigit then skipString quote fuel (rest.drop 4)
      else none
    else if c = quote || "\\/bfnrt".toList.contains c then skipString quote fuel rest
    else none
  | fuel + 1, c :: rest => if c = quote then some rest else skipString quote fuel rest

def skipNumber (cs : List Char) : Option (List Char) :=
  let unsigned := (after? ['-'] cs).getD cs
  if unsigned.head?.any Char.isDigit then
    let rest := unsigned.dropWhile Char.isDigit
    let rest := ((after? ['.'] rest).getD rest).dropWhile Char.isDigit
    let power := (after? ['E'] rest).map fun more => (after? ['-'] more).getD more
    let rest :=
      match power with
      | some more => if more.head?.any Char.isDigit then more.dropWhile Char.isDigit else rest
      | none => rest
    if endsName rest then some rest else none
  else none

/-- What follows the items after the first of a list, each after a comma, and its closing bracket; `fuel`
bounds their number. -/
def skipItems (item : List Char → Option (List Char)) (close : Char) : Nat → List Char → Option (List Char)
  | 0, _ => none
  | fuel + 1, cs =>
    match skipGap cs with
    | [] => none
    | c :: rest =>
      if c = close then some rest
      else if c = ',' then (item (skipGap rest)).bind (skipItems item close fuel)
      else none

def skipList (item : List Char → Option (List Char)) (close : Char) (cs : List Char) : Option (List Char) :=
  let cs := skipGap cs
  skipItems item close (cs.length + 1) ((item cs).getD cs)

def skipMember (item : List Char → Option (List Char)) (cs : List Char) : Option (List Char) := do
  let rest ←
    match cs with
    | '"' :: rest => skipString '"' (rest.length + 1) rest
    | '\'' :: rest => skipString '\'' (rest.length + 1) rest
    | _ => none
  let rest ← after? [':'] (skipGap rest)
  item (skipGap rest)

/-- What follows a constant; `fuel` bounds its depth. -/
def skipConstant : Nat → List Char → Option (List Char)
  | 0, _ => none
  | fuel + 1, cs =>
    match cs with
    | '"' :: rest => skipString '"' (rest.length + 1) rest
    | '\'' :: rest => skipString '\'' (rest.length + 1) rest
    | '[' :: rest => skipList (skipConstant fuel) ']' rest
    | '{' :: rest => skipList (skipMember (skipConstant fuel)) '}' rest
    | _ =>
      (skipNumber cs).or ((afterWord? "null".toList cs).or
        ((afterWord? "true".toList cs).or (afterWord? "false".toList cs)))

/-- The characters before `rest` at the end of `cs`. -/
def before (cs rest : List Char) : List Char :=
  cs.take (cs.length - rest.length)

/-- The characters of a string between single quotes, as they stand between double quotes. -/
def requote : List Char → List Char
  | [] => []
  | '\\' :: '\'' :: rest => '\'' :: requote rest
  | c :: rest => if c = '"' then '\\' :: '"' :: requote rest else c :: requote rest

def jsonText (written : List Char) : List Char :=
  match written with
  | '\'' :: rest => '"' :: requote rest.dropLast ++ ['"']
  | _ => written

/-- The value of a constant, if it has one, and what follows; nothing where there is no constant. -/
def readConstant? (cs : List Char) : Option (Option Json × List Char) :=
  (skipConstant (cs.length + 1) cs).map fun rest =>
    ((Json.parse (Text.encode (String.ofList (jsonText (before cs rest))))).toOption, rest)

end Scaffold.Template
