/-!
# Reading decimals

The 64-bit float nearest to a written decimal. A decimal has digits before or after a point, maybe a sign
and a power of ten; the words for infinity and for no number are read too.
-/

namespace Scaffold.Decimal

def digitsValue (cs : List Char) : Nat :=
  cs.foldl (fun n c => 10 * n + (c.toNat - '0'.toNat)) 0

/-- A sign, if there is one, and what follows: whether it is a minus. -/
def readSign : List Char → Bool × List Char
  | '-' :: rest => (true, rest)
  | '+' :: rest => (false, rest)
  | cs => (false, cs)

/-- The float nearest to `digits · 10 ^ exponent`. Powers of ten beyond the range of floats are not worked
out. -/
def nearest (digits : Nat) (exponent : Int) : Float :=
  let lead := exponent + (Nat.toDigits 10 digits).length
  if digits = 0 || lead < -400 then 0
  else if 400 < lead then Float.ofNat 1 / 0
  else if exponent < 0 then Float.ofScientific digits true exponent.natAbs
  else Float.ofScientific digits false exponent.natAbs

/-- The exponent after the digits, which must be all that is left. -/
def readExponent : List Char → Option Int
  | [] => some 0
  | c :: rest =>
    let (minus, digits) := readSign rest
    if (c = 'e' || c = 'E') && !digits.isEmpty && digits.all Char.isDigit then
      some (if minus then -(digitsValue digits : Int) else digitsValue digits)
    else none

def readUnsigned (cs : List Char) : Option Float :=
  let word := String.ofList (cs.map Char.toLower)
  if word = "inf" || word = "infinity" then some (Float.ofNat 1 / 0)
  else if word = "nan" then some (Float.ofNat 0 / 0)
  else
    let whole := cs.takeWhile Char.isDigit
    let rest := cs.dropWhile Char.isDigit
    let tail := match rest with
      | '.' :: tail => tail
      | _ => []
    let fraction := tail.takeWhile Char.isDigit
    let rest := if rest.head? = some '.' then tail.dropWhile Char.isDigit else rest
    if whole.isEmpty && fraction.isEmpty then none
    else (readExponent rest).map fun e => nearest (digitsValue (whole ++ fraction)) (e - fraction.length)

def read? (s : String) : Option Float :=
  let (minus, rest) := readSign s.toList
  (readUnsigned rest).map fun x => if minus then -x else x

end Scaffold.Decimal
