import Scaffold.Decimal.Style
import Scaffold.Json.Fault
import Scaffold.Json.Value

/-!
# Reading the parts of a JSON document

Each reader takes the unread part of a document and returns what is left after it. Whole numbers are
exact up to 64 bits; a longer or fractional one is built from its first significant digits and a power
of ten.
-/

namespace Scaffold.Json

def ascii (c : Char) : UInt8 :=
  UInt8.ofNat c.toNat

def isSpace (b : UInt8) : Bool :=
  b == 0x20 || b == 0x0A || b == 0x09 || b == 0x0D

def skipSpace (rest : Bytes) : Bytes :=
  rest.dropWhile isSpace

def isDigit (b : UInt8) : Bool :=
  0x30 ≤ b && b ≤ 0x39

def startsWithDigit : Bytes → Bool
  | b :: _ => isDigit b
  | [] => false

def readWord : Bytes → Bytes → Except Fault Bytes
  | [], rest => .ok rest
  | _ :: _, [] => .error ⟨.endOfValue, []⟩
  | e :: expected, b :: rest => if b = e then readWord expected rest else .error ⟨.expectedWord, rest⟩

/-- The letters after the first of `null`, `true` and `false`. -/
def nullTail : Bytes := ['u', 'l', 'l'].map ascii

@[inherit_doc nullTail]
def trueTail : Bytes := ['r', 'u', 'e'].map ascii

@[inherit_doc nullTail]
def falseTail : Bytes := ['a', 'l', 's', 'e'].map ascii

def hexValue (b : UInt8) : Option Nat :=
  if isDigit b then some (b.toNat - 0x30)
  else if 0x41 ≤ b && b ≤ 0x46 then some (b.toNat - 0x37)
  else if 0x61 ≤ b && b ≤ 0x66 then some (b.toNat - 0x57)
  else none

def readHex4 : Bytes → Except Fault (Nat × Bytes)
  | a :: b :: c :: d :: rest =>
    match hexValue a, hexValue b, hexValue c, hexValue d with
    | some a, some b, some c, some d => .ok (((a * 16 + b) * 16 + c) * 16 + d, rest)
    | _, _, _, _ => .error ⟨.invalidEscape, rest⟩
  | _ => .error ⟨.endOfString, []⟩

/-- Reads the second code unit of a character that needs two. -/
def readPair (high : Nat) : Bytes → Except Fault (Char × Bytes)
  | [] => .error ⟨.endOfString, []⟩
  | b :: rest =>
    if b != ascii '\\' then .error ⟨.endOfHexEscape, rest⟩
    else
      match rest with
      | [] => .error ⟨.endOfString, []⟩
      | b :: rest =>
        if b != ascii 'u' then .error ⟨.endOfHexEscape, rest⟩
        else do
          let (low, rest) ← readHex4 rest
          if low < 0xDC00 ∨ 0xDFFF < low then .error ⟨.loneSurrogate, rest⟩
          else .ok (Char.ofNat (0x10000 + (high - 0xD800) * 0x400 + (low - 0xDC00)), rest)

def shortEscape (b : UInt8) : Option Char :=
  if b = ascii '"' then some '"'
  else if b = ascii '\\' then some '\\'
  else if b = ascii '/' then some '/'
  else if b = ascii 'b' then some '\x08'
  else if b = ascii 'f' then some '\x0c'
  else if b = ascii 'n' then some '\n'
  else if b = ascii 'r' then some '\r'
  else if b = ascii 't' then some '\t'
  else none

def readEscape : Bytes → Except Fault (Char × Bytes)
  | [] => .error ⟨.endOfString, []⟩
  | b :: rest =>
    if b = ascii 'u' then do
      let (unit, rest) ← readHex4 rest
      if 0xDC00 ≤ unit ∧ unit ≤ 0xDFFF then .error ⟨.loneSurrogate, rest⟩
      else if 0xD800 ≤ unit ∧ unit ≤ 0xDBFF then readPair unit rest
      else .ok (Char.ofNat unit, rest)
    else
      match shortEscape b with
      | some c => .ok (c, rest)
      | none => .error ⟨.invalidEscape, rest⟩

theorem readHex4_length {bytes rest : Bytes} {n : Nat} (h : readHex4 bytes = .ok (n, rest)) :
    rest.length < bytes.length := by
  unfold readHex4 at h
  split at h
  · split at h
    · cases h; simp only [List.length_cons]; omega
    · cases h
  · cases h

private theorem readPair_length {high : Nat} {bytes rest : Bytes} {c : Char}
    (h : readPair high bytes = .ok (c, rest)) : rest.length < bytes.length := by
  unfold readPair at h
  split at h
  · cases h
  · split at h
    · cases h
    · split at h
      · cases h
      · split at h
        · cases h
        · rename_i more _
          cases e : readHex4 more with
          | error f => simp [e, bind, Except.bind] at h
          | ok p =>
            have := readHex4_length (show _ = Except.ok (p.1, p.2) from e)
            simp only [e, bind, Except.bind] at h
            split at h
            · cases h
            · simp only [Except.ok.injEq, Prod.mk.injEq] at h
              obtain ⟨_, rfl⟩ := h
              simp only [List.length_cons]; omega

theorem readEscape_length {bytes rest : Bytes} {c : Char} (h : readEscape bytes = .ok (c, rest)) :
    rest.length < bytes.length := by
  unfold readEscape at h
  split at h
  · cases h
  · rename_i b more
    split at h
    · cases e : readHex4 more with
      | error f => simp [e, bind, Except.bind] at h
      | ok p =>
        have := readHex4_length (show _ = Except.ok (p.1, p.2) from e)
        simp only [e, bind, Except.bind] at h
        split at h
        · cases h
        · split at h
          · have := readPair_length h; simp only [List.length_cons]; omega
          · simp only [Except.ok.injEq, Prod.mk.injEq] at h
            obtain ⟨_, rfl⟩ := h
            simp only [List.length_cons]; omega
    · split at h
      · cases h; simp only [List.length_cons]; omega
      · cases h

/-- Reads a string after its opening quote, given the characters so far, last first. -/
def readChars (seen : List Char) (bytes : Bytes) : Except Fault (List Char × Bytes) :=
  match bytes with
  | [] => .error ⟨.endOfString, []⟩
  | b :: rest =>
    if b = ascii '"' then .ok (seen.reverse, rest)
    else if b = ascii '\\' then
      match _h : readEscape rest with
      | .ok (c, more) => readChars (c :: seen) more
      | .error fault => .error fault
    else if b < 0x20 then .error ⟨.controlCharacter, rest⟩
    else
      match _h : Text.decodeChar (b :: rest) with
      | .ok (c, more) => readChars (c :: seen) more
      | .error _ => .error ⟨.invalidCodePoint, rest⟩
termination_by bytes.length
decreasing_by
  · have := readEscape_length _h; simp only [List.length_cons]; omega
  · exact Text.decodeChar_length _h

def readString (rest : Bytes) : Except Fault (String × Bytes) := do
  let (cs, rest) ← readChars [] rest
  return (String.ofList cs, rest)

/-- Takes digits while the number they continue stays below `limit`; `count` of them so far. -/
def takeDigits (limit : Nat) (n count : Nat) : Bytes → Nat × Nat × Bytes
  | [] => (n, count, [])
  | b :: rest =>
    if isDigit b ∧ n * 10 + (b.toNat - 0x30) < limit then
      takeDigits limit (n * 10 + (b.toNat - 0x30)) (count + 1) rest
    else (n, count, b :: rest)

/-- Divides by a power of ten, at most 10³⁰⁸ at a time. -/
def divideTen (x : Float) (e : Nat) : Float :=
  if e ≤ 308 then x / Float.ofScientific 1 false e
  else if x == 0.0 then x
  else divideTen (x / 1e308) (e - 308)
termination_by e
decreasing_by omega

/-- The float `significand · 10 ^ exponent`, unless it is too large. -/
def scaleTen (significand : Nat) (exponent : Int) : Option Float :=
  let x := significand.toFloat
  if exponent < 0 then some (divideTen x exponent.natAbs)
  else if exponent ≤ 308 then
    let y := x * Float.ofScientific 1 false exponent.natAbs
    if y.isInf then none else some y
  else if significand = 0 then some x
  else none

/-- The float number with the given parts, which ends before `rest`. -/
def floatOf (negative : Bool) (significand : Nat) (exponent : Int) (rest : Bytes) :
    Except Fault (Number × Bytes) :=
  match scaleTen significand exponent with
  | some x => .ok (.float (if negative then -x else x), rest)
  | none => .error ⟨.outOfRange, rest⟩

/-- The whole number with the given parts. A negative zero, and one below the signed range, is a float. -/
def wholeOf (negative : Bool) (significand : Nat) : Number :=
  if !negative then .whole significand
  else if significand = 0 ∨ Number.signedLimit < significand then .float (-significand.toFloat)
  else .whole (-(significand : Int))

/-- One more than the greatest power of ten that is worked out. -/
def powerLimit : Nat := 0x80000000

/-- Reads the power of ten of a number after its `e`. -/
def readPower (negative : Bool) (significand : Nat) (exponent : Int) (rest : Bytes) :
    Except Fault (Number × Bytes) :=
  let (down, rest) :=
    match rest with
    | b :: more => if b = ascii '+' then (false, more) else if b = ascii '-' then (true, more) else (false, rest)
    | [] => (false, [])
  match rest with
  | [] => .error ⟨.endOfValue, []⟩
  | b :: rest =>
    if isDigit b then
      let (power, _, rest) := takeDigits powerLimit (b.toNat - 0x30) 0 rest
      if startsWithDigit rest then
        if significand ≠ 0 ∧ !down then .error ⟨.outOfRange, rest.drop 1⟩
        else .ok (.float (if negative then -0.0 else 0.0), rest.dropWhile isDigit)
      else floatOf negative significand (if down then exponent - power else exponent + power) rest
    else .error ⟨.invalidNumber, rest⟩

/-- Reads the rest of a number whose digits are over: a power of ten, or nothing. -/
def readAfterDigits (negative : Bool) (significand : Nat) (exponent : Int) (rest : Bytes) :
    Except Fault (Number × Bytes) :=
  match rest with
  | b :: more =>
    if b = ascii 'e' ∨ b = ascii 'E' then readPower negative significand exponent more
    else floatOf negative significand exponent rest
  | [] => floatOf negative significand exponent rest

/-- Reads the digits of a number after its point. Digits that no longer fit are dropped. -/
def readFraction (negative : Bool) (significand : Nat) (exponent : Int) (rest : Bytes) :
    Except Fault (Number × Bytes) :=
  let (significand, count, rest) := takeDigits Number.wordLimit significand 0 rest
  if startsWithDigit rest then
    readAfterDigits negative significand (exponent - count) (rest.dropWhile isDigit)
  else if count = 0 then
    .error (.atNext (if rest.isEmpty then .endOfValue else .invalidNumber) rest)
  else readAfterDigits negative significand (exponent - count) rest

/-- Reads the rest of a number after the digits before the point. -/
def readAfterWhole (negative : Bool) (significand : Nat) (rest : Bytes) : Except Fault (Number × Bytes) :=
  match rest with
  | b :: more =>
    if b = ascii '.' then readFraction negative significand 0 more
    else if b = ascii 'e' ∨ b = ascii 'E' then readPower negative significand 0 more
    else .ok (wholeOf negative significand, rest)
  | [] => .ok (wholeOf negative significand, rest)

def readNumber (negative : Bool) : Bytes → Except Fault (Number × Bytes)
  | [] => .error ⟨.endOfValue, []⟩
  | b :: rest =>
    if b = ascii '0' then
      if startsWithDigit rest then .error (.atNext .invalidNumber rest)
      else readAfterWhole negative 0 rest
    else if isDigit b then
      let (significand, _, rest) := takeDigits Number.wordLimit (b.toNat - 0x30) 0 rest
      if startsWithDigit rest then
        let more := rest.dropWhile isDigit
        let dropped := (rest.length - more.length : Nat)
        match more with
        | c :: after =>
          if c = ascii '.' then readFraction negative significand dropped after
          else readAfterDigits negative significand dropped more
        | [] => readAfterDigits negative significand dropped more
      else readAfterWhole negative significand rest
    else .error ⟨.invalidNumber, rest⟩

end Scaffold.Json
