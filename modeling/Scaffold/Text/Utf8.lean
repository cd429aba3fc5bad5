/-!
# UTF-8

Texts as strings of bytes and back. `decode` accepts exactly the well-formed sequences (no overlong
forms, no surrogates, nothing above U+10FFFF) and otherwise says where the well-formed part ends and
how long the bad sequence after it is.
-/

namespace Scaffold

abbrev Bytes := List UInt8

namespace Text

def encode (s : String) : Bytes :=
  s.toList.flatMap String.utf8EncodeChar

/-- Why a string of bytes is no text: `validUpTo` bytes are well formed, and the sequence after them is
wrong after `badLength` bytes, or cut off by the end when there is none. -/
structure Utf8Fault where
  validUpTo : Nat
  badLength : Option Nat
  deriving DecidableEq, Repr

def isTail (b : UInt8) : Bool :=
  0x80 ≤ b && b ≤ 0xBF

/-- A byte that may follow `lead` in a character of three or four bytes. The bounds leave out overlong
forms, surrogates and values above U+10FFFF. -/
def isSecond (lead b : UInt8) : Bool :=
  if lead = 0xE0 then 0xA0 ≤ b && b ≤ 0xBF
  else if lead = 0xED then 0x80 ≤ b && b ≤ 0x9F
  else if lead = 0xF0 then 0x90 ≤ b && b ≤ 0xBF
  else if lead = 0xF4 then 0x80 ≤ b && b ≤ 0x8F
  else isTail b

/-- The number of bytes of a character that starts with `lead`, if one can. -/
def width? (lead : UInt8) : Option Nat :=
  if lead < 0x80 then some 1
  else if 0xC2 ≤ lead && lead ≤ 0xDF then some 2
  else if 0xE0 ≤ lead && lead ≤ 0xEF then some 3
  else if 0xF0 ≤ lead && lead ≤ 0xF4 then some 4
  else none

/-- The character with the given payload, from the lead byte's bits down. -/
def charOfBits (lead : Nat) (tails : List UInt8) : Char :=
  Char.ofNat (tails.foldl (fun n b => n * 64 + b.toNat % 64) lead)

/-- The first character of a string of bytes and what follows it; on failure the length of the bad
sequence, or nothing when the end comes too early. -/
def decodeChar : Bytes → Except (Option Nat) (Char × Bytes)
  | [] => .error none
  | a :: rest =>
    match width? a, rest with
    | some 1, _ => .ok (charOfBits a.toNat [], rest)
    | some 2, [] => .error none
    | some 2, b :: more =>
      if isTail b then .ok (charOfBits (a.toNat % 32) [b], more) else .error (some 1)
    | some 3, [] => .error none
    | some 3, b :: more =>
      if isSecond a b then
        match more with
        | [] => .error none
        | c :: more => if isTail c then .ok (charOfBits (a.toNat % 16) [b, c], more) else .error (some 2)
      else .error (some 1)
    | some _, [] => .error none
    | some _, b :: more =>
      if isSecond a b then
        match more with
        | [] => .error none
        | c :: more =>
          if isTail c then
            match more with
            | [] => .error none
            | d :: more =>
              if isTail d then .ok (charOfBits (a.toNat % 8) [b, c, d], more) else .error (some 3)
          else .error (some 2)
      else .error (some 1)
    | none, _ => .error (some 1)

theorem decodeChar_length {bytes rest : Bytes} {c : Char} (h : decodeChar bytes = .ok (c, rest)) :
    rest.length < bytes.length := by
  unfold decodeChar at h
  split at h
  · cases h
  · rename_i a tail
    repeat' split at h
    all_goals cases h
    all_goals simp only [List.length_cons]
    all_goals omega

/-- Decodes what is left, after `index` bytes that gave `seen` (last first). -/
def decodeFrom (index : Nat) (seen : List Char) (bytes : Bytes) : Except Utf8Fault (List Char) :=
  match bytes with
  | [] => .ok seen.reverse
  | b :: tail =>
    match _h : decodeChar (b :: tail) with
    | .ok (c, rest) => decodeFrom (index + c.utf8Size) (c :: seen) rest
    | .error bad => .error ⟨index, bad⟩
termination_by bytes.length
decreasing_by exact decodeChar_length _h

def decode (bytes : Bytes) : Except Utf8Fault String :=
  (decodeFrom 0 [] bytes).map String.ofList

/-- The text of a string of bytes, if it is well formed. -/
def decode? (bytes : Bytes) : Option String :=
  (decode bytes).toOption

/-- The text to show for bytes that may be no text: every bad sequence becomes U+FFFD. -/
def lossyFrom (seen : List Char) (bytes : Bytes) : List Char :=
  match bytes with
  | [] => seen.reverse
  | b :: tail =>
    match _h : decodeChar (b :: tail) with
    | .ok (c, rest) => lossyFrom (c :: seen) rest
    | .error none => ('\uFFFD' :: seen).reverse
    | .error (some n) => lossyFrom ('\uFFFD' :: seen) (tail.drop (n - 1))
termination_by bytes.length
decreasing_by
  · exact decodeChar_length _h
  · simp only [List.length_drop, List.length_cons]; omega

/-- The text to show for bytes that may be no text. -/
def display (bytes : Bytes) : String :=
  String.ofList (lossyFrom [] bytes)

def Utf8Fault.message (fault : Utf8Fault) : String :=
  match fault.badLength with
  | some n => s!"invalid utf-8 sequence of {n} bytes from index {fault.validUpTo}"
  | none => s!"incomplete utf-8 byte sequence from index {fault.validUpTo}"

end Text

end Scaffold
