import Scaffold.Json.Scan

/-!
# Skipping JSON values

A value that is of no interest is still checked. Open brackets are kept in a list, so values may nest
to any depth, and numbers may have any size.
-/

namespace Scaffold.Json

/-- Skips a string after its opening quote. Only the form of its escapes is checked. -/
def skipString (bytes : Bytes) : Except Fault Bytes :=
  match bytes with
  | [] => .error ⟨.endOfString, []⟩
  | b :: rest =>
    if b = ascii '"' then .ok rest
    else if b = ascii '\\' then
      match rest with
      | [] => .error ⟨.endOfString, []⟩
      | e :: rest =>
        if e = ascii 'u' then
          match _h : readHex4 rest with
          | .ok (_, rest) => skipString rest
          | .error fault => .error fault
        else if (shortEscape e).isSome then skipString rest
        else .error ⟨.invalidEscape, rest⟩
    else if b < 0x20 then .error ⟨.controlCharacter, b :: rest⟩
    else skipString rest
termination_by bytes.length
decreasing_by
  · have := readHex4_length _h; simp only [List.length_cons]; omega
  · simp only [List.length_cons]; omega
  · simp only [List.length_cons]; omega

/-- Skips the digits and sign of a power of ten after its `e`. -/
def skipPower (rest : Bytes) : Except Fault Bytes :=
  let rest :=
    match rest with
    | b :: more => if b = ascii '+' ∨ b = ascii '-' then more else b :: more
    | [] => []
  match rest with
  | [] => .error ⟨.invalidNumber, []⟩
  | b :: rest => if isDigit b then .ok (rest.dropWhile isDigit) else .error ⟨.invalidNumber, rest⟩

def skipAfterDigits (rest : Bytes) : Except Fault Bytes :=
  match rest with
  | b :: more => if b = ascii 'e' ∨ b = ascii 'E' then skipPower more else .ok rest
  | [] => .ok []

def skipFraction (rest : Bytes) : Except Fault Bytes :=
  if startsWithDigit rest then skipAfterDigits (rest.dropWhile isDigit)
  else .error (.atNext .invalidNumber rest)

def skipAfterWhole (rest : Bytes) : Except Fault Bytes :=
  match rest with
  | b :: more => if b = ascii '.' then skipFraction more else skipAfterDigits rest
  | [] => .ok []

def skipNumber : Bytes → Except Fault Bytes
  | [] => .error ⟨.invalidNumber, []⟩
  | b :: rest =>
    if b = ascii '0' then
      if startsWithDigit rest then .error (.atNext .invalidNumber rest) else skipAfterWhole rest
    else if isDigit b then skipAfterWhole (rest.dropWhile isDigit)
    else .error ⟨.invalidNumber, rest⟩

/-- Skips a value that is no list and no object, given its first byte and what follows. -/
def skipScalar (b : UInt8) (rest : Bytes) : Except Fault Bytes :=
  if b = ascii 'n' then readWord nullTail rest
  else if b = ascii 't' then readWord trueTail rest
  else if b = ascii 'f' then readWord falseTail rest
  else if b = ascii '-' then skipNumber rest
  else if isDigit b then skipNumber (b :: rest)
  else if b = ascii '"' then skipString rest
  else .error ⟨.expectedValue, rest⟩

private theorem dropWhile_length (p : UInt8 → Bool) (l : Bytes) : (l.dropWhile p).length ≤ l.length :=
  (List.dropWhile_suffix p).length_le

private theorem readWord_length {word bytes rest : Bytes} (h : readWord word bytes = .ok rest) :
    rest.length ≤ bytes.length := by
  induction word generalizing bytes with
  | nil => cases h; exact Nat.le_refl _
  | cons e word ih =>
    cases bytes with
    | nil => cases h
    | cons b bytes =>
      simp only [readWord] at h
      split at h
      · exact Nat.le_succ_of_le (ih h)
      · cases h

private theorem skipString_length {bytes rest : Bytes} (h : skipString bytes = .ok rest) :
    rest.length < bytes.length := by
  fun_induction skipString bytes with
  | case1 => cases h
  | case2 => cases h; simp
  | case3 => cases h
  | case4 =>
    rename_i hex _ ih
    have := ih h; have := readHex4_length hex; simp only [List.length_cons]; omega
  | case5 => cases h
  | case6 _ _ _ _ _ ih => have := ih h; simp only [List.length_cons]; omega
  | case7 => cases h
  | case8 => cases h
  | case9 _ _ _ _ _ ih => have := ih h; simp only [List.length_cons]; omega

private theorem skipPower_length {bytes rest : Bytes} (h : skipPower bytes = .ok rest) :
    rest.length < bytes.length := by
  unfold skipPower at h
  have drop := dropWhile_length isDigit
  cases bytes with
  | nil => cases h
  | cons b bytes =>
    simp only at h
    split at h
    · cases h
    · rename_i c more eq
      split at h
      · cases h
        have := drop more
        split at eq
        · subst eq; simp only [List.length_cons]; omega
        · cases eq; simp only [List.length_cons]; omega
      · cases h

private theorem skipAfterDigits_length {bytes rest : Bytes} (h : skipAfterDigits bytes = .ok rest) :
    rest.length ≤ bytes.length := by
  unfold skipAfterDigits at h
  split at h
  · split at h
    · have := skipPower_length h; simp only [List.length_cons]; omega
    · cases h; exact Nat.le_refl _
  · cases h; exact Nat.le_refl _

private theorem skipAfterWhole_length {bytes rest : Bytes} (h : skipAfterWhole bytes = .ok rest) :
    rest.length ≤ bytes.length := by
  have drop := dropWhile_length isDigit
  unfold skipAfterWhole at h
  split at h
  · rename_i b more
    split at h
    · unfold skipFraction at h
      split at h
      · have := skipAfterDigits_length h; have := drop more; simp only [List.length_cons]; omega
      · cases h
    · exact skipAfterDigits_length h
  · cases h; exact Nat.le_refl _

private theorem skipNumber_length {bytes rest : Bytes} (h : skipNumber bytes = .ok rest) :
    rest.length < bytes.length := by
  have drop := dropWhile_length isDigit
  unfold skipNumber at h
  split at h
  · cases h
  · rename_i b more
    split at h
    · split at h
      · cases h
      · have := skipAfterWhole_length h; simp only [List.length_cons]; omega
    · split at h
      · have := skipAfterWhole_length h; have := drop more; simp only [List.length_cons]; omega
      · cases h

/-- What follows a scalar is no longer than what followed its first byte. -/
theorem skipScalar_length {b : UInt8} {bytes rest : Bytes} (h : skipScalar b bytes = .ok rest) :
    rest.length ≤ bytes.length := by
  unfold skipScalar at h
  repeat' split at h
  · exact readWord_length h
  · exact readWord_length h
  · exact readWord_length h
  · exact Nat.le_of_lt (skipNumber_length h)
  · exact Nat.le_of_lt_succ (skipNumber_length h)
  · exact Nat.le_of_lt (skipString_length h)
  · cases h

inductive Bracket where
  | list
  | object
  deriving DecidableEq, Repr

def Bracket.close : Bracket → UInt8
  | .list => ascii ']'
  | .object => ascii '}'

def Bracket.unclosed : Bracket → Cause
  | .list => .endOfList
  | .object => .endOfObject

/-- The fault of a byte after a value that neither separates nor closes. -/
def Bracket.unseparated : Bracket → Cause
  | .list => .expectedListEnd
  | .object => .expectedObjectEnd

/-- Closes brackets, innermost first, as long as they close. Gives the brackets that are still open and
the rest at the place where their next value or name has to start. `afterValue` tells a bracket that
holds a value already from one that was just opened. -/
def closeBrackets (afterValue : Bool) : List Bracket → Bytes → Except Fault (List Bracket × Bytes)
  | [], rest => .ok ([], rest)
  | top :: below, rest =>
    match skipSpace rest with
    | [] => .error ⟨top.unclosed, []⟩
    | b :: more =>
      if b = top.close then closeBrackets true below more
      else if !afterValue then .ok (top :: below, b :: more)
      else if b = ascii ',' then .ok (top :: below, more)
      else .error ⟨top.unseparated, more⟩

/-- Skips a name and its colon where an object needs them. -/
def skipName : Bracket → Bytes → Except Fault Bytes
  | .list, rest => .ok rest
  | .object, rest =>
    match skipSpace rest with
    | [] => .error ⟨.endOfObject, []⟩
    | b :: more =>
      if b = ascii '"' then do
        let rest ← skipString more
        match skipSpace rest with
        | [] => .error ⟨.endOfObject, []⟩
        | b :: more => if b = ascii ':' then .ok more else .error ⟨.expectedColon, more⟩
      else .error ⟨.keyMustBeString, more⟩

private theorem skipSpace_length (bytes : Bytes) : (skipSpace bytes).length ≤ bytes.length :=
  dropWhile_length isSpace bytes

private theorem closeBrackets_length {afterValue : Bool} {brackets left : List Bracket} {bytes rest : Bytes}
    (h : closeBrackets afterValue brackets bytes = .ok (left, rest)) : rest.length ≤ bytes.length := by
  induction brackets generalizing afterValue bytes with
  | nil => cases h; exact Nat.le_refl _
  | cons top below ih =>
    have space := skipSpace_length bytes
    unfold closeBrackets at h
    split at h
    · cases h
    · rename_i b more eq
      rw [eq] at space
      simp only [List.length_cons] at space
      repeat' split at h
      · have := ih h; omega
      · cases h; simp only [List.length_cons]; omega
      · cases h; omega
      · cases h

private theorem skipName_length {bracket : Bracket} {bytes rest : Bytes} (h : skipName bracket bytes = .ok rest) :
    rest.length ≤ bytes.length := by
  have space := skipSpace_length bytes
  cases bracket with
  | list => cases h; exact Nat.le_refl _
  | object =>
    unfold skipName at h
    cases eq : skipSpace bytes with
    | nil => simp [eq] at h
    | cons b more =>
      simp only [eq, List.length_cons] at h space
      split at h
      · cases e : skipString more with
        | error f => simp [e, bind, Except.bind] at h
        | ok tail =>
          have := skipString_length e
          have again := skipSpace_length tail
          cases eq' : skipSpace tail with
          | nil => simp [e, eq', bind, Except.bind] at h
          | cons c after =>
            simp only [e, eq', bind, Except.bind, List.length_cons] at h again
            split at h
            · cases h; omega
            · cases h
      · cases h

def Bracket.opens? (b : UInt8) : Option Bracket :=
  if b = ascii '[' then some .list else if b = ascii '{' then some .object else none

/-- Reads past the scalar or the opening bracket `b`, and past what closes after it. -/
def skipToken (brackets : List Bracket) (b : UInt8) (rest : Bytes) : Except Fault (List Bracket × Bytes) :=
  match Bracket.opens? b with
  | some bracket => closeBrackets false (bracket :: brackets) rest
  | none =>
    match skipScalar b rest with
    | .ok rest => closeBrackets true brackets rest
    | .error fault => .error fault

private theorem skipToken_length {brackets left : List Bracket} {b : UInt8} {bytes rest : Bytes}
    (h : skipToken brackets b bytes = .ok (left, rest)) : rest.length ≤ bytes.length := by
  unfold skipToken at h
  split at h
  · exact closeBrackets_length h
  · split at h
    · rename_i scalar
      exact Nat.le_trans (closeBrackets_length h) (skipScalar_length scalar)
    · cases h

/-- Reads on to the place where the next value has to start: past one token, what closes after it, and
the name of a member. -/
def skipStep (brackets : List Bracket) (bytes : Bytes) : Except Fault (List Bracket × Bytes) :=
  match skipSpace bytes with
  | [] => .error ⟨.endOfValue, []⟩
  | b :: rest =>
    match skipToken brackets b rest with
    | .error fault => .error fault
    | .ok ([], rest) => .ok ([], rest)
    | .ok (top :: below, rest) => (skipName top rest).map fun rest => (top :: below, rest)

private theorem skipStep_length {brackets left : List Bracket} {bytes rest : Bytes}
    (h : skipStep brackets bytes = .ok (left, rest)) : rest.length < bytes.length := by
  have space := skipSpace_length bytes
  unfold skipStep at h
  cases eq : skipSpace bytes with
  | nil => simp [eq] at h
  | cons b more =>
    simp only [eq, List.length_cons] at h space
    split at h
    · cases h
    · rename_i token
      have := skipToken_length token
      cases h
      omega
    · rename_i top below tail token
      have := skipToken_length token
      cases e : skipName top tail with
      | error f => simp [e, Except.map] at h
      | ok after =>
        have := skipName_length e
        simp only [e, Except.map, Except.ok.injEq, Prod.mk.injEq] at h
        obtain ⟨_, rfl⟩ := h
        omega

/-- Skips one value inside the given brackets and all that follows it, until none is open. -/
def skipInside (brackets : List Bracket) (bytes : Bytes) : Except Fault Bytes :=
  match _h : skipStep brackets bytes with
  | .error fault => .error fault
  | .ok ([], rest) => .ok rest
  | .ok (top :: below, rest) => skipInside (top :: below) rest
termination_by bytes.length
decreasing_by exact skipStep_length _h

def skipValue (bytes : Bytes) : Except Fault Bytes :=
  skipInside [] bytes

end Scaffold.Json
