/-!
# Sizes

Byte counts for readers: plain below 1024, and otherwise in kibibytes or mebibytes with one decimal. A
count is first brought to the 53 bits of a 64-bit float, which only changes those above 2⁵³, and all
rounding is to the nearest, ties to even.
-/

namespace Scaffold.Size

/-- A quotient rounded to the nearest whole number, a tie to the even one. -/
def roundDiv (num den : Nat) : Nat :=
  let quotient := num / den
  let rest := 2 * (num % den)
  if rest < den || (rest == den && quotient % 2 == 0) then quotient else quotient + 1

def precision : Nat := 53

/-- The nearest number with at most 53 significant bits. -/
def toPrecision (n : Nat) : Nat :=
  let step := Nat.pow 2 (n.log2 + 1 - precision)
  roundDiv n step * step

def kibi : Nat := 1024

def mebi : Nat := kibi * kibi

def inUnit (n unit : Nat) : String :=
  let tenths := roundDiv (10 * n) unit
  s!"{tenths / 10}.{tenths % 10}"

def format (bytes : Nat) : String :=
  let n := toPrecision bytes
  if n < kibi then s!"{bytes} B"
  else if n < mebi then s!"{inUnit n kibi} KiB"
  else s!"{inUnit n mebi} MiB"

end Scaffold.Size
