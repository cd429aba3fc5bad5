/-!
# Shortest decimals

A finite 64-bit float is `m · 2 ^ q`, and every real near enough to it reads back as the same float.
Of the decimals that read back, `shortest` takes one with the fewest digits, and of those the nearest;
of two at the same distance the one with the even last digit. All arithmetic is exact.
-/

namespace Scaffold

/-- The number `digits · 10 ^ exponent`. -/
structure Decimal where
  digits : Nat
  exponent : Int
  deriving DecidableEq, Repr

namespace Decimal

structure Ratio where
  num : Nat
  den : Nat
  deriving DecidableEq, Repr

def Ratio.scale (r : Ratio) (e : Int) : Ratio :=
  if 0 ≤ e then ⟨r.num * Nat.pow 10 e.toNat, r.den⟩ else ⟨r.num, r.den * Nat.pow 10 (-e).toNat⟩

/-- The largest `k` with `10 ^ k ≤ r`. -/
def Ratio.logTen (r : Ratio) : Int :=
  if r.den ≤ r.num then ((Nat.toDigits 10 (r.num / r.den)).length : Int) - 1
  else -((Nat.toDigits 10 ((r.den + r.num - 1) / r.num - 1)).length : Int)

/-- A positive float as `significand · 2 ^ exponent`, with the least significand of its binade marked:
below it the floats lie closer together. -/
structure Binary where
  significand : Nat
  exponent : Int
  closeBelow : Bool
  deriving DecidableEq, Repr

/-- One more than the greatest fraction field of a float: its 52 lowest bits. -/
def fractionLimit : Nat := 0x10000000000000

/-- One more than the greatest exponent field of a float: the 11 bits above the fraction. -/
def exponentLimit : Nat := 0x800

/-- The least number whose highest bit, the sign of a float, is set. -/
def signBit : Nat := 0x8000000000000000

def exponentField (bits : UInt64) : Nat :=
  bits.toNat / fractionLimit % exponentLimit

/-- The parts of the float with the given bits, its sign left out. -/
def Binary.ofBits (bits : UInt64) : Binary :=
  let fraction := bits.toNat % fractionLimit
  let biased := exponentField bits
  if biased = 0 then ⟨fraction, -1074, false⟩
  else ⟨fractionLimit + fraction, (biased : Int) - 1075, fraction = 0 && biased != 1⟩

/-- `quarters / 4 · 2 ^ exponent` as a fraction. -/
def Binary.quarters (b : Binary) (quarters : Nat) : Ratio :=
  let e := b.exponent - 2
  if 0 ≤ e then ⟨quarters * Nat.pow 2 e.toNat, 1⟩ else ⟨quarters, Nat.pow 2 (-e).toNat⟩

/-- The decimal `d · 10 ^ e` reads back as the float: it lies between the midpoints to both
neighbours, and may be a midpoint itself when the significand is even. -/
def Binary.readsBack (b : Binary) (d : Nat) (e : Int) : Bool :=
  let low := (b.quarters (4 * b.significand - if b.closeBelow then 1 else 2)).scale (-e)
  let high := (b.quarters (4 * b.significand + 2)).scale (-e)
  if b.significand % 2 = 0 then low.num ≤ d * low.den && d * high.den ≤ high.num
  else low.num < d * low.den && d * high.den < high.num

/-- The best decimal with `n` digits that reads back, if one does. Only the two decimals around the
value can be best. -/
def Binary.withDigits (b : Binary) (n : Nat) : Option Decimal :=
  let value := b.quarters (4 * b.significand)
  let e := value.logTen - n + 1
  let scaled := value.scale (-e)
  let below := scaled.num / scaled.den
  let twiceRest := 2 * (scaled.num % scaled.den)
  match b.readsBack below e, b.readsBack (below + 1) e with
  | false, false => none
  | true, false => some ⟨below, e⟩
  | false, true => some ⟨below + 1, e⟩
  | true, true =>
    if twiceRest < scaled.den then some ⟨below, e⟩
    else if scaled.den < twiceRest then some ⟨below + 1, e⟩
    else if below % 2 = 0 then some ⟨below, e⟩
    else some ⟨below + 1, e⟩

def trim (d : Decimal) : Decimal :=
  if 0 < d.digits ∧ d.digits % 10 = 0 then trim ⟨d.digits / 10, d.exponent + 1⟩ else d
termination_by d.digits
decreasing_by omega

/-- The shortest decimal that reads back as the float with the given bits, its sign left out. -/
def shortest (bits : UInt64) : Decimal :=
  let b := Binary.ofBits bits
  if b.significand = 0 then ⟨0, 0⟩
  else
    match (List.range 17).findSome? fun i => b.withDigits (i + 1) with
    | some d => d.trim
    | none => ⟨0, 0⟩

end Decimal

end Scaffold
