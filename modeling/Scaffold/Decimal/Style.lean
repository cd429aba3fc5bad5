import Scaffold.Decimal.Shortest

/-!
# Written decimals

How a float is written: plainly with a point where the number is neither very large nor very small,
and with one digit before the point and a power of ten otherwise.
-/

namespace Scaffold.Decimal

/-- The decisions of a style: which powers of ten of the leading digit are written plainly. -/
structure Style where
  leastPlain : Int
  greatestPlain : Int

/-- Numbers of a JSON document: plain from 10⁻⁵ to below 10¹⁶. -/
def jsonStyle : Style := ⟨-5, 15⟩

/-- Digits around a point, for a number whose leading digit stands for `10 ^ lead`. -/
def plain (digits : List Char) (lead : Int) : List Char :=
  if lead < 0 then '0' :: '.' :: (List.replicate (-lead - 1).toNat '0' ++ digits)
  else
    let whole := lead.toNat + 1
    if digits.length ≤ whole then
      digits ++ List.replicate (whole - digits.length) '0' ++ ['.', '0']
    else digits.take whole ++ '.' :: digits.drop whole

/-- Digits with a power of ten; the exponent always has its sign. -/
def withPower (digits : List Char) (lead : Int) : List Char :=
  let mantissa :=
    match digits with
    | [] => []
    | [d] => [d]
    | d :: rest => d :: '.' :: rest
  mantissa ++ 'e' :: (if lead < 0 then '-' else '+') :: Nat.toDigits 10 lead.natAbs

def render (style : Style) (d : Decimal) : List Char :=
  if d.digits = 0 then ['0', '.', '0']
  else
    let digits := Nat.toDigits 10 d.digits
    let lead := d.exponent + digits.length - 1
    if style.leastPlain ≤ lead ∧ lead ≤ style.greatestPlain then plain digits lead
    else withPower digits lead

def floatText (style : Style) (x : Float) : String :=
  let bits := x.toBits
  let text := render style (shortest bits)
  String.ofList (if signBit ≤ bits.toNat then '-' :: text else text)

end Scaffold.Decimal
