import Mathlib.Data.Rat.Defs
import Mathlib.Tactic.FieldSimp
import Mathlib.Tactic.Ring
import Scaffold.Proofs.Size.Rounding

/-!
# Reading sizes

A size says a number of units, and it is read back as that: digits, maybe with a point among them, then a blank and
the unit. What is read back from a byte count is its rounded number of tenths in the unit for it.
-/

namespace Scaffold.Size

inductive Scale where
  | byte
  | kibi
  | mebi
  deriving DecidableEq, Repr

namespace Scale

def all : List Scale :=
  [byte, kibi, mebi]

def bytes : Scale → Nat
  | byte => 1
  | kibi => 1024
  | mebi => 1024 * 1024

def symbol : Scale → String
  | byte => "B"
  | kibi => "KiB"
  | mebi => "MiB"

def ofSymbol? (symbol : List Char) : Option Scale :=
  all.find? fun scale => scale.symbol.toList = symbol

/-- The unit for a byte count. -/
def ofCount (count : Nat) : Scale :=
  if count < kibi.bytes then byte else if count < mebi.bytes then kibi else mebi

end Scale

/-- A number of units. -/
structure Reading where
  number : Rat
  scale : Scale
  deriving DecidableEq

def Reading.value (r : Reading) : Rat :=
  r.number * r.scale.bytes

def readDigits? (cs : List Char) : Option Nat :=
  if cs ≠ [] ∧ cs.all Char.isDigit then some (Nat.ofDigitChars 10 cs 0) else none

/-- The number that digits stand for, with or without a point among them. -/
def readNumber? (cs : List Char) : Option Rat :=
  match cs.splitOn '.' with
  | [whole] => (readDigits? whole).map fun n => (n : Rat)
  | [whole, fraction] => do
    let n ← readDigits? whole
    let m ← readDigits? fraction
    return (n + m / 10 ^ fraction.length : Rat)
  | _ => none

def read? (text : String) : Option Reading :=
  match text.toList.splitOn ' ' with
  | [number, symbol] => do
    let number ← readNumber? number
    let scale ← Scale.ofSymbol? symbol
    return ⟨number, scale⟩
  | _ => none

namespace Scale

theorem bytes_pos (scale : Scale) : 0 < scale.bytes := by
  cases scale <;> decide

private theorem ofSymbol?_symbol (scale : Scale) : ofSymbol? scale.symbol.toList = some scale := by
  cases scale <;> decide

private theorem blank_not_mem_symbol (scale : Scale) : ' ' ∉ scale.symbol.toList := by
  cases scale <;> decide

end Scale

/-! ## Numbers -/

private theorem not_mem_digits {c : Char} (hc : c.isDigit = false) (n : Nat) : c ∉ Nat.toDigits 10 n := by
  intro hmem
  have hdigit := Nat.isDigit_of_mem_toDigits (by decide) (by decide) hmem
  simp [hc] at hdigit

private theorem readDigits?_digits (n : Nat) : readDigits? (Nat.toDigits 10 n) = some n := by
  have hdigits : ∀ c ∈ Nat.toDigits 10 n, c.isDigit = true := fun c =>
    Nat.isDigit_of_mem_toDigits (by decide) (by decide)
  simp [readDigits?, Nat.toDigits_ne_nil, Nat.ofDigitChars_ten_toDigits]
  exact hdigits

private theorem readNumber?_digits (n : Nat) : readNumber? (Nat.toDigits 10 n) = some (n : Rat) := by
  have hsplit : (Nat.toDigits 10 n).splitOn '.' = [Nat.toDigits 10 n] :=
    List.splitOn_eq_singleton (not_mem_digits rfl n)
  simp [readNumber?, hsplit, readDigits?_digits]

private theorem readNumber?_tenths (tenths : Nat) :
    readNumber? (Nat.toDigits 10 (tenths / 10) ++ '.' :: Nat.toDigits 10 (tenths % 10)) = some (tenths / 10 : Rat) := by
  have hsplit : (Nat.toDigits 10 (tenths / 10) ++ '.' :: Nat.toDigits 10 (tenths % 10)).splitOn '.'
      = [Nat.toDigits 10 (tenths / 10), Nat.toDigits 10 (tenths % 10)] := by
    rw [List.splitOn_append_cons_self_of_not_mem (not_mem_digits rfl _),
      List.splitOn_eq_singleton (not_mem_digits rfl _)]
  have hdigit : (Nat.toDigits 10 (tenths % 10)).length = 1 := by
    rw [Nat.toDigits_of_lt_base (Nat.mod_lt _ (by decide))]
    rfl
  have hvalue : ((tenths / 10 : Nat) : Rat) + ((tenths % 10 : Nat) : Rat) / 10 = tenths / 10 := by
    have hcast : (tenths : Rat) = ((tenths / 10 : Nat) : Rat) * 10 + ((tenths % 10 : Nat) : Rat) := by
      exact_mod_cast (Nat.div_add_mod' tenths 10).symm
    rw [hcast]
    field_simp
  simp [readNumber?, hsplit, hdigit, hvalue, readDigits?_digits]

/-! ## Sizes -/

private theorem read?_parts {text : String} {number : List Char} {value : Rat} {scale : Scale}
    (htext : text.toList = number ++ ' ' :: scale.symbol.toList) (hblank : ' ' ∉ number)
    (hnumber : readNumber? number = some value) : read? text = some ⟨value, scale⟩ := by
  have hsplit : text.toList.splitOn ' ' = [number, scale.symbol.toList] := by
    rw [htext, List.splitOn_append_cons_self_of_not_mem hblank,
      List.splitOn_eq_singleton scale.blank_not_mem_symbol]
  simp [read?, hsplit, hnumber, Scale.ofSymbol?_symbol]

private theorem read?_inUnit {text : String} {n : Nat} {scale : Scale}
    (htext : text.toList = (inUnit n scale.bytes).toList ++ ' ' :: scale.symbol.toList) :
    read? text = some ⟨(roundDiv (10 * n) scale.bytes : Rat) / 10, scale⟩ := by
  have hnumber : (inUnit n scale.bytes).toList = Nat.toDigits 10 (roundDiv (10 * n) scale.bytes / 10) ++
      '.' :: Nat.toDigits 10 (roundDiv (10 * n) scale.bytes % 10) := by
    simp [inUnit, toString]
  rw [hnumber] at htext
  apply read?_parts htext _ (readNumber?_tenths _)
  simp [not_mem_digits]

/-- The unit that is shown with a byte count. -/
def scaleOf (n : Nat) : Scale :=
  Scale.ofCount (toPrecision n)

/-- The tenths of its unit that a byte count is rounded to. -/
def tenthsOf (n : Nat) : Nat :=
  roundDiv (10 * toPrecision n) (scaleOf n).bytes

/-- What a byte count is shown as. -/
def shown (n : Nat) : Reading :=
  ⟨tenthsOf n / 10, scaleOf n⟩

theorem scaleOf_cases (n : Nat) :
    (toPrecision n < kibi ∧ scaleOf n = .byte) ∨
      (¬toPrecision n < kibi ∧ toPrecision n < mebi ∧ scaleOf n = .kibi) ∨
      (¬toPrecision n < kibi ∧ ¬toPrecision n < mebi ∧ scaleOf n = .mebi) := by
  by_cases hbyte : toPrecision n < kibi
  · exact .inl ⟨hbyte, if_pos hbyte⟩
  · by_cases hkibi : toPrecision n < mebi
    · exact .inr (.inl ⟨hbyte, hkibi, (if_neg hbyte).trans (if_pos hkibi)⟩)
    · exact .inr (.inr ⟨hbyte, hkibi, (if_neg hbyte).trans (if_neg hkibi)⟩)

/-- The unit is that of the count itself: no limit between two units is passed when a count is brought to a float. -/
theorem scaleOf_eq (n : Nat) : scaleOf n = Scale.ofCount n := by
  have hkibi : toPrecision n < Scale.kibi.bytes ↔ n < Scale.kibi.bytes := toPrecision_lt_iff (by decide)
  have hmebi : toPrecision n < Scale.mebi.bytes ↔ n < Scale.mebi.bytes := toPrecision_lt_iff (by decide)
  simp only [scaleOf, Scale.ofCount, hkibi, hmebi]

theorem shown_byte {n : Nat} (h : n < kibi) : shown n = ⟨n, .byte⟩ := by
  have hcount : toPrecision n = n := toPrecision_of_lt_mebi (Nat.lt_trans h (by decide))
  have hscale : scaleOf n = .byte := if_pos (hcount.symm ▸ h)
  have htenths : tenthsOf n = 10 * n := by
    rw [tenthsOf, hscale, hcount]
    simpa [Scale.bytes] using roundDiv_mul (10 * n) Nat.one_pos
  rw [shown, hscale, htenths]
  simp

/-- What is read back from a byte count. -/
theorem read?_format (n : Nat) : read? (format n) = some (shown n) := by
  obtain ⟨hbyte, -⟩ | ⟨hbyte, hkibi, hscale⟩ | ⟨hbyte, hkibi, hscale⟩ := scaleOf_cases n
  · rw [shown_byte ((toPrecision_lt_iff (by decide)).mp hbyte), format, if_pos hbyte]
    apply read?_parts _ _ (readNumber?_digits n)
    · simp [Scale.symbol, toString]
    · exact not_mem_digits rfl n
  · rw [shown, tenthsOf, hscale, format, if_neg hbyte, if_pos hkibi]
    apply read?_inUnit
    simp [Scale.symbol, Scale.bytes, kibi, toString]
  · rw [shown, tenthsOf, hscale, format, if_neg hbyte, if_neg hkibi]
    apply read?_inUnit
    simp [Scale.symbol, Scale.bytes, kibi, mebi, toString]

end Scaffold.Size
