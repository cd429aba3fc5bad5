import Mathlib.Tactic.Linarith
import Scaffold.Proofs.Size.Reading

/-!
# Accuracy of sizes

What is read back from a byte count is off by half a tenth of the unit at most, and keeps the order of the counts, also
where the unit changes. But the unit is chosen before the number is rounded, so the last counts of a unit are shown as
1024 of it.
-/

namespace Scaffold.Size

variable {n m : Nat}

/-- Ten times the bytes that a byte count is shown as. -/
def worth (n : Nat) : Nat :=
  tenthsOf n * (scaleOf n).bytes

private theorem value_shown (n : Nat) : (shown n).value = (worth n : Rat) / 10 := by
  simp only [Reading.value, shown, worth, Nat.cast_mul]
  ring

/-! ## Distance -/

/-- What rounding to a float can change in a byte count. -/
def slack (n : Nat) : Nat :=
  if 2 ^ precision < n then 1024 else 0

private theorem toPrecision_within (h : n < 2 ^ 64) : n ≤ toPrecision n + slack n ∧ toPrecision n ≤ n + slack n := by
  by_cases hlarge : 2 ^ precision < n
  · have hnear := toPrecision_near n
    have hspacing := spacing_le h
    rw [slack, if_pos hlarge]
    omega
  · have hcount : toPrecision n = n := toPrecision_of_le (Nat.le_of_not_lt hlarge)
    omega

private theorem worth_near (n : Nat) :
    20 * toPrecision n ≤ 2 * worth n + (scaleOf n).bytes ∧ 2 * worth n ≤ 20 * toPrecision n + (scaleOf n).bytes := by
  have hnear := roundDiv_near (10 * toPrecision n) (scaleOf n).bytes_pos
  rw [worth, tenthsOf]
  omega

private theorem value_near (h : n < 2 ^ 64) :
    |(shown n).value - n| ≤ ((shown n).scale.bytes : Rat) / 20 + (slack n : Rat) := by
  obtain ⟨hcount, hcount'⟩ := toPrecision_within h
  obtain ⟨hworth, hworth'⟩ := worth_near n
  have hlow : (20 * n : Rat) ≤ 2 * worth n + (scaleOf n).bytes + 20 * slack n := by
    exact_mod_cast (by omega : 20 * n ≤ 2 * worth n + (scaleOf n).bytes + 20 * slack n)
  have hhigh : (2 * worth n : Rat) ≤ 20 * n + (scaleOf n).bytes + 20 * slack n := by
    exact_mod_cast (by omega : 2 * worth n ≤ 20 * n + (scaleOf n).bytes + 20 * slack n)
  rw [value_shown, abs_le]
  simp only [shown]
  constructor <;> linarith

private theorem tenths_even (h : |(shown n).value - toPrecision n| = ((scaleOf n).bytes : Rat) / 20) :
    tenthsOf n % 2 = 0 := by
  apply roundDiv_tie (scaleOf n).bytes_pos
  rw [value_shown] at h
  obtain habove | hbelow := eq_or_eq_neg_of_abs_eq h
  · right
    have hcast : (2 * worth n : Rat) = 2 * (10 * toPrecision n) + (scaleOf n).bytes := by linarith
    exact_mod_cast hcast
  · left
    have hcast : (2 * (10 * toPrecision n) : Rat) = 2 * worth n + (scaleOf n).bytes := by linarith
    exact_mod_cast hcast

/-! ## Order -/

/-- Between two counts with different units lies the larger unit, which is a number of the smaller one. -/
theorem scaleOf_between (h : n ≤ m) (hne : scaleOf n ≠ scaleOf m) :
    toPrecision n ≤ (scaleOf m).bytes ∧ (scaleOf m).bytes ≤ toPrecision m ∧
      (scaleOf n).bytes ∣ (scaleOf m).bytes := by
  have hcounts := toPrecision_mono h
  have hn := scaleOf_cases n
  have hm := scaleOf_cases m
  simp only [kibi, mebi] at hn hm
  obtain ⟨hn, hscale⟩ | ⟨hn, hn', hscale⟩ | ⟨hn, hn', hscale⟩ := hn <;>
    obtain ⟨hm, hscale'⟩ | ⟨hm, hm', hscale'⟩ | ⟨hm, hm', hscale'⟩ := hm <;>
    simp only [hscale, hscale', Scale.bytes, ne_eq, not_true_eq_false] at hne ⊢ <;>
    omega

private theorem worth_mono (h : n ≤ m) : worth n ≤ worth m := by
  by_cases hscale : scaleOf n = scaleOf m
  · rw [worth, worth, tenthsOf, tenthsOf, hscale]
    apply Nat.mul_le_mul_right
    exact roundDiv_mono (Nat.mul_le_mul_left 10 (toPrecision_mono h))
  · obtain ⟨hbelow, habove, times, hbytes⟩ := scaleOf_between h hscale
    calc
      worth n ≤ 10 * times * (scaleOf n).bytes := by
        apply Nat.mul_le_mul_right
        apply roundDiv_le (scaleOf n).bytes_pos
        rw [Nat.mul_assoc, Nat.mul_comm times, ← hbytes]
        exact Nat.mul_le_mul_left 10 hbelow
      _ = 10 * (scaleOf m).bytes := by rw [hbytes, Nat.mul_assoc, Nat.mul_comm times]
      _ ≤ worth m := by
        apply Nat.mul_le_mul_right
        apply le_roundDiv (scaleOf m).bytes_pos
        exact Nat.mul_le_mul_left 10 habove

private theorem value_mono (h : n ≤ m) : (shown n).value ≤ (shown m).value := by
  rw [value_shown, value_shown]
  have hworth : (worth n : Rat) ≤ worth m := by exact_mod_cast worth_mono h
  linarith

/-- A byte count of 64 bits is read back as a number of units: bytes below 1024, kibibytes below 1024 of these, and mebibytes
from there on. It is off by a twentieth of the unit at most, and above 2⁵³ by 1024 bytes more, but exact when it is plain.
The number has one decimal at most, and of two that are as near to
the count as a float it is the one that is even. Larger counts are read back as no less, whatever their units. -/
theorem read_format_near (n : Nat) (hn : n < 2 ^ 64) :
    ∃ r, read? (format n) = some r ∧
      (r.scale = if n < 1024 then .byte else if n < 1048576 then .kibi else .mebi) ∧
      |r.value - n| ≤ (r.scale.bytes : Rat) / 20 + (if 2 ^ 53 < n then 1024 else 0) ∧
      (n < 1024 → r.value = n) ∧
      (∃ tenths : Nat, r.number = tenths / 10 ∧
        (|r.value - toPrecision n| = (r.scale.bytes : Rat) / 20 → tenths % 2 = 0)) ∧
      ∀ m s, n ≤ m → m < 2 ^ 64 → read? (format m) = some s → r.value ≤ s.value := by
  refine ⟨shown n, read?_format n, scaleOf_eq n, ?_, ?_, ⟨tenthsOf n, rfl, tenths_even⟩, ?_⟩
  · have hnear := value_near hn
    rw [slack] at hnear
    push_cast at hnear
    exact hnear
  · intro hsmall
    rw [shown_byte hsmall]
    simp [Reading.value, Scale.bytes]
  · intro m s hnm hm hs
    obtain rfl := Option.some.inj ((read?_format m).symm.trans hs)
    exact value_mono hnm

/-- The last count below a mebibyte is read back as one. -/
theorem read_format_near_mebi :
    1048575 < 2 ^ 64 ∧ ∃ r, read? (format 1048575) = some r ∧ r.scale = .kibi ∧
      |r.value - 1048575| ≤ (r.scale.bytes : Rat) / 20 ∧ ∀ s, read? (format 1048576) = some s → r.value ≤ s.value := by
  obtain ⟨r, hread, hscale, hnear, -, -, hmono⟩ := read_format_near 1048575 (by decide)
  refine ⟨by decide, r, hread, hscale, by simpa using hnear, fun s hs => hmono 1048576 s (by decide) (by decide) hs⟩

/-! ## Numbers of a unit -/

private theorem scaleOf_eq_mebi_iff (n : Nat) : scaleOf n = .mebi ↔ mebi ≤ n := by
  have hcount : toPrecision n < mebi ↔ n < mebi := toPrecision_lt_iff (by decide)
  obtain ⟨hbyte, hscale⟩ | ⟨-, hkibi, hscale⟩ | ⟨-, hkibi, hscale⟩ := scaleOf_cases n
  · have hkibi : toPrecision n < mebi := Nat.lt_trans hbyte (by decide)
    simp [hscale, hcount.mp hkibi]
  · simp [hscale, hcount.mp hkibi]
  · rw [hcount] at hkibi
    simp [hscale, Nat.le_of_not_lt hkibi]

private theorem kibi_pos : 0 < kibi := by
  decide

private theorem roundDiv_kibi_lt_iff (n : Nat) : roundDiv (10 * n) kibi < 10240 ↔ n < 1048525 := by
  have hnear := roundDiv_near (10 * n) kibi_pos
  simp only [kibi] at hnear ⊢
  omega

private theorem roundDiv_full_kibi (hlow : 1048525 ≤ n) (hhigh : n < mebi) : roundDiv (10 * n) kibi = 10240 := by
  apply Nat.le_antisymm
  · apply roundDiv_le kibi_pos
    simp only [mebi, kibi] at hhigh ⊢
    omega
  · have hlow' := (roundDiv_kibi_lt_iff n).not.mpr (Nat.not_lt_of_le hlow)
    omega

private theorem number_lt_iff (h : n < mebi) : (shown n).number < 1024 ↔ n < 1048525 := by
  have hcount : toPrecision n = n := toPrecision_of_lt_mebi h
  obtain ⟨hbyte, -⟩ | ⟨-, -, hscale⟩ | ⟨-, hmebi, -⟩ := scaleOf_cases n
  · rw [hcount] at hbyte
    have hnumber : (n : Rat) < 1024 := by exact_mod_cast (hbyte : n < 1024)
    simp only [kibi] at hbyte
    simp only [shown_byte hbyte, hnumber, true_iff]
    omega
  · have htenths : tenthsOf n = roundDiv (10 * n) kibi := by
      rw [tenthsOf, hscale, hcount]
      rfl
    rw [← roundDiv_kibi_lt_iff, ← htenths, shown, div_lt_iff₀ (by norm_num)]
    norm_num
  · rw [hcount] at hmebi
    exact absurd h hmebi

private theorem format_full_kibi (hlow : 1048525 ≤ n) (hhigh : n < mebi) : format n = "1024.0 KiB" := by
  have hkibi : ¬n < kibi := by
    simp only [kibi]
    omega
  rw [format, toPrecision_of_lt_mebi hhigh, if_neg hkibi, if_pos hhigh, inUnit, roundDiv_full_kibi hlow hhigh]
  rfl

/-- Where no mebibytes are shown, the number is below 1024 but for the last counts of kibibytes. All of these are shown as
1024 of them. -/
theorem number_below_iff (n : Nat) :
    ∃ r, read? (format n) = some r ∧
      ((r.scale ≠ .mebi → r.number < 1024) ↔ n < 1048525 ∨ 1048576 ≤ n) ∧
      (1048525 ≤ n → n < 1048576 → format n = "1024.0 KiB") := by
  refine ⟨shown n, read?_format n, ?_, format_full_kibi⟩
  have hscale : (shown n).scale = .mebi ↔ 1048576 ≤ n := scaleOf_eq_mebi_iff n
  by_cases hmebi : 1048576 ≤ n
  · simp [hscale, hmebi]
  · have hnumber := number_lt_iff (Nat.lt_of_not_le hmebi)
    simp [hscale, hmebi, hnumber]

/-- The last count of kibibytes is shown as 1024 of them, not as a mebibyte. -/
theorem full_kibi_shown :
    ¬∀ n < 2 ^ 64, ∀ r, read? (format n) = some r → r.scale ≠ .mebi → r.number < 1024 := by
  intro h
  have hscale : (shown 1048575).scale ≠ .mebi := by
    intro hmebi
    have hle := (scaleOf_eq_mebi_iff 1048575).mp hmebi
    simp only [mebi, kibi] at hle
    omega
  have hnumber := h 1048575 (by decide) (shown 1048575) (read?_format 1048575) hscale
  rw [number_lt_iff (by decide)] at hnumber
  omega

end Scaffold.Size
