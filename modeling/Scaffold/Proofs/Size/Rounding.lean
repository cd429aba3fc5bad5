import Mathlib.Algebra.Group.Nat.Defs
import Scaffold.Size

/-!
# Rounding

A rounded quotient is a nearest whole number, the even one of two, and rounding keeps the order. So it stays on its side
of every whole number, and the same holds of the numbers that a float can hold.
-/

namespace Scaffold.Size

variable {n m den k : Nat}

/-! ## Quotients -/

private theorem roundDiv_cases (n den : Nat) :
    (roundDiv n den = n / den ∧ 2 * (n % den) ≤ den) ∨
      (roundDiv n den = n / den + 1 ∧ den ≤ 2 * (n % den)) := by
  simp only [roundDiv, Bool.or_eq_true, Bool.and_eq_true, decide_eq_true_eq, beq_iff_eq]
  split
  · exact .inl ⟨rfl, by omega⟩
  · exact .inr ⟨rfl, by omega⟩

private theorem roundDiv_half (h : 2 * (n % den) = den) : roundDiv n den % 2 = 0 := by
  simp only [roundDiv, h, beq_self_eq_true, Bool.true_and, Bool.or_eq_true, decide_eq_true_eq, beq_iff_eq,
    Nat.lt_irrefl, false_or]
  split <;> omega

theorem roundDiv_near (n : Nat) (hden : 0 < den) :
    2 * n ≤ 2 * (roundDiv n den * den) + den ∧ 2 * (roundDiv n den * den) ≤ 2 * n + den := by
  have hsplit := Nat.div_add_mod' n den
  have hrest := Nat.mod_lt n hden
  obtain ⟨hround, hhalf⟩ | ⟨hround, hhalf⟩ := roundDiv_cases n den
  · rw [hround]
    omega
  · rw [hround, Nat.add_one_mul (n / den)]
    omega

/-- What is off by half a divisor is even. -/
theorem roundDiv_tie (hden : 0 < den)
    (h : 2 * n = 2 * (roundDiv n den * den) + den ∨ 2 * (roundDiv n den * den) = 2 * n + den) :
    roundDiv n den % 2 = 0 := by
  apply roundDiv_half
  have hsplit := Nat.div_add_mod' n den
  have hrest := Nat.mod_lt n hden
  obtain ⟨hround, -⟩ | ⟨hround, -⟩ := roundDiv_cases n den
  · rw [hround] at h
    omega
  · rw [hround, Nat.add_one_mul (n / den)] at h
    omega

theorem roundDiv_mul (k : Nat) (hden : 0 < den) : roundDiv (k * den) den = k := by
  simp [roundDiv, hden]

theorem roundDiv_mono (h : n ≤ m) : roundDiv n den ≤ roundDiv m den := by
  have hquotients : n / den ≤ m / den := Nat.div_le_div_right h
  by_cases hsame : n / den = m / den
  · -- With one quotient the rests are in order, and so are the sides of the half.
    have hrests : n % den ≤ m % den := by
      have hn := Nat.div_add_mod' n den
      have hm := Nat.div_add_mod' m den
      rw [hsame] at hn
      omega
    simp only [roundDiv, hsame, Bool.or_eq_true, Bool.and_eq_true, decide_eq_true_eq, beq_iff_eq]
    split <;> split <;> omega
  · have hn := roundDiv_cases n den
    have hm := roundDiv_cases m den
    omega

theorem roundDiv_le (hden : 0 < den) (h : n ≤ k * den) : roundDiv n den ≤ k := by
  rw [← roundDiv_mul k hden]
  exact roundDiv_mono h

theorem le_roundDiv (hden : 0 < den) (h : k * den ≤ n) : k ≤ roundDiv n den := by
  rw [← roundDiv_mul k hden]
  exact roundDiv_mono h

/-! ## Numbers of a float -/

/-- The distance of the numbers of a float around a number. -/
def spacing (n : Nat) : Nat :=
  2 ^ (n.log2 + 1 - precision)

private theorem toPrecision_eq (n : Nat) : toPrecision n = roundDiv n (spacing n) * spacing n :=
  rfl

private theorem spacing_pos (n : Nat) : 0 < spacing n :=
  Nat.two_pow_pos _

theorem toPrecision_near (n : Nat) :
    2 * n ≤ 2 * toPrecision n + spacing n ∧ 2 * toPrecision n ≤ 2 * n + spacing n := by
  rw [toPrecision_eq]
  exact roundDiv_near n (spacing_pos n)

/-- Powers of two around a number are numbers of a float, so rounding does not pass them. -/
theorem toPrecision_bounds (hn : n ≠ 0) : 2 ^ n.log2 ≤ toPrecision n ∧ toPrecision n ≤ 2 ^ (n.log2 + 1) := by
  have hlow : 2 ^ (n.log2 - (n.log2 + 1 - precision)) * spacing n = 2 ^ n.log2 := by
    rw [spacing, ← Nat.pow_add]
    congr 1
    simp only [precision]
    omega
  have hhigh : 2 ^ (n.log2 + 1 - (n.log2 + 1 - precision)) * spacing n = 2 ^ (n.log2 + 1) := by
    rw [spacing, ← Nat.pow_add]
    congr 1
    omega
  rw [toPrecision_eq]
  constructor
  · rw [← hlow]
    apply Nat.mul_le_mul_right
    apply le_roundDiv (spacing_pos n)
    rw [hlow]
    exact Nat.log2_self_le hn
  · rw [← hhigh]
    apply Nat.mul_le_mul_right
    apply roundDiv_le (spacing_pos n)
    rw [hhigh]
    exact Nat.le_of_lt Nat.lt_log2_self

theorem toPrecision_mono (h : n ≤ m) : toPrecision n ≤ toPrecision m := by
  by_cases hzero : n = 0
  · rw [hzero]
    exact Nat.zero_le _
  have hm : m ≠ 0 := by omega
  have hlogs : n.log2 < m.log2 + 1 := (Nat.log2_lt hzero).mpr (Nat.lt_of_le_of_lt h Nat.lt_log2_self)
  obtain hlog | hlog := Nat.eq_or_lt_of_le (Nat.le_of_lt_succ hlogs)
  · have hspacing : spacing n = spacing m := by rw [spacing, hlog, spacing]
    rw [toPrecision_eq, toPrecision_eq, hspacing]
    exact Nat.mul_le_mul_right _ (roundDiv_mono h)
  · calc
      toPrecision n ≤ 2 ^ (n.log2 + 1) := (toPrecision_bounds hzero).2
      _ ≤ 2 ^ m.log2 := Nat.pow_le_pow_right (by decide) hlog
      _ ≤ toPrecision m := (toPrecision_bounds hm).1

theorem toPrecision_of_le (h : n ≤ 2 ^ precision) : toPrecision n = n := by
  obtain rfl | hlt := Nat.eq_or_lt_of_le h
  · decide
  have hspacing : spacing n = 1 := by
    have hlog : n.log2 + 1 ≤ precision := by
      by_cases hzero : n = 0
      · rw [hzero]
        decide
      · exact (Nat.log2_lt hzero).mpr hlt
    rw [spacing, Nat.sub_eq_zero_of_le hlog, Nat.pow_zero]
  have hmul := roundDiv_mul n Nat.one_pos
  rw [Nat.mul_one] at hmul
  rw [toPrecision_eq, hspacing, hmul, Nat.mul_one]

theorem toPrecision_of_lt_mebi (h : n < mebi) : toPrecision n = n := by
  apply toPrecision_of_le
  simp only [mebi, kibi, precision] at h ⊢
  omega

theorem toPrecision_lt_iff (hk : k ≤ 2 ^ precision) : toPrecision n < k ↔ n < k := by
  obtain hn | hn := Nat.le_total n (2 ^ precision)
  · rw [toPrecision_of_le hn]
  · have hlarge := toPrecision_mono hn
    rw [toPrecision_of_le (Nat.le_refl _)] at hlarge
    omega

theorem spacing_le (h : n < 2 ^ 64) : spacing n ≤ 2 ^ 11 := by
  rw [spacing]
  apply Nat.pow_le_pow_right (by decide)
  have hlog : n.log2 < 64 := by
    by_cases hzero : n = 0
    · rw [hzero]
      decide
    · exact (Nat.log2_lt hzero).mpr h
  simp only [precision]
  omega

end Scaffold.Size
