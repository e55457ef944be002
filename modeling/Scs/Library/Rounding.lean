import Mathlib.Algebra.Group.Nat.Defs
import Mathlib.Data.Nat.Log

/-!
# Rounding to a number of significant bits

Natural numbers rounded to the nearest multiple of a unit, ties to the even
multiple, where the unit is fixed or follows the size of the number. Both are
monotone and leave the multiples of their unit alone.
-/

namespace Rounding

set_option autoImplicit false

def toMultiple (unit value : ℕ) : ℕ :=
  let quotient := value / unit
  let remainder := value % unit
  if unit < 2 * remainder ∨ (2 * remainder = unit ∧ quotient % 2 = 1) then
    (quotient + 1) * unit
  else quotient * unit

def toBits (bits value : ℕ) : ℕ := toMultiple (2 ^ (value.log2 + 1 - bits)) value

section Multiples

variable {unit count left right value : ℕ}

theorem to_multiple_lower (unit value : ℕ) : value / unit * unit ≤ toMultiple unit value := by
  unfold toMultiple
  simp only
  split_ifs
  · exact Nat.mul_le_mul_right unit (Nat.le_succ _)
  · exact Nat.le_refl _

theorem to_multiple_upper (unit value : ℕ) :
    toMultiple unit value ≤ (value / unit + 1) * unit := by
  unfold toMultiple
  simp only
  split_ifs
  · exact Nat.le_refl _
  · exact Nat.mul_le_mul_right unit (Nat.le_succ _)

theorem to_multiple_mono (less : left ≤ right) :
    toMultiple unit left ≤ toMultiple unit right := by
  rcases Nat.lt_or_eq_of_le (Nat.div_le_div_right (c := unit) less) with apart | together
  · calc
      toMultiple unit left ≤ (left / unit + 1) * unit := to_multiple_upper unit left
      _ ≤ right / unit * unit := Nat.mul_le_mul_right unit apart
      _ ≤ toMultiple unit right := to_multiple_lower unit right
  · have leftSplit := Nat.div_add_mod left unit
    have rightSplit := Nat.div_add_mod right unit
    rw [together] at leftSplit
    unfold toMultiple
    simp only [together]
    split_ifs with up stays
    · exact Nat.le_refl _
    · omega
    · exact Nat.mul_le_mul_right unit (Nat.le_succ _)
    · exact Nat.le_refl _

theorem to_multiple_exact (positive : 0 < unit) (count : ℕ) :
    toMultiple unit (count * unit) = count * unit := by
  unfold toMultiple
  simp only [Nat.mul_mod_left, Nat.mul_div_cancel count positive]
  rw [if_neg (by omega)]

theorem to_multiple_le (positive : 0 < unit) (below : value ≤ count * unit) :
    toMultiple unit value ≤ count * unit :=
  (to_multiple_mono below).trans (to_multiple_exact positive count).le

theorem le_to_multiple (positive : 0 < unit) (above : count * unit ≤ value) :
    count * unit ≤ toMultiple unit value :=
  (to_multiple_exact positive count).ge.trans (to_multiple_mono above)

end Multiples

section Bits

variable {bits left right value : ℕ}

/-- Rounding up goes no further than the next power of two. -/
theorem to_bits_le_power (bits value : ℕ) : toBits bits value ≤ 2 ^ (value.log2 + 1) := by
  have power : 2 ^ (value.log2 + 1) =
      2 ^ (value.log2 + 1 - (value.log2 + 1 - bits)) * 2 ^ (value.log2 + 1 - bits) := by
    rw [← Nat.pow_add]
    congr 1
    omega
  have below : value ≤ 2 ^ (value.log2 + 1) := Nat.lt_log2_self.le
  rw [power] at below
  rw [power]
  exact to_multiple_le (Nat.two_pow_pos _) below

/-- Rounding down goes no further than the leading bit. -/
theorem power_le_to_bits (some_bits : 0 < bits) (nonzero : value ≠ 0) :
    2 ^ value.log2 ≤ toBits bits value := by
  have power : 2 ^ value.log2 =
      2 ^ (value.log2 - (value.log2 + 1 - bits)) * 2 ^ (value.log2 + 1 - bits) := by
    rw [← Nat.pow_add]
    congr 1
    omega
  have above := Nat.log2_self_le nonzero
  rw [power] at above
  rw [power]
  exact le_to_multiple (Nat.two_pow_pos _) above

theorem to_bits_mono (some_bits : 0 < bits) (less : left ≤ right) :
    toBits bits left ≤ toBits bits right := by
  rcases Nat.lt_trichotomy left.log2 right.log2 with shorter | same | longer
  · have nonzero : right ≠ 0 := by
      rintro rfl
      exact Nat.not_lt_zero _ shorter
    calc
      toBits bits left ≤ 2 ^ (left.log2 + 1) := to_bits_le_power bits left
      _ ≤ 2 ^ right.log2 := Nat.pow_le_pow_right (by decide) shorter
      _ ≤ toBits bits right := power_le_to_bits some_bits nonzero
  · unfold toBits
    rw [same]
    exact to_multiple_mono less
  · have nonzero : left ≠ 0 := by
      rintro rfl
      exact Nat.not_lt_zero _ longer
    have leading := Nat.log2_self_le nonzero
    have ahead := Nat.lt_log2_self (n := right)
    have powers : 2 ^ (right.log2 + 1) ≤ 2 ^ left.log2 :=
      Nat.pow_le_pow_right (by decide) longer
    omega

end Bits

end Rounding
