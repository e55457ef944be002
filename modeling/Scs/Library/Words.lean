import Mathlib.Tactic.Ring

/-!
# Machine words

The overflow predicates compare the exact integer sum with the range of the
result type; the lemmas say when wrapping arithmetic agrees with the integers.
-/

namespace Words

set_option autoImplicit false

def fitsInt64 (value : Int) : Bool := decide (-2 ^ 63 ≤ value ∧ value < 2 ^ 63)

def fitsUInt64 (value : Int) : Bool := decide (0 ≤ value ∧ value < 2 ^ 64)

/-- Whether the exact sum leaves the signed 64-bit range. -/
def addOverflowInt64 (left right : Int) : Bool := !fitsInt64 (left + right)

/-- Whether the exact sum leaves the unsigned 64-bit range. -/
def addOverflowUInt64 (left right : Int) : Bool := !fitsUInt64 (left + right)

theorem add_overflow_int64_iff {left right : Int} :
    addOverflowInt64 left right = true ↔ left + right < -2 ^ 63 ∨ 2 ^ 63 ≤ left + right := by
  simp only [addOverflowInt64, fitsInt64, Bool.not_eq_true', decide_eq_false_iff_not]
  omega

theorem add_overflow_uint64_iff {left right : Int} :
    addOverflowUInt64 left right = true ↔ left + right < 0 ∨ 2 ^ 64 ≤ left + right := by
  simp only [addOverflowUInt64, fitsUInt64, Bool.not_eq_true', decide_eq_false_iff_not]
  omega

theorem int64_add_exact (left right : Int64) (lower : -2 ^ 63 ≤ left.toInt + right.toInt)
    (upper : left.toInt + right.toInt < 2 ^ 63) :
    (left + right).toInt = left.toInt + right.toInt := by
  rw [Int64.toInt_add]
  exact Int.bmod_eq_of_le (by omega) (by omega)

theorem int64_sub_exact (left right : Int64) (lower : -2 ^ 63 ≤ left.toInt - right.toInt)
    (upper : left.toInt - right.toInt < 2 ^ 63) :
    (left - right).toInt = left.toInt - right.toInt := by
  rw [Int64.toInt_sub]
  exact Int.bmod_eq_of_le (by omega) (by omega)

theorem int64_neg_iff {value : Int64} : value < 0 ↔ value.toInt < 0 := by
  rw [Int64.lt_iff_toInt_lt]
  rfl

/-- The two's complement reading of a signed word. -/
theorem to_uint64_eq (value : Int64) :
    (value.toUInt64.toNat : Int) =
      if 0 ≤ value.toInt then value.toInt else value.toInt + 2 ^ 64 := by
  have reading : value.toInt = if 2 * value.toUInt64.toNat < 2 ^ 64 then
      (value.toUInt64.toNat : Int) else value.toUInt64.toNat - (2 ^ 64 : Nat) :=
    BitVec.toInt_eq_toNat_cond value.toBitVec
  have bounded := value.toUInt64.toNat_lt
  rw [reading]
  split_ifs <;> omega

theorem uint64_add_signed (base : UInt64) (amount : Int64)
    (lower : 0 ≤ (base.toNat : Int) + amount.toInt)
    (upper : (base.toNat : Int) + amount.toInt < 2 ^ 64) :
    ((base + amount.toUInt64).toNat : Int) = base.toNat + amount.toInt := by
  have reading := to_uint64_eq amount
  have bounded := base.toNat_lt
  rw [UInt64.toNat_add]
  split_ifs at reading <;> omega

theorem uint64_sub_signed (base : UInt64) (amount : Int64)
    (lower : 0 ≤ (base.toNat : Int) - amount.toInt)
    (upper : (base.toNat : Int) - amount.toInt < 2 ^ 64) :
    ((base - amount.toUInt64).toNat : Int) = base.toNat - amount.toInt := by
  have reading := to_uint64_eq amount
  have bounded := base.toNat_lt
  have amountBound := amount.toUInt64.toNat_lt
  rw [UInt64.toNat_sub]
  split_ifs at reading <;> omega

theorem to_int64_eq (word : UInt64) : word.toInt64 = Int64.ofInt (word.toNat : ℤ) := by
  rw [← Int64.toBitVec_inj]
  simp

theorem uint64_min_eq (left right : UInt64) :
    (min left right).toNat = min left.toNat right.toNat := by
  by_cases less : left ≤ right
  · have smaller : min left right = left := if_pos less
    rw [smaller, Nat.min_eq_left (UInt64.le_iff_toNat_le.mp less)]
  · have larger : min left right = right := if_neg less
    rw [larger, Nat.min_eq_right (Nat.le_of_not_le (mt UInt64.le_iff_toNat_le.mpr less))]

theorem uint32_min_eq (left right : UInt32) :
    (min left right).toNat = min left.toNat right.toNat := by
  by_cases less : left ≤ right
  · have smaller : min left right = left := if_pos less
    rw [smaller, Nat.min_eq_left (UInt32.le_iff_toNat_le.mp less)]
  · have larger : min left right = right := if_neg less
    rw [larger, Nat.min_eq_right (Nat.le_of_not_le (mt UInt32.le_iff_toNat_le.mpr less))]

theorem uint64_max_eq (left right : UInt64) :
    (max left right).toNat = max left.toNat right.toNat := by
  by_cases less : left ≤ right
  · have larger : max left right = right := if_pos less
    rw [larger, Nat.max_eq_right (UInt64.le_iff_toNat_le.mp less)]
  · have larger : max left right = left := if_neg less
    rw [larger, Nat.max_eq_left (Nat.le_of_not_le (mt UInt64.le_iff_toNat_le.mpr less))]

end Words
