import Scs.HashSet.AtomicSet
import Scs.Library.Rounding

/-!
# Slots for a size (`AtomicSet::resize`)

The product with `extra_buffer` grows with the size until it reaches `2 ^ 32`;
from there the low 32 bits start again at zero. What a size gets is read off at
the points where the product passes the bounds that matter.
-/

namespace Scs

set_option autoImplicit false

open Rounding

def slotProduct (maxCapacity : ℕ) : ℕ :=
  roundToFloat (roundToFloat maxCapacity * extraBufferSignificand) / 2 ^ 23

def firstTruncated : ℕ := 3579139201

theorem round_to_float_bits (value : ℕ) : roundToFloat value = toBits 24 value := rfl

theorem with_extra_buffer_product (maxCapacity : UInt32) :
    (withExtraBuffer maxCapacity).toNat = slotProduct maxCapacity.toNat % 2 ^ 32 :=
  UInt32.toNat_ofNat'

theorem slot_product_mono {left right : ℕ} (less : left ≤ right) :
    slotProduct left ≤ slotProduct right := by
  unfold slotProduct
  simp only [round_to_float_bits]
  have some_bits : 0 < 24 := by decide
  have inner := to_bits_mono some_bits less
  have product := Nat.mul_le_mul_right extraBufferSignificand inner
  exact Nat.div_le_div_right (to_bits_mono some_bits product)

theorem slot_product_fits {size : ℕ} (small : size < firstTruncated) :
    slotProduct size < 2 ^ 32 := by
  have below : size ≤ 3579139200 := Nat.le_of_lt_succ small
  have last : slotProduct 3579139200 < 2 ^ 32 := by decide +kernel
  exact (slot_product_mono below).trans_lt last

theorem slot_product_truncated {size : ℕ} (large : firstTruncated ≤ size)
    (word : size < 2 ^ 32) :
    2 ^ 32 ≤ slotProduct size ∧ slotProduct size ≤ 2 ^ 32 + 858993664 := by
  have first : 2 ^ 32 ≤ slotProduct firstTruncated := by decide +kernel
  have last : slotProduct (2 ^ 32 - 1) ≤ 2 ^ 32 + 858993664 := by decide +kernel
  have below : size ≤ 2 ^ 32 - 1 := Nat.le_sub_one_of_lt word
  exact ⟨first.trans (slot_product_mono large), (slot_product_mono below).trans last⟩

/-- A fifth more covers what the two roundings may take away. -/
theorem slot_product_ge {size : ℕ} (large : 2 ^ 13 ≤ size) (word : size < 2 ^ 32) :
    size ≤ slotProduct size := by
  have inner : size < roundToFloat size + 2 ^ 8 := round_to_float_close word
  have product : roundToFloat size * extraBufferSignificand < 2 ^ (24 + 33) := by
    have upper : roundToFloat size ≤ size + 2 ^ 8 := round_to_float_upper word
    unfold extraBufferSignificand
    omega
  have outer := round_to_float_close product
  unfold slotProduct
  unfold extraBufferSignificand at *
  omega

/-- A size gets at least that many slots unless its product is truncated. -/
theorem with_extra_buffer_covers_iff (size : UInt32) :
    size.toNat ≤ (withExtraBuffer size).toNat ↔ size.toNat < firstTruncated := by
  have word := size.toNat_lt
  constructor
  · intro covered
    by_contra large
    have truncated := slot_product_truncated (Nat.le_of_not_lt large) word
    rw [with_extra_buffer_product] at covered
    unfold firstTruncated at large
    omega
  · intro small
    rcases Nat.lt_or_ge size.toNat (2 ^ 13) with few | many
    · apply with_extra_buffer_ge
      unfold maxHashSetSize
      omega
    · rw [with_extra_buffer_product, Nat.mod_eq_of_lt (slot_product_fits small)]
      exact slot_product_ge many word

/-- The sizes that get a slot for every entry of a set of the largest size: all that
are large enough, but for those whose truncated product is small again. -/
def SlotsForLargest (size : UInt32) : Prop :=
  54613 ≤ size.toNat ∧ (size.toNat < firstTruncated ∨ 3579193728 ≤ size.toNat)

theorem slots_for_largest_iff (size : UInt32) :
    maxHashSetSize ≤ (withExtraBuffer size).toNat ↔ SlotsForLargest size := by
  have word := size.toNat_lt
  have largest : maxHashSetSize = 65535 := rfl
  have boundary : firstTruncated = 3579139201 := rfl
  rw [with_extra_buffer_product, largest]
  unfold SlotsForLargest
  rcases Nat.lt_or_ge size.toNat firstTruncated with small | large
  · rw [Nat.mod_eq_of_lt (slot_product_fits small)]
    constructor
    · intro enough
      refine ⟨?_, .inl small⟩
      by_contra few
      have below : size.toNat ≤ 54612 := by omega
      have last : slotProduct 54612 < 65535 := by decide +kernel
      exact absurd (enough.trans (slot_product_mono below)) (Nat.not_le.mpr last)
    · rintro ⟨many, _⟩
      have first : 65535 ≤ slotProduct 54613 := by decide +kernel
      exact first.trans (slot_product_mono many)
  · have truncated := slot_product_truncated large word
    constructor
    · intro enough
      refine ⟨by omega, .inr ?_⟩
      by_contra few
      have below : size.toNat ≤ 3579193727 := by omega
      have last : slotProduct 3579193727 < 2 ^ 32 + 65535 := by decide +kernel
      have product := slot_product_mono below
      omega
    · rintro ⟨_, small | many⟩
      · omega
      · have first : 2 ^ 32 + 65535 ≤ slotProduct 3579193728 := by decide +kernel
        have product := slot_product_mono many
        omega

theorem resize_capacity (newCapacity : UInt32) (set : AtomicSet) :
    (set.resize newCapacity).capacity.toNat =
      max set.capacity.toNat (withExtraBuffer newCapacity).toNat := by
  unfold AtomicSet.resize
  generalize withExtraBuffer newCapacity = slots
  simp only [UInt32.lt_iff_toNat_lt]
  split_ifs with fewer
  · exact (Nat.max_eq_left fewer.le).symm
  · rw [AtomicSet.vacant_capacity, Nat.max_eq_right (Nat.le_of_not_lt fewer)]

end Scs
