import Scs.Library.Words

/-!
# Split-word 128-bit counter (`utils/atomic_uint128.h`)

The two words are updated by separate fetch-adds. Calls are taken here one at
a time, where the pair is a number modulo `2 ^ 128`.
-/

namespace Scs

set_option autoImplicit false

open Words

structure AtomicUint128 where
  lowbits : UInt64
  highbits : UInt64
  deriving DecidableEq, Repr

namespace AtomicUint128

def zero : AtomicUint128 where
  lowbits := 0
  highbits := 0

def add (v : UInt64) (counter : AtomicUint128) : AtomicUint128 :=
  let prevLowbits := counter.lowbits
  if addOverflowUInt64 prevLowbits.toNat v.toNat then
    { lowbits := prevLowbits + v, highbits := counter.highbits + 1 }
  else
    { lowbits := prevLowbits + v, highbits := counter.highbits }

def sub (v : UInt64) (counter : AtomicUint128) : AtomicUint128 :=
  let prevLowbits := counter.lowbits
  if addOverflowUInt64 prevLowbits.toNat (-v.toNat) then
    { lowbits := prevLowbits - v, highbits := counter.highbits - 1 }
  else
    { lowbits := prevLowbits - v, highbits := counter.highbits }

/-- Returns `UINT64_MAX` if greater than uint64. -/
def fetchCap (counter : AtomicUint128) : UInt64 :=
  if counter.highbits > 0 then 0xFFFFFFFFFFFFFFFF else counter.lowbits

def clear (_ : AtomicUint128) : AtomicUint128 := zero

def value (counter : AtomicUint128) : Nat :=
  counter.highbits.toNat * 2 ^ 64 + counter.lowbits.toNat

@[simp] theorem value_zero : zero.value = 0 := rfl

theorem value_lt (counter : AtomicUint128) : counter.value < 2 ^ 128 := by
  have low := counter.lowbits.toNat_lt
  have high := counter.highbits.toNat_lt
  unfold value
  omega

/-- Adding nothing changes nothing, in the form the sums below need. -/
theorem value_unchanged (counter : AtomicUint128) :
    counter.value = (counter.value + 0) % 2 ^ 128 := by
  have bounded := counter.value_lt
  omega

theorem value_injective {left right : AtomicUint128} (same : left.value = right.value) :
    left = right := by
  obtain ⟨leftLow, leftHigh⟩ := left
  obtain ⟨rightLow, rightHigh⟩ := right
  have lowBound := leftLow.toNat_lt
  have otherBound := rightLow.toNat_lt
  simp only [value] at same
  have high : leftHigh = rightHigh := UInt64.toNat_inj.mp (by omega)
  have low : leftLow = rightLow := UInt64.toNat_inj.mp (by omega)
  rw [high, low]

theorem value_add (v : UInt64) (counter : AtomicUint128) :
    (add v counter).value = (counter.value + v.toNat) % 2 ^ 128 := by
  obtain ⟨low, high⟩ := counter
  have lowBound := low.toNat_lt
  have highBound := high.toNat_lt
  have bound := v.toNat_lt
  simp only [add, value]
  split_ifs with carried
  · rw [add_overflow_uint64_iff] at carried
    simp only [UInt64.toNat_add, UInt64.toNat_one]
    omega
  · rw [add_overflow_uint64_iff] at carried
    simp only [UInt64.toNat_add]
    omega

theorem value_sub (v : UInt64) (counter : AtomicUint128) :
    (sub v counter).value = (counter.value + (2 ^ 128 - v.toNat)) % 2 ^ 128 := by
  obtain ⟨low, high⟩ := counter
  have lowBound := low.toNat_lt
  have highBound := high.toNat_lt
  have bound := v.toNat_lt
  simp only [sub, value]
  split_ifs with borrowed
  · rw [add_overflow_uint64_iff] at borrowed
    simp only [UInt64.toNat_sub, UInt64.toNat_one]
    omega
  · rw [add_overflow_uint64_iff] at borrowed
    simp only [UInt64.toNat_sub]
    omega

theorem fetch_cap_eq (counter : AtomicUint128) :
    (fetchCap counter).toNat = min counter.value (2 ^ 64 - 1) := by
  have lowBound := counter.lowbits.toNat_lt
  unfold fetchCap value
  split_ifs with large
  · have high : 0 < counter.highbits.toNat := UInt64.lt_iff_toNat_lt.mp large
    have cap : (0xFFFFFFFFFFFFFFFF : UInt64).toNat = 2 ^ 64 - 1 := rfl
    omega
  · have high : ¬ 0 < counter.highbits.toNat := fun pos => large (UInt64.lt_iff_toNat_lt.mpr pos)
    omega

end AtomicUint128

end Scs
