import Mathlib.Algebra.Order.Ring.Nat
import Mathlib.Data.List.Basic
import Mathlib.Tactic.Ring

/-!
# Numbers as bytes in zeroed memory

A number of a given size is written with its highest byte first, or as it lies in
the memory of a little-endian machine. Memory that starts out as zeros is filled
from the front, one field after the other.
-/

namespace Bytes

set_option autoImplicit false

/-- The lowest `size` bytes of a number, the highest of them first. -/
def bigEndian : ℕ → ℕ → List UInt8
  | 0, _ => []
  | size + 1, value => bigEndian size (value / 256) ++ [UInt8.ofNat value]

def fromBigEndian (bytes : List UInt8) : ℕ :=
  bytes.foldl (fun value byte => value * 256 + byte.toNat) 0

@[simp] theorem length_big_endian (size value : ℕ) : (bigEndian size value).length = size := by
  induction size generalizing value with
  | zero => rfl
  | succ size induction =>
      rw [bigEndian, List.length_append, induction, List.length_singleton]

theorem from_big_endian (size value : ℕ) :
    fromBigEndian (bigEndian size value) = value % 256 ^ size := by
  induction size generalizing value with
  | zero => rw [pow_zero, Nat.mod_one, bigEndian, fromBigEndian, List.foldl_nil]
  | succ size induction =>
      have front := induction (value / 256)
      unfold fromBigEndian at front ⊢
      have byte : (UInt8.ofNat value).toNat = value % 256 := UInt8.toNat_ofNat'
      rw [bigEndian, List.foldl_append, front, List.foldl_cons, List.foldl_nil, byte, pow_succ',
        Nat.mod_mul]
      ring

theorem big_endian_injective {size left right : ℕ} (leftBound : left < 256 ^ size)
    (rightBound : right < 256 ^ size) (same : bigEndian size left = bigEndian size right) :
    left = right := by
  have decoded := congrArg fromBigEndian same
  rwa [from_big_endian, from_big_endian, Nat.mod_eq_of_lt leftBound,
    Nat.mod_eq_of_lt rightBound] at decoded

/-! ## Numbers in native order -/

/-- The lowest `size` bytes of a number, the lowest of them first. -/
def littleEndian : ℕ → ℕ → List UInt8
  | 0, _ => []
  | size + 1, value => UInt8.ofNat value :: littleEndian size (value / 256)

def fromLittleEndian : List UInt8 → ℕ
  | [] => 0
  | byte :: rest => byte.toNat + 256 * fromLittleEndian rest

@[simp] theorem length_little_endian (size value : ℕ) :
    (littleEndian size value).length = size := by
  induction size generalizing value with
  | zero => rfl
  | succ size induction => rw [littleEndian, List.length_cons, induction]

theorem from_little_endian (size value : ℕ) :
    fromLittleEndian (littleEndian size value) = value % 256 ^ size := by
  induction size generalizing value with
  | zero => rw [pow_zero, Nat.mod_one, littleEndian, fromLittleEndian]
  | succ size induction =>
      have byte : (UInt8.ofNat value).toNat = value % 256 := UInt8.toNat_ofNat'
      rw [littleEndian, fromLittleEndian, induction, byte, pow_succ', Nat.mod_mul]

theorem from_little_endian_lt (bytes : List UInt8) :
    fromLittleEndian bytes < 256 ^ bytes.length := by
  induction bytes with
  | nil => exact Nat.one_pos
  | cons byte rest induction =>
      have bound := byte.toNat_lt
      rw [fromLittleEndian, List.length_cons, pow_succ]
      omega

theorem little_endian_from (bytes : List UInt8) :
    littleEndian bytes.length (fromLittleEndian bytes) = bytes := by
  induction bytes with
  | nil => rfl
  | cons byte rest induction =>
      have bound := byte.toNat_lt
      have low : UInt8.ofNat (byte.toNat + 256 * fromLittleEndian rest) = byte := by
        apply UInt8.toNat_inj.mp
        rw [UInt8.toNat_ofNat']
        omega
      have high : (byte.toNat + 256 * fromLittleEndian rest) / 256 = fromLittleEndian rest := by
        omega
      rw [List.length_cons, fromLittleEndian, littleEndian, low, high, induction]

/-- A list that is its own predecessor in a longer one repeats its first byte. -/
theorem take_cons_eq_iff (byte : UInt8) (bytes : List UInt8) :
    (byte :: bytes).take bytes.length = bytes ↔ bytes = List.replicate bytes.length byte := by
  induction bytes generalizing byte with
  | nil => simp
  | cons next rest induction =>
      rw [List.length_cons, List.take_succ_cons, List.replicate_succ, List.cons.injEq,
        List.cons.injEq, induction]
      constructor
      · rintro ⟨rfl, same⟩
        exact ⟨rfl, same⟩
      · rintro ⟨rfl, same⟩
        exact ⟨rfl, same⟩

/-- Reading a number one byte too early finds it only where all its bytes equal the
byte before it. -/
theorem read_early_iff {size value : ℕ} (bound : value < 256 ^ size) (byte : UInt8)
    (rest : List UInt8) :
    fromLittleEndian ((byte :: (littleEndian size value ++ rest)).take size) = value ↔
      value = fromLittleEndian (List.replicate size byte) := by
  have length := length_little_endian size value
  have front : (byte :: (littleEndian size value ++ rest)).take size =
      (byte :: littleEndian size value).take (littleEndian size value).length := by
    rw [length, ← List.cons_append, List.take_append_of_le_length]
    rw [List.length_cons, length]
    exact Nat.le_succ size
  have decoded : fromLittleEndian (littleEndian size value) = value := by
    rw [from_little_endian, Nat.mod_eq_of_lt bound]
  have shifted : ((byte :: littleEndian size value).take size).length = size := by
    rw [List.length_take, List.length_cons, length]
    omega
  constructor
  · intro same
    have bytes := little_endian_from ((byte :: littleEndian size value).take size)
    rw [front, length] at same
    rw [shifted, same] at bytes
    have repeated := (take_cons_eq_iff byte (littleEndian size value)).mp
      (by rw [length]; exact bytes.symm)
    rw [length] at repeated
    rw [← repeated, decoded]
  · intro same
    have repeated : littleEndian size value = List.replicate size byte := by
      have bytes := little_endian_from (List.replicate size byte)
      rw [List.length_replicate, ← same] at bytes
      exact bytes
    rw [front, (take_cons_eq_iff byte _).mpr (by rw [length]; exact repeated), decoded]

/-! ## Zeroed memory -/

def zeroed (size : ℕ) : List UInt8 := List.replicate size 0

@[simp] theorem length_zeroed (size : ℕ) : (zeroed size).length = size :=
  List.length_replicate

def memcpy (offset : ℕ) (bytes memory : List UInt8) : List UInt8 :=
  memory.take offset ++ bytes ++ memory.drop (offset + bytes.length)

theorem memcpy_next {offset size : ℕ} {filled bytes : List UInt8}
    (offsetEq : filled.length = offset) :
    memcpy offset bytes (filled ++ zeroed size) =
      (filled ++ bytes) ++ zeroed (size - bytes.length) := by
  subst offsetEq
  have rest : (filled ++ zeroed size).drop (filled.length + bytes.length) =
      zeroed (size - bytes.length) := by
    rw [List.drop_append, List.drop_eq_nil_of_le (Nat.le_add_right _ _), Nat.add_sub_cancel_left,
      List.nil_append, zeroed, List.drop_replicate, zeroed]
  rw [memcpy, List.take_left, rest]

theorem zeroed_split {size front : ℕ} (fits : front ≤ size) :
    zeroed size = zeroed front ++ zeroed (size - front) := by
  rw [zeroed, zeroed, zeroed, List.replicate_append_replicate, Nat.add_sub_cancel' fits]

end Bytes
