import Scs.Library.OpenAddressing
import Scs.Threadlocal.Allocator
import Scs.Xdr.Storage

/-!
# Lock-free hash set (`hash_set/atomic_set.cc`)

A slot holds the entry that its 32-bit allocator index resolves to. Calls are
taken here one at a time, where every compare-exchange of the source succeeds.
The keyed short hash of the crypto library is a parameter.
-/

namespace Scs

set_option autoImplicit false

open OpenAddressing

/-- `crypto_shorthash` under the key drawn at startup. -/
abbrev CryptoShorthash := Hash → UInt64

/-- `shorthash(data, len, modulus)`: the low 32 bits scaled to the modulus. -/
def shorthash (cryptoShorthash : CryptoShorthash) (h : Hash) (modulus : UInt32) : UInt32 :=
  (((cryptoShorthash h &&& 0xFFFFFFFF) * modulus.toUInt64) >>> 32).toUInt32

theorem shorthash_lt (cryptoShorthash : CryptoShorthash) (h : Hash) {modulus : UInt32}
    (positive : 0 < modulus.toNat) :
    (shorthash cryptoShorthash h modulus).toNat < modulus.toNat := by
  have masked : (cryptoShorthash h &&& 0xFFFFFFFF).toNat < 2 ^ 32 := by
    rw [UInt64.toNat_and]
    exact Nat.lt_of_le_of_lt Nat.and_le_right (by decide)
  have bound := modulus.toNat_lt
  have product : (cryptoShorthash h &&& 0xFFFFFFFF).toNat * modulus.toNat <
      2 ^ 32 * modulus.toNat := Nat.mul_lt_mul_of_pos_right masked positive
  have small : (cryptoShorthash h &&& 0xFFFFFFFF).toNat * modulus.toNat < 2 ^ 64 := by
    omega
  have quotient : (cryptoShorthash h &&& 0xFFFFFFFF).toNat * modulus.toNat / 2 ^ 32 <
      modulus.toNat := Nat.div_lt_of_lt_mul product
  have shift : (32 : UInt64).toNat % 64 = 32 := rfl
  simp only [shorthash, UInt64.toNat_toUInt32, UInt64.toNat_shiftRight, UInt64.toNat_mul,
    UInt32.toNat_toUInt64, shift, Nat.shiftRight_eq_div_pow]
  rw [Nat.mod_eq_of_lt small, Nat.mod_eq_of_lt (by omega)]
  exact quotient

/-! ## Slot counts -/

/-- A natural number rounded to the 24 significant bits of a `float`, ties to even. -/
def roundToFloat (value : Nat) : Nat :=
  let unit := 2 ^ (value.log2 + 1 - 24)
  let quotient := value / unit
  let remainder := value % unit
  if unit < 2 * remainder ∨ (2 * remainder = unit ∧ quotient % 2 = 1) then
    (quotient + 1) * unit
  else quotient * unit

/-- `extra_buffer = 1.2`, a float with significand `10066330` at `2 ^ -23`. -/
def extraBufferSignificand : Nat := 10066330

/-- `max_capacity * extra_buffer`, computed in `float` and truncated. A product
of `2 ^ 32` or more has no defined conversion; it is reduced to 32 bits here. -/
def withExtraBuffer (maxCapacity : UInt32) : UInt32 :=
  UInt32.ofNat
    (roundToFloat (roundToFloat maxCapacity.toNat * extraBufferSignificand) / 2 ^ 23)

theorem round_to_float_small {value : Nat} (small : value < 2 ^ 24) :
    roundToFloat value = value := by
  have exponent : value.log2 + 1 - 24 = 0 := by
    rcases Nat.eq_zero_or_pos value with zero | positive
    · rw [zero]
      rfl
    · have := (Nat.log2_lt (by omega)).mpr small
      omega
  simp only [roundToFloat, exponent, pow_zero, Nat.div_one, Nat.mul_one, Nat.mod_one]
  rw [if_neg (by omega)]

theorem round_to_float_close {value bits : Nat} (small : value < 2 ^ (24 + bits)) :
    value < roundToFloat value + 2 ^ bits := by
  have exponent : value.log2 + 1 - 24 ≤ bits := by
    rcases Nat.eq_zero_or_pos value with zero | positive
    · rw [zero]
      exact Nat.zero_le _
    · have := (Nat.log2_lt (by omega)).mpr small
      omega
  have unitLe : 2 ^ (value.log2 + 1 - 24) ≤ 2 ^ bits :=
    Nat.pow_le_pow_right (by decide) exponent
  have positive : 0 < 2 ^ (value.log2 + 1 - 24) := Nat.two_pow_pos _
  have split := Nat.div_add_mod value (2 ^ (value.log2 + 1 - 24))
  have remainder := Nat.mod_lt value positive
  have product : 2 ^ (value.log2 + 1 - 24) * (value / 2 ^ (value.log2 + 1 - 24)) =
      value / 2 ^ (value.log2 + 1 - 24) * 2 ^ (value.log2 + 1 - 24) := Nat.mul_comm _ _
  simp only [roundToFloat]
  split_ifs
  · rw [Nat.add_mul, Nat.one_mul]
    omega
  · omega

theorem round_to_float_upper {value bits : Nat} (small : value < 2 ^ (24 + bits)) :
    roundToFloat value ≤ value + 2 ^ bits := by
  have exponent : value.log2 + 1 - 24 ≤ bits := by
    rcases Nat.eq_zero_or_pos value with zero | positive
    · rw [zero]
      exact Nat.zero_le _
    · have := (Nat.log2_lt (by omega)).mpr small
      omega
  have unitLe : 2 ^ (value.log2 + 1 - 24) ≤ 2 ^ bits :=
    Nat.pow_le_pow_right (by decide) exponent
  have quotient := Nat.div_mul_le_self value (2 ^ (value.log2 + 1 - 24))
  simp only [roundToFloat]
  split_ifs
  · rw [Nat.add_mul, Nat.one_mul]
    omega
  · omega

/-- Every size a hash set may have gets at least that many slots. -/
theorem with_extra_buffer_ge {maxCapacity : UInt32} (bounded : maxCapacity.toNat ≤ maxHashSetSize) :
    maxCapacity.toNat ≤ (withExtraBuffer maxCapacity).toNat := by
  unfold maxHashSetSize at bounded
  have exact : roundToFloat maxCapacity.toNat = maxCapacity.toNat :=
    round_to_float_small (by omega)
  have small : maxCapacity.toNat * extraBufferSignificand < 2 ^ (24 + 16) := by
    unfold extraBufferSignificand
    omega
  have lower := round_to_float_close small
  have upper := round_to_float_upper small
  unfold withExtraBuffer
  rw [exact]
  have fits : roundToFloat (maxCapacity.toNat * extraBufferSignificand) / 2 ^ 23 < 2 ^ 32 := by
    omega
  rw [UInt32.toNat_ofNat_of_lt' fits]
  unfold extraBufferSignificand at *
  omega

/-! ## The table -/

structure AtomicSet where
  capacity : UInt32
  array : List (Slot HashSetEntry)
  numFilledSlots : UInt32
  sized : array.length = capacity.toNat
  deriving DecidableEq, Repr

namespace AtomicSet

/-- An array of `capacity` zero words. -/
def vacant (capacity : UInt32) : AtomicSet where
  capacity := capacity
  array := List.replicate capacity.toNat .empty
  numFilledSlots := 0
  sized := List.length_replicate

def create (maxCapacity : UInt32) : AtomicSet := vacant (withExtraBuffer maxCapacity)

def resize (newCapacity : UInt32) (set : AtomicSet) : AtomicSet :=
  let newAllocSize := withExtraBuffer newCapacity
  if newAllocSize < set.capacity then set else vacant newAllocSize

def clear (set : AtomicSet) : AtomicSet := vacant set.capacity

/-- A successful compare-exchange on one slot, with the new fill count. -/
def writeSlot (idx : Nat) (slot : Slot HashSetEntry) (numFilledSlots : UInt32)
    (set : AtomicSet) : AtomicSet where
  capacity := set.capacity
  array := set.array.set idx slot
  numFilledSlots := numFilledSlots
  sized := by rw [List.length_set, set.sized]

variable (cryptoShorthash : CryptoShorthash)

def startIdx (h : HashSetEntry) (set : AtomicSet) : Nat :=
  (shorthash cryptoShorthash h.hash set.capacity).toNat

/-- `try_insert` once the entry has its index. The scan stops at the first empty slot
or at an equal entry; a tombstone is neither. -/
def insertAllocated (h : HashSetEntry) (set : AtomicSet) : Bool × AtomicSet :=
  if set.numFilledSlots ≥ set.capacity then (false, set)
  else
    match circularScan (visitInsert set.array h) set.capacity.toNat
        (startIdx cryptoShorthash h set) with
    | some (.free idx) => (true, writeSlot idx (.entry h) (set.numFilledSlots + 1) set)
    | some .present => (false, set)
    | none => (false, set)

/-- `try_insert` on a thread that holds `allocated` entries. The index is taken before
anything is looked at, so a refused insertion keeps one too. -/
def tryInsert (allocated : ℕ) (h : HashSetEntry) (set : AtomicSet) :
    Except Fault (Bool × ℕ × AtomicSet) := do
  let allocated ← allocateHash allocated
  let (inserted, changed) := set.insertAllocated cryptoShorthash h
  .ok (inserted, allocated, changed)

def erase (h : HashSetEntry) (set : AtomicSet) : Except Fault AtomicSet :=
  match circularScan (visitRemove set.array h) set.capacity.toNat
      (startIdx cryptoShorthash h set) with
  | some (some idx) => .ok (writeSlot idx .tombstone (set.numFilledSlots - 1) set)
  | some none => .error (.runtimeError "deletion failed to find elt")
  | none => .error (.runtimeError "deletion failed after complete scan")

def getHashes (set : AtomicSet) : List HashSetEntry := entries set.array

def freeSlots (set : AtomicSet) : Nat := emptyCount set.array

/-! ## The calls as operations on a set of entries -/

/-- What every sequence of calls keeps: the table is well probed and the counter
counts its entries. -/
structure Sound (set : AtomicSet) : Prop where
  probed : Probed (fun h => startIdx cryptoShorthash h set) set.array
  counted : set.numFilledSlots.toNat = set.getHashes.length

variable {cryptoShorthash}

/-- Only the thread's own buffer decides whether a call returns. -/
theorem try_insert_returns {allocated : ℕ} (room : allocated < allocSize) (h : HashSetEntry)
    (set : AtomicSet) : tryInsert cryptoShorthash allocated h set =
      .ok ((insertAllocated cryptoShorthash h set).1, allocated + 1,
        (insertAllocated cryptoShorthash h set).2) := by
  have below := Nat.not_le_of_lt room
  simp only [tryInsert, allocateHash, ge_iff_le, if_neg below, bind, Except.bind]

theorem try_insert_exhausted {allocated : ℕ} (full : allocSize ≤ allocated) (h : HashSetEntry)
    (set : AtomicSet) :
    tryInsert cryptoShorthash allocated h set = .error allocMaxReached := by
  simp only [tryInsert, allocateHash, ge_iff_le, if_pos full, bind, Except.bind]

@[simp] theorem vacant_capacity (capacity : UInt32) : (vacant capacity).capacity = capacity := rfl

@[simp] theorem vacant_get_hashes (capacity : UInt32) : (vacant capacity).getHashes = [] := by
  have none_stored : ∀ count : Nat,
      entries (List.replicate count (.empty : Slot HashSetEntry)) = [] := by
    intro count
    induction count with
    | zero => rfl
    | succ count induction => exact induction
  exact none_stored capacity.toNat

@[simp] theorem vacant_free_slots (capacity : UInt32) :
    (vacant capacity).freeSlots = capacity.toNat := by
  simp [freeSlots, vacant, emptyCount, List.countP_replicate, Slot.isEmpty]

theorem vacant_sound (capacity : UInt32) : Sound cryptoShorthash (vacant capacity) where
  probed := probed_replicate _ _
  counted := by
    rw [vacant_get_hashes]
    rfl

theorem occupied_le_capacity (set : AtomicSet) :
    set.getHashes.length + set.freeSlots ≤ set.capacity.toNat := by
  have bound := entries_length_le set.array
  rw [set.sized] at bound
  exact bound

theorem start_idx_lt (h : HashSetEntry) {set : AtomicSet} (positive : 0 < set.capacity.toNat) :
    startIdx cryptoShorthash h set < set.array.length := by
  rw [set.sized]
  exact shorthash_lt cryptoShorthash h.hash positive

/-- The guard on the counter never refuses an insertion that a slot could take,
so the scan alone decides. -/
theorem insert_allocated_eq_place {set : AtomicSet} (sound : Sound cryptoShorthash set)
    (h : HashSetEntry) :
    (insertAllocated cryptoShorthash h set).1 =
        (place set.array (startIdx cryptoShorthash h set) h).isSome ∧
      ((insertAllocated cryptoShorthash h set).1 = false →
        (insertAllocated cryptoShorthash h set).2 = set) ∧
      ∀ after, place set.array (startIdx cryptoShorthash h set) h = some after →
        (insertAllocated cryptoShorthash h set).2.array = after ∧
        (insertAllocated cryptoShorthash h set).2.capacity = set.capacity ∧
        (insertAllocated cryptoShorthash h set).2.numFilledSlots = set.numFilledSlots + 1 := by
  have occupied := occupied_le_capacity set
  by_cases full : set.numFilledSlots ≥ set.capacity
  · have refused : insertAllocated cryptoShorthash h set = (false, set) := by
      simp only [insertAllocated, if_pos full]
    have noSlot : emptyCount set.array = 0 := by
      have limit := UInt32.le_iff_toNat_le.mp full
      have counted := sound.counted
      unfold freeSlots at occupied
      omega
    have nowhere : place set.array (startIdx cryptoShorthash h set) h = none := by
      rcases Nat.eq_zero_or_pos set.capacity.toNat with zero | positive
      · unfold place
        rw [set.sized, zero]
        rfl
      · exact place_full (start_idx_lt h positive) noSlot
    rw [refused, nowhere]
    refine ⟨rfl, fun _ => rfl, ?_⟩
    intro after impossible
    cases impossible
  · unfold insertAllocated place
    rw [if_neg full, set.sized]
    cases answer : circularScan (visitInsert set.array h) set.capacity.toNat
        (startIdx cryptoShorthash h set) with
    | none => simp
    | some found => cases found <;> simp [writeSlot]

theorem insert_allocated_accepts {set : AtomicSet} (sound : Sound cryptoShorthash set)
    (h : HashSetEntry) :
    (insertAllocated cryptoShorthash h set).1 = true ↔ h ∉ set.getHashes ∧ 0 < set.freeSlots := by
  rw [(insert_allocated_eq_place sound h).1]
  rcases Nat.eq_zero_or_pos set.capacity.toNat with zero | positive
  · have occupied := occupied_le_capacity set
    have nowhere : place set.array (startIdx cryptoShorthash h set) h = none := by
      unfold place
      rw [set.sized, zero]
      rfl
    rw [nowhere]
    constructor
    · intro impossible
      cases impossible
    · rintro ⟨_, vacancy⟩
      omega
  · exact place_is_some sound.probed (start_idx_lt h positive)

theorem insert_allocated_refused {set : AtomicSet} (sound : Sound cryptoShorthash set)
    {h : HashSetEntry} (refused : (insertAllocated cryptoShorthash h set).1 = false) :
    (insertAllocated cryptoShorthash h set).2 = set := by
  exact (insert_allocated_eq_place sound h).2.1 refused

structure Inserted (cryptoShorthash : CryptoShorthash) (set : AtomicSet) (h : HashSetEntry)
    (after : AtomicSet) : Prop where
  capacity : after.capacity = set.capacity
  contents : (after.getHashes : Multiset HashSetEntry) =
    h ::ₘ (set.getHashes : Multiset HashSetEntry)
  freeSlots : after.freeSlots + 1 = set.freeSlots
  sound : Sound cryptoShorthash after

theorem start_idx_capacity {left right : AtomicSet} (same : left.capacity = right.capacity)
    (h : HashSetEntry) : startIdx cryptoShorthash h left = startIdx cryptoShorthash h right := by
  unfold startIdx
  rw [same]

theorem insert_allocated_spec {set : AtomicSet} (sound : Sound cryptoShorthash set)
    {h : HashSetEntry}
    (accepted : (insertAllocated cryptoShorthash h set).1 = true) :
    Inserted cryptoShorthash set h (insertAllocated cryptoShorthash h set).2 := by
  have occupied := occupied_le_capacity set
  have possible := (insert_allocated_accepts sound h).mp accepted
  have positive : 0 < set.capacity.toNat := by omega
  have decided := insert_allocated_eq_place sound h
  rw [accepted] at decided
  obtain ⟨after, placed⟩ := Option.isSome_iff_exists.mp decided.1.symm
  obtain ⟨array, capacity, filled⟩ := decided.2.2 after placed
  have spec := place_spec sound.probed (start_idx_lt h positive) placed
  have contents : ((insertAllocated cryptoShorthash h set).2.getHashes : Multiset HashSetEntry) =
      h ::ₘ (set.getHashes : Multiset HashSetEntry) := by
    unfold getHashes
    rw [array]
    exact spec.contents
  have lengths : (insertAllocated cryptoShorthash h set).2.getHashes.length =
      set.getHashes.length + 1 := by
    have cards := congrArg Multiset.card contents
    simpa only [Multiset.coe_card, Multiset.card_cons] using cards
  refine ⟨capacity, contents, ?_, ?_, ?_⟩
  · unfold freeSlots
    rw [array]
    exact spec.vacancy
  · have homes : (fun e => startIdx cryptoShorthash e (insertAllocated cryptoShorthash h set).2) =
        fun e => startIdx cryptoShorthash e set := funext fun e => start_idx_capacity capacity e
    rw [homes, array]
    exact spec.probed
  · have bound := set.capacity.toNat_lt
    have counted := sound.counted
    have one : (1 : UInt32).toNat = 1 := rfl
    rw [filled, UInt32.toNat_add, one, lengths]
    omega

structure Erased (cryptoShorthash : CryptoShorthash) (set : AtomicSet) (h : HashSetEntry)
    (after : AtomicSet) : Prop where
  capacity : after.capacity = set.capacity
  contents : h ::ₘ (after.getHashes : Multiset HashSetEntry) =
    (set.getHashes : Multiset HashSetEntry)
  freeSlots : after.freeSlots = set.freeSlots
  sound : Sound cryptoShorthash after

/-- Erasing a present entry never throws. Its slot becomes a tombstone and is not given back
before the next clear. -/
theorem erase_spec {set : AtomicSet} (sound : Sound cryptoShorthash set) {h : HashSetEntry}
    (member : h ∈ set.getHashes) :
    ∃ after, erase cryptoShorthash h set = .ok after ∧ Erased cryptoShorthash set h after := by
  have occupied := occupied_le_capacity set
  have nonempty : 0 < set.getHashes.length := List.length_pos_of_mem member
  have positive : 0 < set.capacity.toNat := by omega
  obtain ⟨slots, removed, spec⟩ := remove_present sound.probed
    (fun other => start_idx_lt other positive) member
  unfold remove at removed
  rw [set.sized] at removed
  cases answer : circularScan (visitRemove set.array h) set.capacity.toNat
      (startIdx cryptoShorthash h set) with
  | none =>
      rw [answer] at removed
      cases removed
  | some found =>
      cases found with
      | none =>
          rw [answer] at removed
          cases removed
      | some idx =>
          rw [answer] at removed
          cases removed
          have erased : erase cryptoShorthash h set =
              .ok (writeSlot idx .tombstone (set.numFilledSlots - 1) set) := by
            simp only [erase, answer]
          refine ⟨_, erased, rfl, spec.contents, spec.vacancy, spec.probed, ?_⟩
          · have lengths : (entries (set.array.set idx .tombstone)).length + 1 =
                set.getHashes.length := by
              have cards := congrArg Multiset.card spec.contents
              simpa only [Multiset.coe_card, Multiset.card_cons, getHashes] using cards
            have counted := sound.counted
            have bound := set.numFilledSlots.toNat_lt
            have one : (1 : UInt32).toNat = 1 := rfl
            change (set.numFilledSlots - 1).toNat = (entries (set.array.set idx .tombstone)).length
            rw [UInt32.toNat_sub, one]
            omega

end AtomicSet

end Scs
