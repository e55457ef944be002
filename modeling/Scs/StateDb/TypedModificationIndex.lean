import Scs.Library.Bytes
import Scs.Library.Threads
import Scs.Xdr.Storage
import Mathlib.Data.List.AList
import Mathlib.Data.Multiset.Bind

/-!
# The typed modification index (`state_db/typed_modification_index.cc`)

Every modification of a block is logged under a key that spells out the storage
key, the delta and the transaction. All threads insert into one trie, which is
the map it stands for.
-/

namespace Scs

set_option autoImplicit false

open Bytes Runs Threads

/-! ## Types of deltas -/

def DeltaType.value : DeltaType → UInt8
  | .deleteLast => 0
  | .rawMemoryWrite => 1
  | .nonnegativeInt64SetAdd => 2
  | .hashSetInsert => 3
  | .hashSetIncreaseLimit => 4
  | .hashSetClear => 5
  | .unconstrainedInt64SetAdd => 6
  | .unconstrainedInt64SetMax => 7
  | .unconstrainedInt64SetXor => 8
  | .assetObjectAdd => 9

def StorageDelta.type : StorageDelta → DeltaType
  | .deleteLast => .deleteLast
  | .rawMemoryWrite _ => .rawMemoryWrite
  | .nonnegativeInt64SetAdd _ => .nonnegativeInt64SetAdd
  | .hashSetInsert _ => .hashSetInsert
  | .hashSetIncreaseLimit _ => .hashSetIncreaseLimit
  | .hashSetClear _ => .hashSetClear
  | .unconstrainedInt64SetAdd _ => .unconstrainedInt64SetAdd
  | .unconstrainedInt64SetMax _ => .unconstrainedInt64SetMax
  | .unconstrainedInt64SetXor _ => .unconstrainedInt64SetXor
  | .assetObjectAdd _ => .assetObjectAdd

theorem delta_type_value_injective {left right : DeltaType} (same : left.value = right.value) :
    left = right := by
  cases left <;> cases right <;> first | rfl | exact absurd same (by decide)

/-! ## Keys -/

abbrev HashRaw := List UInt8 → Hash

structure IndexedModification where
  addr : AddressAndKey
  txHash : Hash
  delta : StorageDelta
  deriving DecidableEq, Repr

namespace TypedModificationIndex

def addressAndKeySize : ℕ := 64

def hashSize : ℕ := 32

def modificationKeyLength : ℕ := 32 + 8

def prefixSize : ℕ := addressAndKeySize + 1 + modificationKeyLength + hashSize

abbrev TriePrefix := List UInt8

end TypedModificationIndex

open TypedModificationIndex

/-- The switch of `make_index_key`, which writes at `data`. -/
def writeModification (hashRaw : HashRaw) (delta : StorageDelta) (data : ℕ) (out : TriePrefix) :
    Except Fault TriePrefix :=
  match delta with
  | .deleteLast => .ok out
  | .rawMemoryWrite raw => .ok (memcpy data (bigEndian 32 (hashRaw raw.data).toNat) out)
  | .nonnegativeInt64SetAdd sa =>
      .ok (memcpy (data + 8) (bigEndian 8 sa.delta.toUInt64.toNat)
        (memcpy data (bigEndian 8 sa.setValue.toUInt64.toNat) out))
  | .hashSetInsert hash =>
      .ok (memcpy (data + 32) (bigEndian 8 hash.index.toNat)
        (memcpy data (bigEndian 32 hash.hash.toNat) out))
  | .hashSetIncreaseLimit limitIncrease => .ok (memcpy data (bigEndian 4 limitIncrease.toNat) out)
  | .hashSetClear threshold => .ok (memcpy data (bigEndian 8 threshold.toNat) out)
  | .assetObjectAdd assetDelta => .ok (memcpy data (bigEndian 8 assetDelta.toUInt64.toNat) out)
  | _ => .error (.runtimeError "unimplemented")

def makeIndexKey (hashRaw : HashRaw) (addrkey : AddressAndKey) (delta : StorageDelta)
    (srcTxHash : Hash) : Except Fault TriePrefix := do
  let out := zeroed prefixSize
  let out := memcpy 0 (bigEndian addressAndKeySize addrkey.toNat) out
  let data := addressAndKeySize
  let out := memcpy data [delta.type.value] out
  let data := data + 1
  let out ← writeModification hashRaw delta data out
  let data := data + modificationKeyLength
  .ok (memcpy data (bigEndian hashSize srcTxHash.toNat) out)

def IndexedModification.key (hashRaw : HashRaw) (modification : IndexedModification) :
    Except Fault TriePrefix :=
  makeIndexKey hashRaw modification.addr modification.delta modification.txHash

/-! ## The layout of a key -/

def StorageDelta.payload (hashRaw : HashRaw) : StorageDelta → List UInt8
  | .deleteLast => []
  | .rawMemoryWrite raw => bigEndian 32 (hashRaw raw.data).toNat
  | .nonnegativeInt64SetAdd sa =>
      bigEndian 8 sa.setValue.toUInt64.toNat ++ bigEndian 8 sa.delta.toUInt64.toNat
  | .hashSetInsert hash => bigEndian 32 hash.hash.toNat ++ bigEndian 8 hash.index.toNat
  | .hashSetIncreaseLimit limitIncrease => bigEndian 4 limitIncrease.toNat
  | .hashSetClear threshold => bigEndian 8 threshold.toNat
  | .assetObjectAdd assetDelta => bigEndian 8 assetDelta.toUInt64.toNat
  | _ => []

variable {hashRaw : HashRaw} {delta : StorageDelta}

theorem payload_length (hashRaw : HashRaw) (delta : StorageDelta) :
    (delta.payload hashRaw).length ≤ modificationKeyLength := by
  have limit : modificationKeyLength = 40 := rfl
  rw [limit]
  cases delta with
  | deleteLast => exact Nat.zero_le _
  | rawMemoryWrite raw =>
      rw [StorageDelta.payload, length_big_endian]
      omega
  | nonnegativeInt64SetAdd sa =>
      rw [StorageDelta.payload, List.length_append, length_big_endian, length_big_endian]
      omega
  | hashSetInsert hash =>
      rw [StorageDelta.payload, List.length_append, length_big_endian, length_big_endian]
  | hashSetIncreaseLimit limitIncrease =>
      rw [StorageDelta.payload, length_big_endian]
      omega
  | hashSetClear threshold =>
      rw [StorageDelta.payload, length_big_endian]
      omega
  | assetObjectAdd assetDelta =>
      rw [StorageDelta.payload, length_big_endian]
      omega
  | _ => exact Nat.zero_le _

theorem write_modification_eq (implemented : delta.implemented = true) {data size : ℕ}
    {filled : List UInt8} (at_data : filled.length = data) :
    writeModification hashRaw delta data (filled ++ zeroed size) =
      .ok (filled ++ delta.payload hashRaw ++
        zeroed (size - (delta.payload hashRaw).length)) := by
  have two (first second : List UInt8) :
      memcpy (data + first.length) second (memcpy data first (filled ++ zeroed size)) =
        filled ++ (first ++ second) ++ zeroed (size - (first ++ second).length) := by
    rw [memcpy_next at_data, memcpy_next (by rw [List.length_append, at_data]),
      List.append_assoc filled, List.length_append, Nat.sub_sub]
  cases delta with
  | deleteLast =>
      rw [writeModification, StorageDelta.payload, List.append_nil, List.length_nil, Nat.sub_zero]
  | rawMemoryWrite raw => rw [writeModification, memcpy_next at_data, StorageDelta.payload]
  | nonnegativeInt64SetAdd sa =>
      have written := two (bigEndian 8 sa.setValue.toUInt64.toNat)
        (bigEndian 8 sa.delta.toUInt64.toNat)
      rw [length_big_endian] at written
      rw [writeModification, written, StorageDelta.payload]
  | hashSetInsert hash =>
      have written := two (bigEndian 32 hash.hash.toNat) (bigEndian 8 hash.index.toNat)
      rw [length_big_endian] at written
      rw [writeModification, written, StorageDelta.payload]
  | hashSetIncreaseLimit limitIncrease =>
      rw [writeModification, memcpy_next at_data, StorageDelta.payload]
  | hashSetClear threshold => rw [writeModification, memcpy_next at_data, StorageDelta.payload]
  | assetObjectAdd assetDelta =>
      rw [writeModification, memcpy_next at_data, StorageDelta.payload]
  | unconstrainedInt64SetAdd setAdd => cases implemented
  | unconstrainedInt64SetMax setMax => cases implemented
  | unconstrainedInt64SetXor setXor => cases implemented

def StorageDelta.padded (hashRaw : HashRaw) (delta : StorageDelta) : List UInt8 :=
  delta.payload hashRaw ++ zeroed (modificationKeyLength - (delta.payload hashRaw).length)

theorem padded_length (hashRaw : HashRaw) (delta : StorageDelta) :
    (delta.padded hashRaw).length = modificationKeyLength := by
  have fits := payload_length hashRaw delta
  rw [StorageDelta.padded, List.length_append, length_zeroed]
  omega

theorem make_index_key_eq (implemented : delta.implemented = true) (addrkey : AddressAndKey)
    (srcTxHash : Hash) :
    makeIndexKey hashRaw addrkey delta srcTxHash =
      .ok (bigEndian addressAndKeySize addrkey.toNat ++ [delta.type.value] ++
        delta.padded hashRaw ++ bigEndian hashSize srcTxHash.toNat) := by
  have fits := payload_length hashRaw delta
  have address : memcpy 0 (bigEndian addressAndKeySize addrkey.toNat)
      ([] ++ zeroed prefixSize) = [] ++ bigEndian addressAndKeySize addrkey.toNat ++
        zeroed (prefixSize - (bigEndian addressAndKeySize addrkey.toNat).length) :=
    memcpy_next rfl
  rw [List.nil_append, List.nil_append, length_big_endian] at address
  have typed : memcpy addressAndKeySize [delta.type.value]
      (bigEndian addressAndKeySize addrkey.toNat ++ zeroed (prefixSize - addressAndKeySize)) =
        bigEndian addressAndKeySize addrkey.toNat ++ [delta.type.value] ++
          zeroed (prefixSize - addressAndKeySize - 1) :=
    memcpy_next (length_big_endian addressAndKeySize addrkey.toNat)
  have header : (bigEndian addressAndKeySize addrkey.toNat ++ [delta.type.value]).length =
      addressAndKeySize + 1 := by
    rw [List.length_append, length_big_endian, List.length_singleton]
  have room : prefixSize - addressAndKeySize - 1 - (delta.payload hashRaw).length =
      modificationKeyLength - (delta.payload hashRaw).length + hashSize := by
    have sizes : prefixSize - addressAndKeySize - 1 = modificationKeyLength + hashSize := rfl
    omega
  have split : zeroed (modificationKeyLength - (delta.payload hashRaw).length + hashSize) =
      zeroed (modificationKeyLength - (delta.payload hashRaw).length) ++ zeroed hashSize := by
    rw [zeroed_split (Nat.le_add_right _ hashSize), Nat.add_sub_cancel_left]
  have written : writeModification hashRaw delta (addressAndKeySize + 1)
      (bigEndian addressAndKeySize addrkey.toNat ++ [delta.type.value] ++
        zeroed (prefixSize - addressAndKeySize - 1)) =
      .ok (bigEndian addressAndKeySize addrkey.toNat ++ [delta.type.value] ++
        delta.padded hashRaw ++ zeroed hashSize) := by
    rw [write_modification_eq implemented header, room, split, ← List.append_assoc,
      StorageDelta.padded, ← List.append_assoc]
  have last : memcpy (addressAndKeySize + 1 + modificationKeyLength)
      (bigEndian hashSize srcTxHash.toNat)
      (bigEndian addressAndKeySize addrkey.toNat ++ [delta.type.value] ++ delta.padded hashRaw ++
        zeroed hashSize) =
      bigEndian addressAndKeySize addrkey.toNat ++ [delta.type.value] ++ delta.padded hashRaw ++
        bigEndian hashSize srcTxHash.toNat := by
    rw [memcpy_next (by rw [List.length_append, header, padded_length]), length_big_endian,
      Nat.sub_self, zeroed, List.replicate_zero, List.append_nil]
  unfold makeIndexKey
  simp only [address, typed, written, bind, Except.bind, last]

/-! ## Keys of different modifications -/

def CollisionFree (hashRaw : HashRaw) (left right : StorageDelta) : Prop :=
  ∀ first second, left = .rawMemoryWrite first → right = .rawMemoryWrite second →
    hashRaw first.data = hashRaw second.data → first = second

theorem bit_vec_bytes_bound {size width : ℕ} (width_eq : width = 8 * size)
    (value : BitVec width) : value.toNat < 256 ^ size := by
  have bound := value.isLt
  have bytes : (256 : ℕ) = 2 ^ 8 := rfl
  rwa [bytes, ← pow_mul, ← width_eq]

theorem bit_vec_bytes_injective {size width : ℕ} (width_eq : width = 8 * size)
    {left right : BitVec width} (same : bigEndian size left.toNat = bigEndian size right.toNat) :
    left = right :=
  BitVec.eq_of_toNat_eq (big_endian_injective (bit_vec_bytes_bound width_eq left)
    (bit_vec_bytes_bound width_eq right) same)

theorem uint64_bytes_injective {left right : UInt64}
    (same : bigEndian 8 left.toNat = bigEndian 8 right.toNat) : left = right :=
  UInt64.toNat_inj.mp (big_endian_injective left.toNat_lt right.toNat_lt same)

theorem int64_bytes_injective {left right : Int64}
    (same : bigEndian 8 left.toUInt64.toNat = bigEndian 8 right.toUInt64.toNat) :
    left = right := by
  have values := congrArg UInt64.toInt64 (uint64_bytes_injective same)
  rwa [Int64.toInt64_toUInt64, Int64.toInt64_toUInt64] at values

/-- The padding does not hide a difference between deltas of one type. -/
theorem padded_injective {left right : StorageDelta} (implemented : left.implemented = true)
    (free : CollisionFree hashRaw left right) (types : left.type = right.type)
    (same : left.padded hashRaw = right.padded hashRaw) : left = right := by
  have payloads {first second : List UInt8} {padding other : List UInt8}
      (lengths : first.length = second.length) (equal : first ++ padding = second ++ other) :
      first = second := (List.append_inj equal lengths).1
  unfold StorageDelta.padded at same
  cases left with
  | deleteLast =>
      cases right <;> cases types
      rfl
  | rawMemoryWrite raw =>
      cases right <;> cases types
      rename_i other
      have hashes := payloads (by rw [StorageDelta.payload, StorageDelta.payload,
        length_big_endian, length_big_endian]) same
      rw [free raw other rfl rfl (bit_vec_bytes_injective rfl hashes)]
  | nonnegativeInt64SetAdd sa =>
      cases right <;> cases types
      rename_i other
      have fields := payloads (by simp only [StorageDelta.payload, List.length_append,
        length_big_endian]) same
      obtain ⟨values, deltas⟩ := List.append_inj fields (by
        rw [length_big_endian, length_big_endian])
      have set_value : sa.setValue = other.setValue := int64_bytes_injective values
      have amount : sa.delta = other.delta := int64_bytes_injective deltas
      obtain ⟨setValue, delta⟩ := sa
      cases set_value
      cases amount
      rfl
  | hashSetInsert hash =>
      cases right <;> cases types
      rename_i other
      have fields := payloads (by simp only [StorageDelta.payload, List.length_append,
        length_big_endian]) same
      obtain ⟨hashes, indices⟩ := List.append_inj fields (by
        rw [length_big_endian, length_big_endian])
      have entry_hash : hash.hash = other.hash := bit_vec_bytes_injective rfl hashes
      have index : hash.index = other.index := uint64_bytes_injective indices
      obtain ⟨entryHash, entryIndex⟩ := hash
      cases entry_hash
      cases index
      rfl
  | hashSetIncreaseLimit limitIncrease =>
      cases right <;> cases types
      rename_i other
      have limits := payloads (by rw [StorageDelta.payload, StorageDelta.payload,
        length_big_endian, length_big_endian]) same
      rw [UInt32.toNat_inj.mp (big_endian_injective limitIncrease.toNat_lt other.toNat_lt limits)]
  | hashSetClear threshold =>
      cases right <;> cases types
      rename_i other
      have thresholds := payloads (by rw [StorageDelta.payload, StorageDelta.payload,
        length_big_endian, length_big_endian]) same
      rw [uint64_bytes_injective thresholds]
  | assetObjectAdd assetDelta =>
      cases right <;> cases types
      rename_i other
      have amounts := payloads (by rw [StorageDelta.payload, StorageDelta.payload,
        length_big_endian, length_big_endian]) same
      rw [int64_bytes_injective amounts]
  | unconstrainedInt64SetAdd setAdd => cases implemented
  | unconstrainedInt64SetMax setMax => cases implemented
  | unconstrainedInt64SetXor setXor => cases implemented

theorem key_fields {left right : IndexedModification}
    (leftImplemented : left.delta.implemented = true)
    (rightImplemented : right.delta.implemented = true)
    (same : left.key hashRaw = right.key hashRaw) :
    left.addr = right.addr ∧ left.delta.type = right.delta.type ∧
      left.delta.padded hashRaw = right.delta.padded hashRaw ∧ left.txHash = right.txHash := by
  unfold IndexedModification.key at same
  rw [make_index_key_eq leftImplemented, make_index_key_eq rightImplemented] at same
  obtain ⟨front, hashes⟩ := List.append_inj' (Except.ok.inj same) (by
    rw [length_big_endian, length_big_endian])
  obtain ⟨header, modifications⟩ := List.append_inj' front (by
    rw [padded_length, padded_length])
  obtain ⟨addresses, types⟩ := List.append_inj' header rfl
  have values := (List.cons.inj types).1
  exact ⟨bit_vec_bytes_injective rfl addresses, delta_type_value_injective values, modifications,
    bit_vec_bytes_injective rfl hashes⟩

theorem key_injective {left right : IndexedModification}
    (leftImplemented : left.delta.implemented = true)
    (rightImplemented : right.delta.implemented = true)
    (free : CollisionFree hashRaw left.delta right.delta)
    (same : left.key hashRaw = right.key hashRaw) : left = right := by
  obtain ⟨addr, types, modifications, txHash⟩ :=
    key_fields leftImplemented rightImplemented same
  have deltas := padded_injective leftImplemented free types modifications
  obtain ⟨leftAddr, leftHash, delta⟩ := left
  cases addr
  cases txHash
  cases deltas
  rfl

/-! ## The index -/

abbrev TypedModificationIndex := AList fun _ : TriePrefix => StorageDelta

namespace TypedModificationIndex

def logModification (hashRaw : HashRaw) (modification : IndexedModification)
    (keys : TypedModificationIndex) : Except Fault TypedModificationIndex := do
  let key ← modification.key hashRaw
  .ok (keys.insert key modification.delta)

/-- `get_fn` of `save_modifications`. -/
def indexed (key : TriePrefix) (delta : StorageDelta) : IndexedModification where
  addr := BitVec.ofNat 512 (fromBigEndian (key.take addressAndKeySize))
  txHash := BitVec.ofNat 256 (fromBigEndian (key.drop (prefixSize - hashSize)))
  delta := delta

def saveModifications (keys : TypedModificationIndex) : List IndexedModification :=
  keys.entries.map fun entry => indexed entry.1 entry.2

end TypedModificationIndex

inductive LogMoves (hashRaw : HashRaw) :
    Threads.Moves TypedModificationIndex (List IndexedModification)
  | returned {keys : TypedModificationIndex} : LogMoves hashRaw keys [] keys 0
  | logged {keys after : TypedModificationIndex} {modification : IndexedModification}
      {rest : List IndexedModification}
      (logs : logModification hashRaw modification keys = .ok after) :
      LogMoves hashRaw keys (modification :: rest) after {rest}

def loggedModifications (threads : Multiset (List IndexedModification)) :
    Multiset IndexedModification :=
  threads.bind fun calls => ↑calls

theorem bit_vec_decoded {size width : ℕ} (width_eq : width = 8 * size) (value : BitVec width) :
    BitVec.ofNat width (fromBigEndian (bigEndian size value.toNat)) = value := by
  rw [from_big_endian, Nat.mod_eq_of_lt (bit_vec_bytes_bound width_eq value),
    BitVec.ofNat_toNat, BitVec.setWidth_eq]

theorem indexed_key {modification : IndexedModification} {key : TriePrefix}
    (implemented : modification.delta.implemented = true)
    (made : modification.key hashRaw = .ok key) :
    indexed key modification.delta = modification := by
  unfold IndexedModification.key at made
  rw [make_index_key_eq implemented] at made
  have layout := Except.ok.inj made
  have front : key.take addressAndKeySize =
      bigEndian addressAndKeySize modification.addr.toNat := by
    rw [← layout, List.append_assoc, List.append_assoc]
    exact List.take_left' (length_big_endian _ _)
  have back : key.drop (prefixSize - hashSize) =
      bigEndian hashSize modification.txHash.toNat := by
    rw [← layout]
    apply List.drop_left'
    rw [List.length_append, List.length_append, length_big_endian, padded_length]
    rfl
  have addr : BitVec.ofNat 512 (fromBigEndian (bigEndian addressAndKeySize
      modification.addr.toNat)) = modification.addr :=
    bit_vec_decoded (show 512 = 8 * addressAndKeySize from rfl) _
  have txHash : BitVec.ofNat 256 (fromBigEndian (bigEndian hashSize
      modification.txHash.toNat)) = modification.txHash :=
    bit_vec_decoded (show 256 = 8 * hashSize from rfl) _
  rw [indexed, front, back, addr, txHash]

/-! ## What the index holds -/

section Index

variable {keys after : TypedModificationIndex} {added : Multiset IndexedModification}
  {modification : IndexedModification}

structure Loggable (hashRaw : HashRaw) (added : Multiset IndexedModification) : Prop where
  implemented : ∀ modification ∈ added, modification.delta.implemented = true
  free : ∀ left ∈ added, ∀ right ∈ added, CollisionFree hashRaw left.delta right.delta

/-- The modifications can be logged, and no two of them share a key. -/
structure Keyed (hashRaw : HashRaw) (added : Multiset IndexedModification) : Prop where
  implemented : ∀ modification ∈ added, modification.delta.implemented = true
  apart : ∀ left ∈ added, ∀ right ∈ added, left.key hashRaw = right.key hashRaw → left = right

theorem Loggable.keyed (loggable : Loggable hashRaw added) : Keyed hashRaw added where
  implemented := loggable.implemented
  apart left leftMember right rightMember same :=
    key_injective (loggable.implemented left leftMember) (loggable.implemented right rightMember)
      (loggable.free left leftMember right rightMember) same

/-- Every leaf is a logged modification, and every logged one whose call has
returned is a leaf. -/
structure IndexKept (hashRaw : HashRaw) (added : Multiset IndexedModification)
    (pool : Pool TypedModificationIndex (List IndexedModification)) : Prop where
  leaf : ∀ key delta, pool.shared.lookup key = some delta →
    ∃ modification ∈ added, modification.key hashRaw = .ok key ∧ modification.delta = delta
  waiting : ∀ calls ∈ pool.tasks, ∀ modification ∈ calls, modification ∈ added
  kept : ∀ modification ∈ added, (∃ calls ∈ pool.tasks, modification ∈ calls) ∨
    ∃ key, modification.key hashRaw = .ok key ∧
      pool.shared.lookup key = some modification.delta

theorem log_modification_ok (logs : logModification hashRaw modification keys = .ok after) :
    ∃ key, modification.key hashRaw = .ok key ∧ after = keys.insert key modification.delta := by
  unfold logModification at logs
  cases made : modification.key hashRaw with
  | error fault =>
      rw [made] at logs
      cases logs
  | ok key =>
      rw [made] at logs
      exact ⟨key, rfl, (Except.ok.inj logs).symm⟩

/-- A key is taken again only for the modification that it stands for. Equal keys come from
equal deltas on the same address by the same transaction. -/
theorem logged_lookup (keyed : Keyed hashRaw added) (member : modification ∈ added)
    {key : TriePrefix} (made : modification.key hashRaw = .ok key)
    {other : IndexedModification} (otherMember : other ∈ added) {otherKey : TriePrefix}
    (otherMade : other.key hashRaw = .ok otherKey)
    (found : keys.lookup otherKey = some other.delta) :
    (keys.insert key modification.delta).lookup otherKey = some other.delta := by
  by_cases same : otherKey = key
  · subst same
    have one : other = modification :=
      keyed.apart other otherMember modification member (otherMade.trans made.symm)
    rw [AList.lookup_insert, one]
  · rw [AList.lookup_insert_ne same]
    exact found

theorem keyed_step_kept (keyed : Keyed hashRaw added)
    (pool : Pool TypedModificationIndex (List IndexedModification))
    (label : List IndexedModification)
    (next : Pool TypedModificationIndex (List IndexedModification))
    (kept : IndexKept hashRaw added pool)
    (step : Threads.Step (LogMoves hashRaw) pool label next) : IndexKept hashRaw added next := by
  cases step with
  | @move shared after task left others moved =>
      cases moved with
      | returned =>
          rw [Multiset.zero_add]
          refine ⟨kept.leaf, fun calls member => kept.waiting calls
            (Multiset.mem_cons_of_mem member), ?_⟩
          intro modification member
          rcases kept.kept modification member with ⟨calls, waits, listed⟩ | found
          · rcases Multiset.mem_cons.mp waits with rfl | waits
            · exact absurd listed List.not_mem_nil
            · exact .inl ⟨calls, waits, listed⟩
          · exact .inr found
      | @logged _ _ modification rest logs =>
          obtain ⟨key, made, rfl⟩ := log_modification_ok logs
          have own : modification ∈ added :=
            kept.waiting _ (Multiset.mem_cons_self _ _) modification List.mem_cons_self
          rw [Multiset.singleton_add]
          constructor
          · intro leaf delta found
            by_cases same : leaf = key
            · subst same
              rw [AList.lookup_insert, Option.some.injEq] at found
              exact ⟨modification, own, made, found⟩
            · rw [AList.lookup_insert_ne same] at found
              exact kept.leaf leaf delta found
          · intro calls member other listed
            rcases Multiset.mem_cons.mp member with rfl | member
            · exact kept.waiting _ (Multiset.mem_cons_self _ _) other
                (List.mem_cons_of_mem _ listed)
            · exact kept.waiting calls (Multiset.mem_cons_of_mem member) other listed
          · intro other member
            rcases kept.kept other member with ⟨calls, waits, listed⟩ | ⟨otherKey, otherMade, found⟩
            · rcases Multiset.mem_cons.mp waits with rfl | waits
              · rcases List.mem_cons.mp listed with rfl | listed
                · exact .inr ⟨key, made, AList.lookup_insert _⟩
                · exact .inl ⟨rest, Multiset.mem_cons_self _ _, listed⟩
              · exact .inl ⟨calls, Multiset.mem_cons_of_mem waits, listed⟩
            · exact .inr ⟨otherKey, otherMade,
                logged_lookup keyed own made member otherMade found⟩

theorem log_step_kept (loggable : Loggable hashRaw added)
    (pool : Pool TypedModificationIndex (List IndexedModification))
    (label : List IndexedModification)
    (next : Pool TypedModificationIndex (List IndexedModification))
    (kept : IndexKept hashRaw added pool)
    (step : Threads.Step (LogMoves hashRaw) pool label next) : IndexKept hashRaw added next :=
  keyed_step_kept loggable.keyed pool label next kept step

theorem index_kept_start (threads : Multiset (List IndexedModification)) :
    IndexKept hashRaw (loggedModifications threads) ⟨∅, threads⟩ where
  leaf key delta found := by cases found
  waiting calls member modification listed :=
    Multiset.mem_bind.mpr ⟨calls, member, Multiset.mem_coe.mpr listed⟩
  kept modification member := by
    obtain ⟨calls, waits, listed⟩ := Multiset.mem_bind.mp member
    exact .inl ⟨calls, waits, Multiset.mem_coe.mp listed⟩

theorem keyed_kept_saved (keyed : Keyed hashRaw added)
    {pool : Pool TypedModificationIndex (List IndexedModification)}
    (kept : IndexKept hashRaw added pool) (finished : pool.Finished) :
    (saveModifications pool.shared).Nodup ∧
      ∀ modification, modification ∈ saveModifications pool.shared ↔ modification ∈ added := by
  have leaves {entry : Sigma fun _ : TriePrefix => StorageDelta}
      (member : entry ∈ pool.shared.entries) :
      ∃ modification ∈ added, modification.key hashRaw = .ok entry.1 ∧
        indexed entry.1 entry.2 = modification := by
    obtain ⟨modification, listed, made, same⟩ :=
      kept.leaf entry.1 entry.2 (AList.mem_lookup_iff.mpr member)
    refine ⟨modification, listed, made, ?_⟩
    rw [← same]
    exact indexed_key (keyed.implemented modification listed) made
  constructor
  · apply List.Nodup.map_on _ (List.Nodup.of_map Sigma.fst pool.shared.keys_nodup)
    intro first firstMember second secondMember same
    obtain ⟨_, _, firstMade, rfl⟩ := leaves firstMember
    obtain ⟨_, _, secondMade, rfl⟩ := leaves secondMember
    rw [same, secondMade] at firstMade
    have deltas := congrArg IndexedModification.delta same
    obtain ⟨firstKey, firstDelta⟩ := first
    cases Except.ok.inj firstMade
    cases deltas
    rfl
  · intro modification
    unfold saveModifications
    rw [List.mem_map]
    constructor
    · rintro ⟨entry, member, rfl⟩
      obtain ⟨other, listed, _, rfl⟩ := leaves member
      exact listed
    · intro member
      rcases kept.kept modification member with ⟨calls, waits, _⟩ | ⟨key, made, found⟩
      · rw [finished] at waits
        exact absurd waits (Multiset.notMem_zero _)
      · exact ⟨⟨key, modification.delta⟩, AList.mem_lookup_iff.mp found,
          indexed_key (keyed.implemented modification member) made⟩

theorem index_kept_saved (loggable : Loggable hashRaw added)
    {pool : Pool TypedModificationIndex (List IndexedModification)}
    (kept : IndexKept hashRaw added pool) (finished : pool.Finished) :
    (saveModifications pool.shared).Nodup ∧
      ∀ modification, modification ∈ saveModifications pool.shared ↔ modification ∈ added :=
  keyed_kept_saved loggable.keyed kept finished

end Index

/-- Equal keys belong to one modification, and whatever threads log, in any order,
is saved exactly. -/
theorem modifications_indexed (hashRaw : HashRaw) :
    (∀ left right : IndexedModification, left.delta.implemented = true →
      right.delta.implemented = true → CollisionFree hashRaw left.delta right.delta →
      left.key hashRaw = right.key hashRaw → left = right) ∧
    ∀ (threads : Multiset (List IndexedModification)) (labels : List (List IndexedModification))
      (final : Pool TypedModificationIndex (List IndexedModification)),
      Loggable hashRaw (loggedModifications threads) →
      Run (Threads.Step (LogMoves hashRaw)) ⟨∅, threads⟩ labels final → final.Finished →
      (saveModifications final.shared).Nodup ∧
        ∀ modification, modification ∈ saveModifications final.shared ↔
          modification ∈ loggedModifications threads := by
  constructor
  · intro left right leftImplemented rightImplemented free same
    exact key_injective leftImplemented rightImplemented free same
  · intro threads labels final loggable run finished
    have kept : IndexKept hashRaw (loggedModifications threads) final :=
      run_invariant (IndexKept hashRaw (loggedModifications threads)) (log_step_kept loggable)
        (index_kept_start threads) run
    exact index_kept_saved loggable kept finished

theorem logged_step {keys after : TypedModificationIndex} {modification : IndexedModification}
    (rest : List IndexedModification) (tasks : Multiset (List IndexedModification))
    (logs : logModification hashRaw modification keys = .ok after) :
    Threads.Step (LogMoves hashRaw) ⟨keys, (modification :: rest) ::ₘ tasks⟩
      (modification :: rest) ⟨after, rest ::ₘ tasks⟩ := by
  rw [← Multiset.singleton_add]
  have moved : LogMoves hashRaw keys (modification :: rest) after {rest} := .logged logs
  exact .move tasks moved

theorem log_returned_step {keys : TypedModificationIndex}
    (tasks : Multiset (List IndexedModification)) :
    Threads.Step (LogMoves hashRaw) ⟨keys, [] ::ₘ tasks⟩ [] ⟨keys, tasks⟩ := by
  have returns : LogMoves hashRaw keys [] keys 0 := .returned
  have step := Threads.Step.move tasks returns
  rwa [Multiset.zero_add] at step

/-- A raised limit and a clear threshold with the same bytes, by two threads. -/
def limitAndThreshold : Multiset (List IndexedModification) :=
  {[{ addr := 7, txHash := 3, delta := .hashSetIncreaseLimit 0 }],
    [{ addr := 7, txHash := 3, delta := .hashSetClear 0 }]}

theorem modifications_indexed_two : ∃ labels final,
    Run (Threads.Step (LogMoves fun bytes => BitVec.ofNat 256 (fromBigEndian bytes)))
      ⟨∅, limitAndThreshold⟩ labels final ∧
    (saveModifications final.shared).Nodup ∧
      ∀ modification, modification ∈ saveModifications final.shared ↔
        modification ∈ loggedModifications limitAndThreshold := by
  have run : ∃ labels final,
      Run (Threads.Step (LogMoves fun bytes => BitVec.ofNat 256 (fromBigEndian bytes)))
        ⟨∅, limitAndThreshold⟩ labels final ∧ final.Finished := by
    have threads : limitAndThreshold =
        [{ addr := 7, txHash := 3, delta := .hashSetIncreaseLimit 0 }] ::ₘ
          [{ addr := 7, txHash := 3, delta := .hashSetClear 0 }] ::ₘ 0 := rfl
    rw [threads]
    apply Exists.intro
    apply Exists.intro
    constructor
    · apply Run.cons (logged_step [] _ rfl)
      apply Run.cons (log_returned_step _)
      apply Run.cons (logged_step [] 0 rfl)
      apply Run.cons (log_returned_step _)
      exact Run.nil _
    · rfl
  obtain ⟨labels, final, run, finished⟩ := run
  have loggable : Loggable (fun bytes => BitVec.ofNat 256 (fromBigEndian bytes))
      (loggedModifications limitAndThreshold) := by
    have members : loggedModifications limitAndThreshold =
        {{ addr := 7, txHash := 3, delta := .hashSetIncreaseLimit 0 },
          { addr := 7, txHash := 3, delta := .hashSetClear 0 }} := rfl
    rw [members]
    constructor
    · decide
    · intro left member right _ first second write
      rcases Multiset.mem_cons.mp member with rfl | member
      · cases write
      · rw [Multiset.mem_singleton.mp member] at write
        cases write
  exact ⟨labels, final, run,
    (modifications_indexed _).2 limitAndThreshold labels final loggable run finished⟩

end Scs
