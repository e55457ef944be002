import Mathlib.Algebra.Group.Nat.Defs
import Mathlib.Data.List.Sort
import Mathlib.Data.Nat.Notation

/-!
# Storage objects and deltas (`xdr/storage.x`, `xdr/storage_delta.x`)

The unions are inductive types, so a reader of the wrong arm does not type
check; where the source reads an arm whose tag it has not just tested, the
model returns the fault that the accessor throws.
-/

namespace Scs

set_option autoImplicit false

inductive Fault where
  | runtimeError (what : String)
  | wrongUnion
  | outOfRange
  | spin
  deriving DecidableEq, Repr

inductive ObjectType where
  | rawMemory
  | nonnegativeInt64
  | hashSet
  | unconstrainedInt64
  | knownSupplyAsset
  deriving DecidableEq, Repr

def rawMemoryMaxLen : Nat := 4096

def maxHashSetSize : Nat := 65535

def startHashSetSize : UInt32 := 64

/-- `opaque data<RAW_MEMORY_MAX_LEN>`. -/
structure RawMemoryStorage where
  data : List UInt8
  bounded : data.length ≤ rawMemoryMaxLen
  deriving DecidableEq, Repr

/-- 32 bytes, read big-endian, so that the byte order is the numeric order. -/
abbrev Hash := BitVec 256

abbrev Address := BitVec 256

abbrev InvariantKey := BitVec 256

abbrev Contract := List UInt8

abbrev AddressAndKey := BitVec 512

structure HashSetEntry where
  hash : Hash
  index : UInt64
  deriving DecidableEq, Repr

structure HashSet where
  hashes : List HashSetEntry
  maxSize : UInt32
  deriving DecidableEq, Repr

structure AssetObject where
  amount : UInt64
  deriving DecidableEq, Repr

inductive ObjectBody where
  | rawMemoryStorage (raw : RawMemoryStorage)
  | nonnegativeInt64 (value : Int64)
  | hashSet (set : HashSet)
  | unconstrainedInt64 (value : Int64)
  | asset (asset : AssetObject)
  deriving DecidableEq, Repr

def ObjectBody.type : ObjectBody → ObjectType
  | .rawMemoryStorage _ => .rawMemory
  | .nonnegativeInt64 _ => .nonnegativeInt64
  | .hashSet _ => .hashSet
  | .unconstrainedInt64 _ => .unconstrainedInt64
  | .asset _ => .knownSupplyAsset

structure StorageObject where
  body : ObjectBody
  escrowedFee : UInt64
  deriving DecidableEq, Repr

structure SetAdd where
  setValue : Int64
  delta : Int64
  deriving DecidableEq, Repr

structure SetXor where
  setValue : Int64
  bitmap : UInt64
  deriving DecidableEq, Repr

structure SetMax where
  setValue : Int64
  max : Int64
  deriving DecidableEq, Repr

inductive StorageDelta where
  | deleteLast
  | rawMemoryWrite (data : RawMemoryStorage)
  | nonnegativeInt64SetAdd (setAdd : SetAdd)
  | hashSetInsert (hash : HashSetEntry)
  | hashSetIncreaseLimit (limitIncrease : UInt32)
  | hashSetClear (threshold : UInt64)
  | unconstrainedInt64SetAdd (setAdd : SetAdd)
  | unconstrainedInt64SetMax (setMax : SetMax)
  | unconstrainedInt64SetXor (setXor : SetXor)
  | assetObjectAdd (assetDelta : Int64)
  deriving DecidableEq, Repr

inductive DeltaType where
  | deleteLast
  | rawMemoryWrite
  | nonnegativeInt64SetAdd
  | hashSetInsert
  | hashSetIncreaseLimit
  | hashSetClear
  | unconstrainedInt64SetAdd
  | unconstrainedInt64SetMax
  | unconstrainedInt64SetXor
  | assetObjectAdd
  deriving DecidableEq, Repr

inductive StorageDeltaClass where
  | rawMemory (data : RawMemoryStorage)
  | nonnegativeInt64 (value : Int64)
  | hashSet
  | unconstrainedInt64 (setValue : Int64) (delta : DeltaType)
  | knownSupplyAsset
  deriving DecidableEq, Repr

def StorageDeltaClass.type : StorageDeltaClass → ObjectType
  | .rawMemory _ => .rawMemory
  | .nonnegativeInt64 _ => .nonnegativeInt64
  | .hashSet => .hashSet
  | .unconstrainedInt64 _ _ => .unconstrainedInt64
  | .knownSupplyAsset => .knownSupplyAsset

/-- The delta types that `RevertableObject` and `ProxyApplicator` implement. -/
def StorageDelta.implemented : StorageDelta → Bool
  | .unconstrainedInt64SetAdd _ => false
  | .unconstrainedInt64SetMax _ => false
  | .unconstrainedInt64SetXor _ => false
  | _ => true

/-! ## Constructors of deltas (`object/make_delta.cc`) -/

def makeRawMemoryWrite (data : RawMemoryStorage) : StorageDelta := .rawMemoryWrite data

def makeDeleteLast : StorageDelta := .deleteLast

def makeNonnegativeInt64SetAdd (set add : Int64) : StorageDelta :=
  .nonnegativeInt64SetAdd { setValue := set, delta := add }

def makeHashSetInsert (entry : HashSetEntry) : StorageDelta := .hashSetInsert entry

def makeHashSetIncreaseLimit (limit : UInt16) : StorageDelta :=
  .hashSetIncreaseLimit limit.toUInt32

def makeHashSetClear (threshold : UInt64) : StorageDelta := .hashSetClear threshold

def makeAssetAdd (delta : Int64) : StorageDelta := .assetObjectAdd delta

/-! ## Order of hash set entries (`object/comparators.cc`) -/

namespace HashSetEntry

/-- `operator<=>`: the index decides, then the hash. -/
def spaceship (d1 d2 : HashSetEntry) : Ordering :=
  let res := compare d1.index.toNat d2.index.toNat
  if res ≠ .eq then res else compare d1.hash.toNat d2.hash.toNat

def rank (entry : HashSetEntry) : Nat := entry.index.toNat * 2 ^ 256 + entry.hash.toNat

theorem rank_injective {left right : HashSetEntry} (same : left.rank = right.rank) :
    left = right := by
  obtain ⟨leftHash, leftIndex⟩ := left
  obtain ⟨rightHash, rightIndex⟩ := right
  have leftBound := leftHash.isLt
  have rightBound := rightHash.isLt
  simp only [rank] at same
  have index : leftIndex = rightIndex := UInt64.toNat_inj.mp (by omega)
  have hash : leftHash = rightHash := BitVec.eq_of_toNat_eq (by omega)
  rw [index, hash]

theorem spaceship_eq_compare_rank (d1 d2 : HashSetEntry) :
    spaceship d1 d2 = compare d1.rank d2.rank := by
  have leftBound := d1.hash.isLt
  have rightBound := d2.hash.isLt
  unfold spaceship rank
  rcases Nat.lt_trichotomy d1.index.toNat d2.index.toNat with less | same | greater
  · have outer : compare d1.index.toNat d2.index.toNat = .lt := Nat.compare_eq_lt.mpr less
    rw [outer, if_pos (by decide)]
    symm
    apply Nat.compare_eq_lt.mpr
    omega
  · have outer : compare d1.index.toNat d2.index.toNat = .eq := Nat.compare_eq_eq.mpr same
    rw [outer, if_neg (by decide), same]
    rcases Nat.lt_trichotomy d1.hash.toNat d2.hash.toNat with below | equal | above
    · rw [Nat.compare_eq_lt.mpr below, Nat.compare_eq_lt.mpr (by omega)]
    · rw [Nat.compare_eq_eq.mpr equal, Nat.compare_eq_eq.mpr (by omega)]
    · rw [Nat.compare_eq_gt.mpr above, Nat.compare_eq_gt.mpr (by omega)]
  · have outer : compare d1.index.toNat d2.index.toNat = .gt := Nat.compare_eq_gt.mpr greater
    rw [outer, if_pos (by decide)]
    symm
    apply Nat.compare_eq_gt.mpr
    omega

/-- `!(d2 > d1)`: the first entry may stand before the second one under
`std::greater`. -/
def notBelow (d1 d2 : HashSetEntry) : Prop := spaceship d2 d1 ≠ .gt

instance : DecidableRel notBelow := fun d1 d2 => inferInstanceAs (Decidable (spaceship d2 d1 ≠ .gt))

theorem not_below_iff {d1 d2 : HashSetEntry} : notBelow d1 d2 ↔ d2.rank ≤ d1.rank := by
  unfold notBelow
  rw [spaceship_eq_compare_rank, Ne, Nat.compare_eq_gt]
  omega

theorem not_below_antisymm {d1 d2 : HashSetEntry} (first : notBelow d1 d2)
    (second : notBelow d2 d1) : d1 = d2 := by
  rw [not_below_iff] at first second
  exact rank_injective (by omega)

theorem index_le_of_not_below {d1 d2 : HashSetEntry} (ordered : notBelow d1 d2) :
    d2.index.toNat ≤ d1.index.toNat := by
  rw [not_below_iff] at ordered
  have bound := d1.hash.isLt
  unfold rank at ordered
  omega

instance : Std.Total notBelow where
  total d1 d2 := by
    rw [not_below_iff, not_below_iff]
    omega

instance : Std.Antisymm notBelow where
  antisymm _ _ first second := not_below_antisymm first second

instance : IsTrans HashSetEntry notBelow where
  trans d1 d2 d3 first second := by
    rw [not_below_iff] at first second ⊢
    omega

end HashSetEntry

end Scs
