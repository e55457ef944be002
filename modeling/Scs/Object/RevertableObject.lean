import Scs.HashSet.AtomicSet
import Scs.HashSet.Utils
import Scs.Object.ObjectDefaults
import Scs.Object.RevertableBaseObject
import Scs.Utils.AtomicUint128

/-!
# Revertable objects (`object/revertable_object.cc`)

Every call of `try_add_delta`, `DeltaRewind::commit`, `~DeltaRewind`,
`commit_round` and `rewind_round` on one object, as a function of the object's
words. A call that throws or never returns is a fault.
-/

namespace Scs

set_option autoImplicit false

open Words

/-- What one `try_add_delta` call may draw from the context of its thread: a swap id in
`try_set`, one if it has to destroy the granted `Rewind` again, and an index of the
hash allocator, in which the thread has `allocated` entries. -/
structure CallIds where
  set : UniqueId
  undo : UniqueId
  thread : Fin tlcacheSize
  allocated : ℕ

def CallIds.first : CallIds where
  set := (UniqueIdentifier.create 0).get.1
  undo := (UniqueIdentifier.create 0).get.2.get.1
  thread := firstThread
  allocated := 0

def CallIds.holding (ids : CallIds) (allocated : ℕ) : CallIds := { ids with allocated := allocated }

@[simp] theorem CallIds.holding_allocated (ids : CallIds) (allocated : ℕ) :
    (ids.holding allocated).allocated = allocated := rfl

/-- The thread has an entry left if the delta may need one. -/
def CallIds.Serves (ids : CallIds) : StorageDelta → Prop
  | .hashSetInsert _ => ids.allocated < allocSize
  | _ => True

theorem first_serves (delta : StorageDelta) : CallIds.first.Serves delta := by
  have room : (0 : ℕ) < allocSize := by decide
  cases delta <;> first | exact trivial | exact room

structure RevertableObject where
  baseObj : RevertableBaseObject
  totalSubtracted : Int64
  totalAdded : AtomicUint128
  sizeIncrease : UInt64
  newHashes : AtomicSet
  numNewElts : UInt32
  hashsetClearCommitted : Bool
  maxCommittedClearThreshold : UInt64
  deleteLastCommitted : Bool
  availableAsset : UInt64
  availableAssetUpperbound : UInt64
  committedBase : Option StorageObject
  deriving DecidableEq, Repr

/-- `DeltaRewind`, without its pointer to the object it belongs to. -/
structure DeltaRewind where
  rewindBase : Rewind
  delta : StorageDelta
  doRewind : Bool
  deriving DecidableEq, Repr

def DeltaRewind.granted (rewindBase : Rewind) (delta : StorageDelta) : DeltaRewind where
  rewindBase := rewindBase
  delta := delta
  doRewind := true

/-- `try_add_uint64`: adds the signed amount unless the exact sum leaves uint64. -/
def tryAddUint64 (delta : Int64) (base : UInt64) : Option UInt64 :=
  if addOverflowUInt64 base.toNat delta.toInt then none else some (base + delta.toUInt64)

namespace RevertableObject

/-! ## Construction -/

def fresh : RevertableObject where
  baseObj := .fresh
  totalSubtracted := 0
  totalAdded := .zero
  sizeIncrease := 0
  newHashes := .create startHashSetSize
  numNewElts := 0
  hashsetClearCommitted := false
  maxCommittedClearThreshold := 0
  deleteLastCommitted := false
  availableAsset := 0
  availableAssetUpperbound := 0
  committedBase := none

def ofCommitted (committedBase : StorageObject) : RevertableObject where
  baseObj := .ofObject committedBase
  totalSubtracted := 0
  totalAdded := .zero
  sizeIncrease := 0
  newHashes := match committedBase.body with
    | .hashSet set => (AtomicSet.create 0).resize set.maxSize
    | _ => AtomicSet.create 0
  numNewElts := 0
  hashsetClearCommitted := false
  maxCommittedClearThreshold := 0
  deleteLastCommitted := false
  availableAsset := match committedBase.body with
    | .asset asset => asset.amount
    | _ => 0
  availableAssetUpperbound := match committedBase.body with
    | .asset asset => asset.amount
    | _ => 0
  committedBase := some committedBase

def onBase : Option StorageObject → RevertableObject
  | none => fresh
  | some committedBase => ofCommitted committedBase

/-! ## `try_add_delta` -/

/-- The branches that agree on a base value first and then reserve something.
When nothing can be reserved the granted `Rewind` is destroyed on return. -/
def reserve (ids : CallIds) (delta : StorageDelta) (value : StorageDeltaClass)
    (attempt : RevertableObject → Except Fault (Option RevertableObject))
    (object : RevertableObject) : Except Fault (Option DeltaRewind × RevertableObject) := do
  let (res, baseObj) ← object.baseObj.trySet ids.set value
  match res with
  | none => .ok (none, { object with baseObj := baseObj })
  | some rewind =>
      match ← attempt { object with baseObj := baseObj } with
      | some reserved => .ok (some (.granted rewind delta), reserved)
      | none =>
          let baseObj ← rewind.destroy ids.undo baseObj
          .ok (none, { object with baseObj := baseObj })

/-- `NONNEGATIVE_INT64_SET_ADD`: a negative amount is reserved against the set
value, a nonnegative one is only added up. -/
def admitSetAdd (setAdd : SetAdd) (object : RevertableObject) :
    Except Fault (Option RevertableObject) :=
  let d := setAdd.delta
  if d < 0 then
    let curValue := object.totalSubtracted
    if addOverflowInt64 curValue.toInt d.toInt then .ok none
    else
      let newValue := curValue + d
      let base := setAdd.setValue
      if base < 0 || base + newValue < 0 then .ok none
      else .ok (some { object with totalSubtracted := newValue })
  else .ok (some { object with totalAdded := object.totalAdded.add d.toUInt64 })

def admitWrite (object : RevertableObject) : Except Fault (Option RevertableObject) :=
  .ok (some object)

def admitIncreaseLimit (limitIncrease : UInt32) (object : RevertableObject) :
    Except Fault (Option RevertableObject) :=
  .ok (some { object with sizeIncrease := object.sizeIncrease + limitIncrease.toUInt64 })

/-- The committed hashes and the limit that `HASH_SET_INSERT` reads. An object without a
committed base reads an empty set of the first limit. -/
def committedHashes (object : RevertableObject) : Except Fault (List HashSetEntry × UInt32) :=
  match object.committedBase with
  | none => .ok ([], startHashSetSize)
  | some { body := .hashSet set, .. } => .ok (set.hashes, set.maxSize)
  | some _ => .error .wrongUnion

def admitInsert (cryptoShorthash : CryptoShorthash) (allocated : ℕ) (hash : HashSetEntry)
    (object : RevertableObject) : Except Fault (Option RevertableObject) := do
  let (hashes, maxSize) ← object.committedHashes
  if hash ∈ hashes then .ok none
  else
    let numNewElts := object.numNewElts + 1
    let curSize := hashes.length + numNewElts.toNat
    if curSize > maxSize.toNat then .ok none
    else
      let (inserted, _, newHashes) ← object.newHashes.tryInsert cryptoShorthash allocated hash
      if inserted then
        .ok (some { object with numNewElts := numNewElts, newHashes := newHashes })
      else .ok none

def admitAssetAdd (assetDelta : Int64) (object : RevertableObject) :
    Except Fault (Option RevertableObject) :=
  if assetDelta < 0 then
    match tryAddUint64 assetDelta object.availableAsset with
    | some availableAsset => .ok (some { object with availableAsset := availableAsset })
    | none => .ok none
  else
    match tryAddUint64 assetDelta object.availableAssetUpperbound with
    | some upperbound => .ok (some { object with availableAssetUpperbound := upperbound })
    | none => .ok none

def tryAddDelta (cryptoShorthash : CryptoShorthash) (ids : CallIds) (delta : StorageDelta)
    (object : RevertableObject) : Except Fault (Option DeltaRewind × RevertableObject) :=
  match delta with
  | .deleteLast => .ok (some (.granted .detached delta), object)
  | .nonnegativeInt64SetAdd setAdd =>
      reserve ids delta (.nonnegativeInt64 setAdd.setValue) (admitSetAdd setAdd) object
  | .rawMemoryWrite data => reserve ids delta (.rawMemory data) admitWrite object
  | .hashSetIncreaseLimit limitIncrease =>
      reserve ids delta .hashSet (admitIncreaseLimit limitIncrease) object
  | .hashSetInsert hash =>
      reserve ids delta .hashSet (admitInsert cryptoShorthash ids.allocated hash) object
  | .hashSetClear _ => reserve ids delta .hashSet admitWrite object
  | .assetObjectAdd assetDelta =>
      reserve ids delta .knownSupplyAsset (admitAssetAdd assetDelta) object
  | _ => .error (.runtimeError "unimplemented deltatype in RevertableObject::try_set")

/-- Whether the call gets as far as `new_hashes.try_insert` and so takes an index, whatever
the answer: these are the calls that throw on a thread with no entry left. -/
def takesIndex (cryptoShorthash : CryptoShorthash) (ids : CallIds) (delta : StorageDelta)
    (object : RevertableObject) : Bool :=
  exhausts (object.tryAddDelta cryptoShorthash (ids.holding allocSize) delta)

def allocatedAfter (cryptoShorthash : CryptoShorthash) (ids : CallIds) (delta : StorageDelta)
    (object : RevertableObject) : ℕ :=
  if object.takesIndex cryptoShorthash ids delta then ids.allocated + 1 else ids.allocated

/-! ## Committing and reverting one delta -/

def commitDelta (delta : StorageDelta) (object : RevertableObject) :
    Except Fault RevertableObject :=
  match delta with
  | .deleteLast => .ok { object with deleteLastCommitted := true }
  | .nonnegativeInt64SetAdd _ => .ok object
  | .rawMemoryWrite _ => .ok object
  | .hashSetIncreaseLimit _ => .ok object
  | .hashSetInsert _ => .ok object
  | .hashSetClear threshold =>
      .ok
        { object with
          hashsetClearCommitted := true
          maxCommittedClearThreshold :=
            if object.maxCommittedClearThreshold ≥ threshold then
              object.maxCommittedClearThreshold
            else threshold }
  | .assetObjectAdd d =>
      if d < 0 then
        .ok { object with
              availableAssetUpperbound := object.availableAssetUpperbound + d.toUInt64 }
      else .ok { object with availableAsset := object.availableAsset + d.toUInt64 }
  | _ => .error (.runtimeError "unknown deltatype in commit_delta()")

def revertDelta (cryptoShorthash : CryptoShorthash) (delta : StorageDelta)
    (object : RevertableObject) : Except Fault RevertableObject :=
  match delta with
  | .deleteLast => .ok object
  | .nonnegativeInt64SetAdd setAdd =>
      let d := setAdd.delta
      if d < 0 then .ok { object with totalSubtracted := object.totalSubtracted - d }
      else .ok { object with totalAdded := object.totalAdded.sub d.toUInt64 }
  | .rawMemoryWrite _ => .ok object
  | .hashSetIncreaseLimit limitIncrease =>
      .ok { object with sizeIncrease := object.sizeIncrease - limitIncrease.toUInt64 }
  | .hashSetInsert hash => do
      let newHashes ← object.newHashes.erase cryptoShorthash hash
      .ok { object with numNewElts := object.numNewElts - 1, newHashes := newHashes }
  | .hashSetClear _ => .ok object
  | .assetObjectAdd d =>
      if d < 0 then .ok { object with availableAsset := object.availableAsset - d.toUInt64 }
      else
        .ok { object with
              availableAssetUpperbound := object.availableAssetUpperbound - d.toUInt64 }
  | _ => .error (.runtimeError "assert unreachable")

end RevertableObject

namespace DeltaRewind

open RevertableObject

/-- `DeltaRewind::commit`. The rewind is spent afterwards. -/
def commit (rewind : DeltaRewind) (object : RevertableObject) :
    Except Fault RevertableObject := do
  let committed ← commitDelta rewind.delta object
  .ok { committed with baseObj := rewind.rewindBase.commit committed.baseObj }

def undo (cryptoShorthash : CryptoShorthash) (rewind : DeltaRewind) (object : RevertableObject) :
    Except Fault RevertableObject :=
  if rewind.doRewind then object.revertDelta cryptoShorthash rewind.delta else .ok object

/-- `~DeltaRewind`, followed by the destructor of its base rewind. -/
def destroy (cryptoShorthash : CryptoShorthash) (newId : UniqueId) (rewind : DeltaRewind)
    (object : RevertableObject) : Except Fault RevertableObject := do
  let reverted ← rewind.undo cryptoShorthash object
  let baseObj ← rewind.rewindBase.destroy newId reverted.baseObj
  .ok { reverted with baseObj := baseObj }

end DeltaRewind

namespace RevertableObject

/-! ## The end of a round -/

def clearMods (object : RevertableObject) : RevertableObject :=
  let amount := match object.committedBase with
    | some { body := .asset asset, .. } => asset.amount
    | _ => 0
  { object with
    totalSubtracted := 0
    totalAdded := object.totalAdded.clear
    sizeIncrease := 0
    newHashes := object.newHashes.clear
    numNewElts := 0
    hashsetClearCommitted := false
    maxCommittedClearThreshold := 0
    deleteLastCommitted := false
    availableAsset := amount
    availableAssetUpperbound := amount }

/-- The final value of a nonnegative integer: the subtracted part, then the
added part capped at `INT64_MAX`. -/
def finishInt64 (value : Int64) (object : RevertableObject) : Int64 :=
  let reduced := value + object.totalSubtracted
  let added := object.totalAdded.fetchCap
  if addOverflowInt64 reduced.toInt added.toNat then Int64.maxValue
  else reduced + added.toInt64

def finishHashSet (set : HashSet) (object : RevertableObject) : Except Fault HashSet := do
  let newSize := object.sizeIncrease + set.maxSize.toUInt64
  let maxSize := (min (UInt64.ofNat maxHashSetSize) newSize).toUInt32
  let merged := normalizeHashset
    { hashes := set.hashes ++ object.newHashes.getHashes, maxSize := maxSize }
  if object.hashsetClearCommitted then clearHashset merged object.maxCommittedClearThreshold
  else .ok merged

/-- The new-hash table follows a raised limit; its argument is truncated to 32
bits. -/
def finishTable (set : HashSet) (object : RevertableObject) : AtomicSet :=
  let newSize := object.sizeIncrease + set.maxSize.toUInt64
  if object.sizeIncrease > 0 then object.newHashes.resize newSize.toUInt32
  else object.newHashes

/-- The switch of `commit_round` over the type of the new base. -/
def finishBase (committed : StorageObject) (object : RevertableObject) :
    Except Fault RevertableObject :=
  match committed.body with
  | .nonnegativeInt64 value =>
      .ok { object with
            committedBase :=
              some { committed with body := .nonnegativeInt64 (finishInt64 value object) } }
  | .rawMemoryStorage _ => .ok { object with committedBase := some committed }
  | .hashSet set => do
      let finished ← finishHashSet set object
      .ok { object with
            newHashes := finishTable set object
            committedBase := some { committed with body := .hashSet finished } }
  | .asset _ =>
      if object.availableAsset = object.availableAssetUpperbound then
        .ok { object with
              committedBase :=
                some { committed with body := .asset { amount := object.availableAsset } } }
      else .error (.runtimeError "asset value vs. upperbound mismatch in commit")
  | .unconstrainedInt64 _ =>
      .error (.runtimeError "unimplemented object type in RevertableObject::commit_round()")

def commitRound (object : RevertableObject) : Except Fault RevertableObject := do
  let (newBase, baseObj) := object.baseObj.commitRoundAndReset
  let object := { object with baseObj := baseObj }
  let committedBase ← match newBase with
    | some value => do
        let fromClass ← objectFromDeltaClass value object.committedBase
        .ok (some fromClass)
    | none => .ok object.committedBase
  let object := { object with committedBase := committedBase }
  match committedBase with
  | none => .ok (clearMods object)
  | some committed =>
      if object.deleteLastCommitted then
        let cleared := clearMods object
        .ok { cleared with
              committedBase := none
              baseObj := cleared.baseObj.clearRequiredType }
      else do
        let finished ← finishBase committed object
        .ok (clearMods finished)

def rewindRound (object : RevertableObject) : RevertableObject :=
  clearMods { object with baseObj := object.baseObj.rewindRound }

def getCommittedObject (object : RevertableObject) : Option StorageObject := object.committedBase

end RevertableObject

end Scs
