import Scs.HashSet.Utils
import Scs.Library.Words

/-!
# The local view of one key (`storage_proxy/proxy_applicator.cc`)

A transaction applies its operations on one key to a `ProxyApplicator`, which
keeps the value the transaction sees and compresses the operations into a short
list of deltas. A call that throws is a fault.
-/

namespace Scs

set_option autoImplicit false

open Words

structure ProxyApplicator where
  current : Option StorageObject
  memoryWrite : Option RawMemoryStorage
  nnint64Delta : Option SetAdd
  doLimitIncrease : Bool
  hsSizeIncrease : UInt64
  newHashes : List HashSetEntry
  hsClearThreshold : Option UInt64
  delta : Option Int64
  isDeleted : Bool
  deriving DecidableEq, Repr

/-- The local merge of a set-add with what was added before. -/
def makeNnint64Delta (base oldDelta newDelta : Int64) : Except Fault (Option SetAdd) :=
  if newDelta < 0 then
    if addOverflowInt64 newDelta.toInt oldDelta.toInt then .ok none
    else
      let sum := newDelta + oldDelta
      if addOverflowInt64 base.toInt sum.toInt then
        if sum < 0 then .ok none
        else if base < 0 then
          if oldDelta < 0 then .error (.runtimeError "invalid input to make_nnint64_delta")
          else .ok none
        else .ok (some { setValue := base, delta := sum })
      else if base + sum < 0 then .ok none
      else .ok (some { setValue := base, delta := sum })
  else
    let sum :=
      if addOverflowInt64 oldDelta.toInt newDelta.toInt then Int64.maxValue
      else newDelta + oldDelta
    .ok (some { setValue := base, delta := sum })

def defaultBody : ObjectType → Except Fault ObjectBody
  | .rawMemory => .ok (.rawMemoryStorage { data := [], bounded := Nat.zero_le _ })
  | .nonnegativeInt64 => .ok (.nonnegativeInt64 0)
  | .hashSet => .ok (.hashSet { hashes := [], maxSize := startHashSetSize })
  | .knownSupplyAsset => .ok (.asset { amount := 0 })
  | .unconstrainedInt64 => .error (.runtimeError "unimplemented object type")

/-- The local value of a set-add, capped at `INT64_MAX`. -/
def currentNnint64 (setAdd : SetAdd) : Except Fault Int64 :=
  if addOverflowInt64 setAdd.setValue.toInt setAdd.delta.toInt then
    if setAdd.delta > 0 then .ok Int64.maxValue
    else .error (.runtimeError "should not have negative overflow!")
  else .ok (setAdd.setValue + setAdd.delta)

namespace ProxyApplicator

def onBase (base : Option StorageObject) : ProxyApplicator where
  current := base
  memoryWrite := none
  nnint64Delta := none
  doLimitIncrease := false
  hsSizeIncrease := 0
  newHashes := []
  hsClearThreshold := none
  delta := none
  isDeleted := false

def deltaApplyTypeGuard (d : StorageDelta) (applicator : ProxyApplicator) :
    Except Fault Bool :=
  match applicator.current with
  | none => .ok true
  | some object =>
      match d with
      | .rawMemoryWrite _ => .ok (object.body.type = .rawMemory)
      | .nonnegativeInt64SetAdd _ => .ok (object.body.type = .nonnegativeInt64)
      | .hashSetInsert _ => .ok (object.body.type = .hashSet)
      | .hashSetIncreaseLimit _ => .ok (object.body.type = .hashSet)
      | .hashSetClear _ => .ok (object.body.type = .hashSet)
      | .assetObjectAdd _ => .ok (object.body.type = .knownSupplyAsset)
      | _ => .error (.runtimeError "unknown deltatype")

/-- `make_current`: the value of `current` afterwards, which always exists. -/
def makeCurrent (objType : ObjectType) (applicator : ProxyApplicator) :
    Except Fault StorageObject := do
  let object ← match applicator.current with
    | some object => .ok object
    | none => do
        let body ← defaultBody objType
        .ok { body := body, escrowedFee := 0 }
  if object.body.type ≠ objType then .error (.runtimeError "type mismatch") else .ok object

def readHashSet (object : StorageObject) : Except Fault HashSet :=
  match object.body with
  | .hashSet set => .ok set
  | _ => .error .wrongUnion

def readAsset (object : StorageObject) : Except Fault AssetObject :=
  match object.body with
  | .asset asset => .ok asset
  | _ => .error .wrongUnion

/-! ## The branches of `try_apply` -/

def applyWrite (data : RawMemoryStorage) (applicator : ProxyApplicator) :
    Except Fault (Bool × ProxyApplicator) := do
  let object ← applicator.makeCurrent .rawMemory
  .ok (true,
    { applicator with
      memoryWrite := some data
      current := some { object with body := .rawMemoryStorage data } })

def applySetAdd (setAdd : SetAdd) (applicator : ProxyApplicator) :
    Except Fault (Bool × ProxyApplicator) := do
  let disagrees : Bool := match applicator.nnint64Delta with
    | none => false
    | some old => old.setValue ≠ setAdd.setValue
  let oldDelta := match applicator.nnint64Delta with
    | none => 0
    | some old => old.delta
  if disagrees then .ok (false, applicator)
  else
    match ← makeNnint64Delta setAdd.setValue oldDelta setAdd.delta with
    | none => .ok (false, applicator)
    | some merged => do
        let object ← applicator.makeCurrent .nonnegativeInt64
        let value ← currentNnint64 merged
        .ok (true,
          { applicator with
            nnint64Delta := some merged
            current := some { object with body := .nonnegativeInt64 value } })

def applyInsert (hash : HashSetEntry) (applicator : ProxyApplicator) :
    Except Fault (Bool × ProxyApplicator) := do
  let object ← applicator.makeCurrent .hashSet
  let set ← readHashSet object
  let made := { applicator with current := some object }
  let cleared : Bool := match applicator.hsClearThreshold with
    | some threshold => threshold ≥ hash.index
    | none => false
  if hash ∈ set.hashes then .ok (false, made)
  else if set.hashes.length ≥ set.maxSize.toNat then .ok (false, made)
  else if cleared then .ok (false, made)
  else
    let merged := normalizeHashset { set with hashes := set.hashes ++ [hash] }
    .ok (true,
      { made with
        current := some { object with body := .hashSet merged }
        newHashes := applicator.newHashes ++ [hash] })

def applyIncreaseLimit (limitIncrease : UInt32) (applicator : ProxyApplicator) :
    Except Fault (Bool × ProxyApplicator) := do
  let object ← applicator.makeCurrent .hashSet
  .ok (true,
    { applicator with
      current := some object
      hsSizeIncrease := applicator.hsSizeIncrease + limitIncrease.toUInt64
      doLimitIncrease := true })

def applyClear (threshold : UInt64) (applicator : ProxyApplicator) :
    Except Fault (Bool × ProxyApplicator) := do
  let object ← applicator.makeCurrent .hashSet
  let highest := match applicator.hsClearThreshold with
    | none => threshold
    | some earlier => max threshold earlier
  let set ← readHashSet object
  let cleared ← clearHashset set highest
  .ok (true,
    { applicator with
      current := some { object with body := .hashSet cleared }
      hsClearThreshold := some highest })

def applyAssetAdd (d : Int64) (applicator : ProxyApplicator) :
    Except Fault (Bool × ProxyApplicator) := do
  let object ← applicator.makeCurrent .knownSupplyAsset
  let asset ← readAsset object
  let made := { applicator with current := some object }
  let overflows : Bool := match applicator.delta with
    | some delta => addOverflowInt64 delta.toInt d.toInt
    | none => false
  if overflows then .ok (false, made)
  else if addOverflowUInt64 asset.amount.toNat d.toInt then .ok (false, made)
  else
    let sum := match applicator.delta with
      | some delta => delta + d
      | none => d
    .ok (true,
      { made with
        delta := some sum
        current := some
          { object with body := .asset { amount := asset.amount + d.toUInt64 } } })

/-- The switch of `try_apply` over the delta type. -/
def applyTyped (d : StorageDelta) (applicator : ProxyApplicator) :
    Except Fault (Bool × ProxyApplicator) :=
  match d with
  | .rawMemoryWrite data => applyWrite data applicator
  | .nonnegativeInt64SetAdd setAdd => applySetAdd setAdd applicator
  | .hashSetInsert hash => applyInsert hash applicator
  | .hashSetIncreaseLimit limitIncrease => applyIncreaseLimit limitIncrease applicator
  | .hashSetClear threshold => applyClear threshold applicator
  | .assetObjectAdd assetDelta => applyAssetAdd assetDelta applicator
  | _ => .error (.runtimeError "unknown deltatype")

def tryApply (d : StorageDelta) (applicator : ProxyApplicator) :
    Except Fault (Bool × ProxyApplicator) :=
  if d = .deleteLast then .ok (true, { applicator with isDeleted := true, current := none })
  else if applicator.isDeleted then .ok (false, applicator)
  else do
    let allowed ← applicator.deltaApplyTypeGuard d
    if allowed then applyTyped d applicator else .ok (false, applicator)

/-- The operations of a transaction, up to the first that is refused. -/
def applyAll : List StorageDelta → ProxyApplicator → Except Fault (Bool × ProxyApplicator)
  | [], applicator => .ok (true, applicator)
  | d :: rest, applicator => do
      let (accepted, next) ← applicator.tryApply d
      if accepted then applyAll rest next else .ok (false, next)

def get (applicator : ProxyApplicator) : Option StorageObject :=
  if applicator.isDeleted then none else applicator.current

/-- The raised limit that one transaction asks for, as a 16-bit word. -/
def limitIncrease (applicator : ProxyApplicator) : UInt16 :=
  (min applicator.hsSizeIncrease (UInt64.ofNat maxHashSetSize)).toUInt16

def getDeltas (applicator : ProxyApplicator) : List StorageDelta :=
  if !applicator.isDeleted && applicator.current.isNone then []
  else
    (applicator.memoryWrite.map makeRawMemoryWrite).toList ++
    (applicator.nnint64Delta.map fun setAdd =>
      makeNonnegativeInt64SetAdd setAdd.setValue setAdd.delta).toList ++
    (if applicator.doLimitIncrease then [makeHashSetIncreaseLimit applicator.limitIncrease]
      else []) ++
    applicator.newHashes.map makeHashSetInsert ++
    (applicator.hsClearThreshold.map makeHashSetClear).toList ++
    (applicator.delta.map makeAssetAdd).toList ++
    if applicator.isDeleted then [makeDeleteLast] else []

def getBaseNnint64SetValue (applicator : ProxyApplicator) : Option Int64 :=
  match applicator.nnint64Delta with
  | some setAdd => some setAdd.setValue
  | none =>
      match applicator.current with
      | some object =>
          match object.body with
          | .nonnegativeInt64 value => some value
          | _ => none
      | none => some 0

end ProxyApplicator

end Scs
