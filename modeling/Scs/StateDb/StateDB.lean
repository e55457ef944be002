import Scs.Object.RevertableObject
import Mathlib.Logic.Function.Basic

/-!
# The state database (`state_db/state_db.cc`, `state_db/new_key_cache.cc`)

A trie is the map it stands for. Keys that have no committed object live in the
new-key cache until the end of the block.
-/

namespace Scs

set_option autoImplicit false

abbrev StateTrie := AddressAndKey → Option RevertableObject

/-! ## The new-key cache -/

abbrev HashKey := BitVec 128

abbrev KeyedShorthash := HashKey → AddressAndKey → UInt64

structure NewKeyCache where
  lines : UInt16 → StateTrie
  hashKey : HashKey
  inTryReserveMode : Bool

namespace NewKeyCache

def cacheLines : UInt64 := 73

def getCacheLine (keyedShorthash : KeyedShorthash) (key : AddressAndKey) (hashKey : HashKey) :
    UInt16 :=
  (((keyedShorthash hashKey key &&& 0xFFFFFFFF) * cacheLines) >>> 32).toUInt16

variable (keyedShorthash : KeyedShorthash)

def find (key : AddressAndKey) (cache : NewKeyCache) : Option RevertableObject :=
  cache.lines (getCacheLine keyedShorthash key cache.hashKey) key

def place (key : AddressAndKey) (object : RevertableObject) (cache : NewKeyCache) : NewKeyCache :=
  let line := getCacheLine keyedShorthash key cache.hashKey
  { cache with
    lines := Function.update cache.lines line
      (Function.update (cache.lines line) key (some object)) }

def tryReserveDelta (cryptoShorthash : CryptoShorthash) (ids : CallIds) (key : AddressAndKey)
    (delta : StorageDelta) (cache : NewKeyCache) :
    Except Fault (Option DeltaRewind × NewKeyCache) :=
  if cache.inTryReserveMode then do
    let object := (cache.find keyedShorthash key).getD .fresh
    let (answer, after) ← object.tryAddDelta cryptoShorthash ids delta
    .ok (answer, cache.place keyedShorthash key after)
  else .error (.runtimeError "bad access on new key cache (try reserve mode)")

def finalizeModifications (cache : NewKeyCache) : NewKeyCache :=
  { cache with inTryReserveMode := false }

def commitAndGet (key : AddressAndKey) (cache : NewKeyCache) :
    Except Fault (Option StorageObject × NewKeyCache) :=
  if cache.inTryReserveMode then
    .error (.runtimeError "bad access on new key cache (get mode)")
  else
    match cache.find keyedShorthash key with
    | none => .ok (none, cache)
    | some object => do
        let after ← object.commitRound
        .ok (after.getCommittedObject, cache.place keyedShorthash key after)

def empty (hashKey : HashKey) : NewKeyCache where
  lines _ _ := none
  hashKey := hashKey
  inTryReserveMode := true

/-- `update_key_for_round` draws `newKey`. -/
def clearForNextBlock (newKey : HashKey) (_ : NewKeyCache) : NewKeyCache := empty newKey

variable {keyedShorthash}

@[simp] theorem find_empty (hashKey : HashKey) (key : AddressAndKey) :
    (empty hashKey).find keyedShorthash key = none := rfl

@[simp] theorem find_finalize (cache : NewKeyCache) (key : AddressAndKey) :
    cache.finalizeModifications.find keyedShorthash key = cache.find keyedShorthash key := rfl

@[simp] theorem place_mode (key : AddressAndKey) (object : RevertableObject)
    (cache : NewKeyCache) :
    (cache.place keyedShorthash key object).inTryReserveMode = cache.inTryReserveMode := rfl

@[simp] theorem find_place_self (key : AddressAndKey) (object : RevertableObject)
    (cache : NewKeyCache) :
    (cache.place keyedShorthash key object).find keyedShorthash key = some object := by
  simp [find, place]

theorem find_place_other {key other : AddressAndKey} (different : other ≠ key)
    (object : RevertableObject) (cache : NewKeyCache) :
    (cache.place keyedShorthash key object).find keyedShorthash other =
      cache.find keyedShorthash other := by
  unfold find place
  by_cases line : getCacheLine keyedShorthash other cache.hashKey =
      getCacheLine keyedShorthash key cache.hashKey
  · simp [line, different]
  · simp [Function.update_of_ne line]

end NewKeyCache

/-! ## The database -/

structure StateDB where
  stateDb : StateTrie
  newKeyCache : NewKeyCache
  hasUncommittedDeltas : Bool

namespace StateDB

def ofCommitted (hashKey : HashKey) (bases : AddressAndKey → Option StorageObject) : StateDB where
  stateDb key := (bases key).map .ofCommitted
  newKeyCache := .empty hashKey
  hasUncommittedDeltas := false

def getCommittedValue (key : AddressAndKey) (db : StateDB) : Option StorageObject :=
  match db.stateDb key with
  | some object => object.getCommittedObject
  | none => none

variable (cryptoShorthash : CryptoShorthash) (keyedShorthash : KeyedShorthash)

def tryApplyDelta (ids : CallIds) (key : AddressAndKey) (delta : StorageDelta) (db : StateDB) :
    Except Fault (Option DeltaRewind × StateDB) := do
  match db.stateDb key with
  | none =>
      let (answer, cache) ← db.newKeyCache.tryReserveDelta keyedShorthash cryptoShorthash ids key
        delta
      .ok (answer, { db with newKeyCache := cache, hasUncommittedDeltas := true })
  | some object =>
      let (answer, after) ← object.tryAddDelta cryptoShorthash ids delta
      .ok (answer,
        { db with
          stateDb := Function.update db.stateDb key (some after)
          hasUncommittedDeltas := true })

/-- A call of a rewind, which holds the address of its object. No rewind outlives
its object. -/
def throughRewind (key : AddressAndKey)
    (call : RevertableObject → Except Fault RevertableObject) (db : StateDB) :
    Except Fault StateDB := do
  match db.stateDb key with
  | some object =>
      let after ← call object
      .ok { db with stateDb := Function.update db.stateDb key (some after) }
  | none =>
      match db.newKeyCache.find keyedShorthash key with
      | some object =>
          let after ← call object
          .ok { db with newKeyCache := db.newKeyCache.place keyedShorthash key after }
      | none => .error .outOfRange

def updateKey (key : AddressAndKey) (db : StateDB) : Except Fault StateDB := do
  match db.stateDb key with
  | some mainDbValue =>
      let after ← mainDbValue.commitRound
      let left := if after.getCommittedObject.isNone then none else some after
      .ok { db with stateDb := Function.update db.stateDb key left }
  | none =>
      let (newObj, cache) ← db.newKeyCache.commitAndGet keyedShorthash key
      .ok
        { db with
          stateDb := Function.update db.stateDb key (newObj.map .ofCommitted)
          newKeyCache := cache }

def updateKeys (keys : List AddressAndKey) (db : StateDB) : Except Fault StateDB :=
  keys.foldlM (fun db key => db.updateKey keyedShorthash key) db

def commitModifications (newKey : HashKey) (keys : List AddressAndKey) (db : StateDB) :
    Except Fault StateDB := do
  let finalized := { db with newKeyCache := db.newKeyCache.finalizeModifications }
  let updated ← finalized.updateKeys keyedShorthash keys
  .ok
    { updated with
      newKeyCache := updated.newKeyCache.clearForNextBlock newKey
      hasUncommittedDeltas := false }

def rewindKey (key : AddressAndKey) (db : StateDB) : StateDB :=
  match db.stateDb key with
  | some mainDbValue =>
      { db with stateDb := Function.update db.stateDb key (some mainDbValue.rewindRound) }
  | none => db

def rewindModifications (newKey : HashKey) (keys : List AddressAndKey) (db : StateDB) :
    StateDB :=
  let cleared := { db with newKeyCache := db.newKeyCache.clearForNextBlock newKey }
  let rewound := keys.foldl (fun db key => db.rewindKey key) cleared
  { rewound with hasUncommittedDeltas := false }

end StateDB

end Scs
