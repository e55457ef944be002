import Scs.StateDb.StateDB

/-!
# Databases that keep new keys in the trie
(`state_db/state_db_v2.cc`, `state_db/groundhog_persistent_state_db.cc`)

A key that gets its first delta gets an entry at once. At the end of a block the
trie drops the entries without a committed object.
-/

namespace Scs

set_option autoImplicit false

namespace StateTrie

variable (cryptoShorthash : CryptoShorthash)

def getCommittedValue (key : AddressAndKey) (trie : StateTrie) : Option StorageObject :=
  match trie key with
  | some object => object.getCommittedObject
  | none => none

/-- `insert` of an empty object, which does nothing when there is an entry. -/
def insertEntry (key : AddressAndKey) (trie : StateTrie) : StateTrie :=
  match trie key with
  | some _ => trie
  | none => Function.update trie key (some .fresh)

def tryApplyDelta (ids : CallIds) (key : AddressAndKey) (delta : StorageDelta)
    (trie : StateTrie) : Except Fault (Option DeltaRewind × StateTrie) := do
  let inserted := trie.insertEntry key
  match inserted key with
  | none => .error (.runtimeError "should be impossible")
  | some res =>
      let (answer, after) ← res.tryAddDelta cryptoShorthash ids delta
      .ok (answer, Function.update inserted key (some after))

def throughRewind (key : AddressAndKey)
    (call : RevertableObject → Except Fault RevertableObject) (trie : StateTrie) :
    Except Fault StateTrie := do
  match trie key with
  | some object =>
      let after ← call object
      .ok (Function.update trie key (some after))
  | none => .error .outOfRange

def updateKey (key : AddressAndKey) (trie : StateTrie) : Except Fault StateTrie := do
  match trie key with
  | some mainDbValue =>
      let after ← mainDbValue.commitRound
      let left := if after.getCommittedObject.isNone then none else some after
      .ok (Function.update trie key left)
  | none => .error (.runtimeError "should never happen")

def rewindKey (key : AddressAndKey) (trie : StateTrie) : Except Fault StateTrie :=
  match trie key with
  | some mainDbValue => .ok (Function.update trie key (some mainDbValue.rewindRound))
  | none => .error (.runtimeError "invalid nonsense")

/-- `hash_and_normalize` under `validate_value`. -/
def normalize (trie : StateTrie) : StateTrie := fun key =>
  (trie key).filter fun object => object.getCommittedObject.isSome

def updateKeys (keys : List AddressAndKey) (trie : StateTrie) : Except Fault StateTrie :=
  keys.foldlM (fun trie key => trie.updateKey key) trie

def rewindKeys (keys : List AddressAndKey) (trie : StateTrie) : Except Fault StateTrie :=
  keys.foldlM (fun trie key => trie.rewindKey key) trie

def commitModifications (keys : List AddressAndKey) (trie : StateTrie) :
    Except Fault StateTrie := do
  let updated ← trie.updateKeys keys
  .ok updated.normalize

def rewindModifications (keys : List AddressAndKey) (trie : StateTrie) :
    Except Fault StateTrie := do
  let rewound ← trie.rewindKeys keys
  .ok rewound.normalize

end StateTrie

structure StateDBv2 where
  stateDb : StateTrie

namespace StateDBv2

variable (cryptoShorthash : CryptoShorthash)

def ofCommitted (bases : AddressAndKey → Option StorageObject) : StateDBv2 where
  stateDb key := (bases key).map .ofCommitted

def getCommittedValue (key : AddressAndKey) (db : StateDBv2) : Option StorageObject :=
  db.stateDb.getCommittedValue key

def tryApplyDelta (ids : CallIds) (key : AddressAndKey) (delta : StorageDelta) (db : StateDBv2) :
    Except Fault (Option DeltaRewind × StateDBv2) := do
  let (answer, trie) ← db.stateDb.tryApplyDelta cryptoShorthash ids key delta
  .ok (answer, { stateDb := trie })

def throughRewind (key : AddressAndKey)
    (call : RevertableObject → Except Fault RevertableObject) (db : StateDBv2) :
    Except Fault StateDBv2 := do
  let trie ← db.stateDb.throughRewind key call
  .ok { stateDb := trie }

def commitModifications (keys : List AddressAndKey) (db : StateDBv2) : Except Fault StateDBv2 := do
  let trie ← db.stateDb.commitModifications keys
  .ok { stateDb := trie }

def rewindModifications (keys : List AddressAndKey) (db : StateDBv2) : Except Fault StateDBv2 := do
  let trie ← db.stateDb.rewindModifications keys
  .ok { stateDb := trie }

end StateDBv2

structure GroundhogPersistentStateDB where
  currentTimestamp : UInt32
  stateDb : StateTrie

namespace GroundhogPersistentStateDB

variable (cryptoShorthash : CryptoShorthash)

def getCommittedValue (key : AddressAndKey) (db : GroundhogPersistentStateDB) :
    Option StorageObject :=
  db.stateDb.getCommittedValue key

def tryApplyDelta (ids : CallIds) (key : AddressAndKey) (delta : StorageDelta)
    (db : GroundhogPersistentStateDB) :
    Except Fault (Option DeltaRewind × GroundhogPersistentStateDB) := do
  let (answer, trie) ← db.stateDb.tryApplyDelta cryptoShorthash ids key delta
  .ok (answer, { db with stateDb := trie })

def throughRewind (key : AddressAndKey)
    (call : RevertableObject → Except Fault RevertableObject) (db : GroundhogPersistentStateDB) :
    Except Fault GroundhogPersistentStateDB := do
  let trie ← db.stateDb.throughRewind key call
  .ok { db with stateDb := trie }

def commitModifications (keys : List AddressAndKey) (db : GroundhogPersistentStateDB) :
    Except Fault GroundhogPersistentStateDB := do
  let trie ← db.stateDb.commitModifications keys
  .ok { db with stateDb := trie }

def rewindModifications (keys : List AddressAndKey) (db : GroundhogPersistentStateDB) :
    Except Fault GroundhogPersistentStateDB := do
  let trie ← db.stateDb.rewindModifications keys
  .ok { db with stateDb := trie }

end GroundhogPersistentStateDB

end Scs
