import Scs.StateDb.StateDBv2
import Scs.StateDb.World

/-!
# What a block calls on a state database

The databases share one interface. A round is a database with the rewinds that
are open on it and the keys on which a delta was committed; it ends with a
commit or a rewind over exactly these keys.
-/

namespace Scs

set_option autoImplicit false

structure StateStore (Database : Type) where
  getCommittedValue : AddressAndKey → Database → Option StorageObject
  tryApplyDelta : CallIds → AddressAndKey → StorageDelta → Database →
    Except Fault (Option DeltaRewind × Database)
  throughRewind : AddressAndKey → (RevertableObject → Except Fault RevertableObject) → Database →
    Except Fault Database
  commitModifications : HashKey → List AddressAndKey → Database → Except Fault Database
  rewindModifications : HashKey → List AddressAndKey → Database → Except Fault Database

/-- Whether the call reaches `try_insert` of its object, and so takes an index. -/
def StateStore.takesIndex {Database : Type} (store : StateStore Database) (ids : CallIds)
    (key : AddressAndKey) (delta : StorageDelta) (db : Database) : Bool :=
  exhausts (store.tryApplyDelta (ids.holding allocSize) key delta db)

def StateDB.store (cryptoShorthash : CryptoShorthash) (keyedShorthash : KeyedShorthash) :
    StateStore StateDB where
  getCommittedValue key db := db.getCommittedValue key
  tryApplyDelta ids key delta db := db.tryApplyDelta cryptoShorthash keyedShorthash ids key delta
  throughRewind key call db := db.throughRewind keyedShorthash key call
  commitModifications newKey keys db := db.commitModifications keyedShorthash newKey keys
  rewindModifications newKey keys db := .ok (db.rewindModifications newKey keys)

def StateDBv2.store (cryptoShorthash : CryptoShorthash) : StateStore StateDBv2 where
  getCommittedValue key db := db.getCommittedValue key
  tryApplyDelta ids key delta db := db.tryApplyDelta cryptoShorthash ids key delta
  throughRewind key call db := db.throughRewind key call
  commitModifications _ keys db := db.commitModifications keys
  rewindModifications _ keys db := db.rewindModifications keys

def GroundhogPersistentStateDB.store (cryptoShorthash : CryptoShorthash) :
    StateStore GroundhogPersistentStateDB where
  getCommittedValue key db := db.getCommittedValue key
  tryApplyDelta ids key delta db := db.tryApplyDelta cryptoShorthash ids key delta
  throughRewind key call db := db.throughRewind key call
  commitModifications _ keys db := db.commitModifications keys
  rewindModifications _ keys db := db.rewindModifications keys

/-! ## Rounds on a database -/

structure StoreRound (Database : Type) where
  database : Database
  held : Rewinds
  modified : List AddressAndKey

inductive StoreOperation where
  | tryApplyDelta (ids : CallIds) (key : AddressAndKey) (delta : StorageDelta)
  | commit (position : Nat)
  | revert (position : Nat) (newId : UniqueId)
  | commitModifications (newKey : HashKey) (keys : List AddressAndKey)
  | rewindModifications (newKey : HashKey) (keys : List AddressAndKey)

inductive StoreObservation where
  | answered (accepted : Bool)
  | done
  | boundary (committed : AddressAndKey → Option StorageObject)
  | unavailable
  | faulted (fault : Fault)

namespace StoreRound

variable {Database : Type}

def start (database : Database) : StoreRound Database where
  database := database
  held := []
  modified := []

def Ready (keys : List AddressAndKey) (round : StoreRound Database) : Prop :=
  round.held = [] ∧ keys.Perm round.modified

instance (keys : List AddressAndKey) (round : StoreRound Database) :
    Decidable (round.Ready keys) :=
  inferInstanceAs (Decidable (_ ∧ _))

variable (store : StateStore Database)

def throughHeld (position : Nat) (modifies : Bool)
    (call : DeltaRewind → RevertableObject → Except Fault RevertableObject)
    (round : StoreRound Database) : StoreObservation × Option (StoreRound Database) :=
  match round.held[position]? with
  | none => (.unavailable, some round)
  | some (key, rewind) =>
      match store.throughRewind key (call rewind) round.database with
      | .ok after =>
          (.done,
            some
              { database := after
                held := round.held.eraseIdx position
                modified := if modifies then round.modified.insert key else round.modified })
      | .error fault => (.faulted fault, none)

def finish (keys : List AddressAndKey) (ended : Except Fault Database)
    (round : StoreRound Database) : StoreObservation × Option (StoreRound Database) :=
  if round.Ready keys then
    match ended with
    | .ok after =>
        (.boundary fun key => store.getCommittedValue key after, some (start after))
    | .error fault => (.faulted fault, none)
  else (.unavailable, some round)

def perform (cryptoShorthash : CryptoShorthash) (round : StoreRound Database) :
    StoreOperation → StoreObservation × Option (StoreRound Database)
  | .tryApplyDelta ids key delta =>
      match store.tryApplyDelta ids key delta round.database with
      | .ok (some rewind, after) =>
          (.answered true,
            some { round with database := after, held := (key, rewind) :: round.held })
      | .ok (none, after) => (.answered false, some { round with database := after })
      | .error fault => (.faulted fault, none)
  | .commit position => round.throughHeld store position true DeltaRewind.commit
  | .revert position newId =>
      round.throughHeld store position false fun rewind => rewind.destroy cryptoShorthash newId
  | .commitModifications newKey keys =>
      round.finish store keys (store.commitModifications newKey keys round.database)
  | .rewindModifications newKey keys =>
      round.finish store keys (store.rewindModifications newKey keys round.database)

end StoreRound

end Scs
