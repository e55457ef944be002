import Scs.StateDb.RespondingStore
import Scs.StateDb.SteadyStore
import Scs.StateDb.TypedModificationIndex

/-!
# The Sisyphus state database (`state_db/sisyphus_state_db.cc`)

It keeps new keys in the trie. Its blocks end over the typed modification index, whose
keys start with the storage keys that were modified.
-/

namespace Scs

set_option autoImplicit false

open Lockstep

/-- What `parallel_batch_value_modify_const` visits in the keys of an index: each storage
key that a modification names, and each once, in any order. -/
structure TypedModificationIndex.Visits (index : TypedModificationIndex)
    (keys : List AddressAndKey) : Prop where
  once : keys.Nodup
  listed : ∀ key, key ∈ keys ↔
    ∃ modification ∈ saveModifications index, modification.addr = key

structure SisyphusStateDB where
  currentTimestamp : UInt32
  stateDb : StateTrie

namespace SisyphusStateDB

variable (cryptoShorthash : CryptoShorthash)

def getCommittedValue (key : AddressAndKey) (db : SisyphusStateDB) : Option StorageObject :=
  db.stateDb.getCommittedValue key

def tryApplyDelta (ids : CallIds) (key : AddressAndKey) (delta : StorageDelta)
    (db : SisyphusStateDB) : Except Fault (Option DeltaRewind × SisyphusStateDB) := do
  let (answer, trie) ← db.stateDb.tryApplyDelta cryptoShorthash ids key delta
  .ok (answer, { db with stateDb := trie })

def throughRewind (key : AddressAndKey)
    (call : RevertableObject → Except Fault RevertableObject) (db : SisyphusStateDB) :
    Except Fault SisyphusStateDB := do
  let trie ← db.stateDb.throughRewind key call
  .ok { db with stateDb := trie }

/-- `SisyphusUpdateFn` on the visited keys, and `hash_and_normalize`. -/
def commitModifications (keys : List AddressAndKey) (db : SisyphusStateDB) :
    Except Fault SisyphusStateDB := do
  let trie ← db.stateDb.commitModifications keys
  .ok { db with stateDb := trie }

/-- `SisyphusRewindFn` on the visited keys, and `hash_and_normalize`. -/
def rewindModifications (keys : List AddressAndKey) (db : SisyphusStateDB) :
    Except Fault SisyphusStateDB := do
  let trie ← db.stateDb.rewindModifications keys
  .ok { db with stateDb := trie }

def setTimestamp (timestamp : UInt32) (db : SisyphusStateDB) : SisyphusStateDB :=
  { db with currentTimestamp := timestamp }

def store : StateStore SisyphusStateDB where
  getCommittedValue key db := db.getCommittedValue key
  tryApplyDelta ids key delta db := db.tryApplyDelta cryptoShorthash ids key delta
  throughRewind key call db := db.throughRewind key call
  commitModifications _ keys db := db.commitModifications keys
  rewindModifications _ keys db := db.rewindModifications keys

def trieStore : TrieStore cryptoShorthash (store cryptoShorthash) where
  trie db := db.stateDb
  value _ _ := rfl
  push := by
    intro ids key delta db after answer applied
    obtain ⟨outcome, returned, same⟩ := bind_ok_iff.mp applied
    cases same
    exact returned
  through := by
    intro key call db after through
    obtain ⟨trie, returned, same⟩ := bind_ok_iff.mp through
    cases same
    exact returned
  commit newKey keys db := by
    simp only [store, commitModifications]
    cases db.stateDb.commitModifications keys <;> rfl
  rewind newKey keys db := by
    simp only [store, rewindModifications]
    cases db.stateDb.rewindModifications keys <;> rfl

end SisyphusStateDB

theorem TypedModificationIndex.exists_visits (index : TypedModificationIndex) :
    ∃ keys, index.Visits keys := by
  refine ⟨((saveModifications index).map IndexedModification.addr).dedup, List.nodup_dedup _, ?_⟩
  intro key
  rw [List.mem_dedup, List.mem_map]

end Scs
