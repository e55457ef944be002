import Scs.HashSet.HashIndices
import Scs.Sdk.ReplayProtection

/-!
# No hash index survives its block

The end of a block clears the tables of the logged keys. The destructors of the
failed transactions have made tombstones of the rest.
-/

namespace Scs

set_option autoImplicit false

open Ledger OpenAddressing Runs TwoPhase

theorem slots_without_entries {set : AtomicSet} (nothing : set.getHashes = []) :
    ∀ slot ∈ set.array, slot = .empty ∨ slot = .tombstone := by
  intro slot member
  cases slot with
  | empty => exact .inl rfl
  | tombstone => exact .inr rfl
  | entry h =>
      have listed : h ∈ set.getHashes := mem_entries.mpr member
      rw [nothing] at listed
      cases listed

section Block

variable {cryptoShorthash : CryptoShorthash} {library : ContractLibrary} {Tx : Type}
  {Database : Type} [DecidableEq Tx] {store : StateStore Database}
  {view : SettlingStore cryptoShorthash store} {genesis : GlobalContext Database}

/-- Between two blocks no table of a database has an entry. -/
theorem rested_without_entries {db : Database} (rested : Rested view db) (key : AddressAndKey) :
    (view.objects db key).newHashes.getHashes = [] := by
  obtain ⟨opening, base, kempt, accounts⟩ := rested.opened key
  have hashes := accounts.booked.hashes
  rw [live_none, inserts_zero] at hashes
  exact (Multiset.coe_eq_zero _).mp hashes

/-- After any chain of blocks and one more block that is committed or undone over
its logged keys, every slot is empty or a tombstone. Whatever words lie in memory
for a table, none is an index, and they stand for the same table once the
allocator has been reset. -/
def ForgetsHashes (library : ContractLibrary) (Tx : Type) [DecidableEq Tx]
    (view : SettlingStore cryptoShorthash store) (genesis : GlobalContext Database) : Prop :=
  ∀ start, Relation.ReflTransGen (EndsBlock cryptoShorthash library Tx store) genesis start →
    ∀ (programs : Tx → Program) (moves : List (BlockMove Tx)) (block : BlockExecution Tx Database),
      Run (MovesBlock cryptoShorthash library store programs) (.start start) moves block →
      block.Quiescent →
      ∀ (newKey : HashKey) (keys : List AddressAndKey) (after : Database),
        keys.Perm block.modifiedKeys →
        (store.commitModifications newKey keys block.globalContext.stateDb = .ok after ∨
          store.rewindModifications newKey keys block.globalContext.stateDb = .ok after) →
        ∀ key : AddressAndKey,
          (∀ slot ∈ (view.objects after key).newHashes.array, slot = .empty ∨ slot = .tombstone) ∧
          ∀ (allocator : BlockAllocator HashSetEntry) (indices : IndexSet),
            Resolves allocator indices (view.objects after key).newHashes →
            (∀ idx ∈ indices.array, idx = 0 ∨ idx = tombstone) ∧
              Resolves allocator.reset indices (view.objects after key).newHashes

theorem forgets_hashes (rested : Rested view genesis.stateDb) :
    ForgetsHashes library Tx view genesis := by
  intro start earlier programs moves block run quiescent newKey keys after logged ended key
  have started := chain_rested rested earlier
  have restedAfter : Rested view after := by
    rcases ended with committed | undone
    · exact commit_rested started run quiescent logged committed
    · exact (rewind_rested started run quiescent logged undone).1
  have clean := slots_without_entries (rested_without_entries restedAfter key)
  refine ⟨clean, fun allocator indices resolves => ?_⟩
  obtain ⟨words, anywhere⟩ := resolves_without_entries resolves clean
  exact ⟨words, anywhere allocator.reset⟩

end Block

/-- In every database that starts empty, no index survives its block. Whatever its
transactions have inserted, committed or erased, after the end of the block every slot of
every table is empty or a tombstone, so that a reset allocator disturbs none. -/
theorem no_stale_hash (cryptoShorthash : CryptoShorthash) (keyedShorthash : KeyedShorthash)
    (library : ContractLibrary) (Tx : Type) [DecidableEq Tx] (newKey : HashKey)
    (contractDb : ContractDB) (currentTimestamp : UInt32) :
    ForgetsHashes library Tx (StateDB.settlingStore cryptoShorthash keyedShorthash)
        { stateDb := .ofCommitted newKey fun _ => none, contractDb := contractDb } ∧
      ForgetsHashes library Tx (StateDBv2.trieStore cryptoShorthash).settlingStore
        { stateDb := { stateDb := fun _ => none }, contractDb := contractDb } ∧
      ForgetsHashes library Tx (GroundhogPersistentStateDB.trieStore cryptoShorthash).settlingStore
        { stateDb := { currentTimestamp := currentTimestamp, stateDb := fun _ => none }
          contractDb := contractDb } := by
  refine ⟨?_, ?_, ?_⟩
  · apply forgets_hashes
    apply rested_empty (cache_apart_empty newKey rfl)
    intro key
    rfl
  · apply forgets_hashes
    apply rested_empty trivial
    intro key
    rfl
  · apply forgets_hashes
    apply rested_empty trivial
    intro key
    rfl

def insertHash : Bool → Program := fun tx results =>
  if results.isEmpty then .call (.hashsetInsert 7 (if tx then 1 else 2) 0) else .returns

/-- One insertion is committed and the other one erased, and the end of the block leaves
neither in its slot. -/
theorem no_stale_hash_inserted : ∃ block after,
    BlockExecution.finishAll (fun _ => 0) noContracts (StateDBv2.store fun _ => 0) insertHash 0
      firstThread 1 [.call false, .call false, .call true, .call true, .push false .first,
        .push true .first, .pass false, .commit 1, .giveUp true, .destroy 0 CallIds.first.undo]
      { stateDb := { stateDb := fun _ => none }, contractDb := .empty } = some (block, after) ∧
    ((StateDBv2.trieStore fun _ => 0).settlingStore.objects block.globalContext.stateDb
      7).newHashes.getHashes = [{ hash := 2, index := 0 }] ∧
    ∀ key, ∀ slot ∈ ((StateDBv2.trieStore fun _ => 0).settlingStore.objects after.stateDb
      key).newHashes.array, slot = .empty ∨ slot = .tombstone := by
  have ended : (BlockExecution.finishAll (fun _ => 0) noContracts (StateDBv2.store fun _ => 0)
      insertHash 0 firstThread 1 [.call false, .call false, .call true, .call true,
        .push false .first, .push true .first, .pass false, .commit 1, .giveUp true,
        .destroy 0 CallIds.first.undo]
      { stateDb := { stateDb := fun _ => none }, contractDb := .empty }).map (fun ended =>
        ((StateDBv2.trieStore fun _ => 0).settlingStore.objects
          ended.1.globalContext.stateDb 7).newHashes.getHashes) =
            some [{ hash := 2, index := 0 }] := by
    decide +kernel
  obtain ⟨⟨block, after⟩, finished, hashes⟩ := Option.map_eq_some_iff.mp ended
  obtain ⟨run, quiescent, _, committed⟩ := finish_all_ends finished
  have forgets := (no_stale_hash (fun _ => 0) (fun _ _ => 0) noContracts Bool 0 .empty 0).2.1 _
    .refl insertHash _ block run quiescent 0 _ after.stateDb (List.Perm.refl _) (.inl committed)
  exact ⟨block, after, finished, hashes, fun key => (forgets key).1⟩

end Scs
