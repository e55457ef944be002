import Scs.Sdk.CountedBlock

/-!
# Semaphores (`cpp_contracts/sdk/semaphore.h`)

A semaphore lets through at most its count of acquisitions in each block. A
`Semaphore` leaves the rest of the count on its key, and a `TransientSemaphore`
leaves nothing.
-/

namespace Scs

set_option autoImplicit false

open Ledger Lockstep Runs TwoPhase

inductive SemaphoreClass where
  | semaphore
  | transientSemaphore

/-- The `uint32_t` of the template as the `int64_t` of the call. -/
def semaphoreCount (count : UInt32) : Int64 := count.toUInt64.toInt64

theorem semaphore_count_eq (count : UInt32) : (semaphoreCount count).toInt = count.toNat := by
  have bounded := count.toNat_lt
  rw [semaphoreCount, Words.to_int64_eq, UInt32.toNat_toUInt64]
  exact Int64.toInt_ofInt_of_le (by omega) (by omega)

def Semaphore.acquire (key : AddressAndKey) (count : UInt32) : ProxyCall :=
  takeOne key (semaphoreCount count)

def TransientSemaphore.acquire (key : AddressAndKey) (count : UInt32) : ProxyCall :=
  takeOne key (semaphoreCount count)

def TransientSemaphore.destroy (key : AddressAndKey) : ProxyCall := .deleteObjectLast key

inductive SemaphoreCall (key : AddressAndKey) (count : UInt32) :
    SemaphoreClass → ProxyCall → Prop
  | acquire : SemaphoreCall key count .semaphore (Semaphore.acquire key count)
  | acquireTransient :
      SemaphoreCall key count .transientSemaphore (TransientSemaphore.acquire key count)
  | destroy : SemaphoreCall key count .transientSemaphore (TransientSemaphore.destroy key)

/-- Passed transactions touch the key through the semaphore only, and whoever has
acquired a transient one has destroyed it. -/
structure UsesSemaphore {Tx Database : Type} (kind : SemaphoreClass) (key : AddressAndKey)
    (count : UInt32) (programs : Tx → Program) (block : BlockExecution Tx Database) : Prop where
  calls : ∀ tx ∈ block.books.order, (programs tx).CallsOn key (SemaphoreCall key count kind)
    (block.contexts tx).results
  destroyed : kind = .transientSemaphore → ∀ tx ∈ block.books.order,
    0 < (programs tx).acquisitions key (semaphoreCount count) (block.contexts tx).results →
    TransientSemaphore.destroy key ∈ (programs tx).made (block.contexts tx).results

def SemaphoreClass.Leaves (count : UInt32) (acquired : ℕ) (value : Option StorageObject) :
    SemaphoreClass → Prop
  | .semaphore => ∃ rest : Int64, value.map StorageObject.body = some (.nonnegativeInt64 rest) ∧
      rest.toInt = count.toNat - acquired
  | .transientSemaphore => value = none

section Block

variable {cryptoShorthash : CryptoShorthash} {library : ContractLibrary} {Tx Database : Type}
  [DecidableEq Tx] {store : StateStore Database} {view : SettlingStore cryptoShorthash store}
  {programs : Tx → Program} {before : GlobalContext Database} {moves : List (BlockMove Tx)}
  {block : BlockExecution Tx Database} {kind : SemaphoreClass} {key : AddressAndKey}
  {count : UInt32}

theorem semaphore_call_counted {call : ProxyCall} (uses : SemaphoreCall key count kind call) :
    CountedCall key (semaphoreCount count) call := by
  cases uses with
  | acquire => exact .takes
  | acquireTransient => exact .takes
  | destroy => exact .deletes

theorem semaphore_calls_counted {program : Program} {results : List CallResult}
    (calls : program.CallsOn key (SemaphoreCall key count kind) results) :
    program.CallsOn key (CountedCall key (semaphoreCount count)) results :=
  fun earlier before next called own =>
    semaphore_call_counted (calls earlier before next called own)

omit [DecidableEq Tx] in
theorem semaphore_counts (uses : UsesSemaphore kind key count programs block) :
    CountsDown key (semaphoreCount count) programs block :=
  fun tx listed => semaphore_calls_counted (uses.calls tx listed)

theorem acquired_le (rested : Rested view before.stateDb) (steady : SteadyStore store)
    (run : Run (MovesBlock cryptoShorthash library store programs) (.start before) moves block)
    (uses : UsesSemaphore kind key count programs block) :
    block.acquired key (semaphoreCount count) programs ≤ count.toNat := by
  have covered := acquired_covered rested steady run (semaphore_counts uses)
  rw [semaphore_count_eq] at covered
  omega

theorem transient_deleted (steady : SteadyStore store)
    (run : Run (MovesBlock cryptoShorthash library store programs) (.start before) moves block)
    (uses : UsesSemaphore .transientSemaphore key count programs block)
    (acquires : 0 < block.acquired key (semaphoreCount count) programs) :
    StorageDelta.deleteLast ∈ deltasOn key (promised block.pushes block.books.order) := by
  obtain ⟨amount, member, positive⟩ := List.sum_pos_iff_exists_pos_nat.mp acquires
  obtain ⟨tx, listed, rfl⟩ := List.mem_map.mp member
  rw [promised_deleted steady run (semaphore_counts uses)]
  exact ⟨tx, listed, uses.destroyed rfl tx listed positive⟩

theorem semaphore_kept (steady : SteadyStore store)
    (run : Run (MovesBlock cryptoShorthash library store programs) (.start before) moves block)
    (uses : UsesSemaphore .semaphore key count programs block) :
    StorageDelta.deleteLast ∉ deltasOn key (promised block.pushes block.books.order) := by
  rw [promised_deleted steady run (semaphore_counts uses)]
  rintro ⟨tx, listed, called⟩
  cases Program.made_permitted (uses.calls tx listed) called rfl

theorem semaphore_leaves (rested : Rested view before.stateDb) (steady : SteadyStore store)
    (run : Run (MovesBlock cryptoShorthash library store programs) (.start before) moves block)
    (quiescent : block.Quiescent) (uses : UsesSemaphore kind key count programs block)
    (acquires : 0 < block.acquired key (semaphoreCount count) programs) {newKey : HashKey}
    {keys : List AddressAndKey} {after : Database} (logged : keys.Perm block.modifiedKeys)
    (returned : store.commitModifications newKey keys block.globalContext.stateDb = .ok after) :
    kind.Leaves count (block.acquired key (semaphoreCount count) programs)
      (store.getCommittedValue key after) := by
  cases kind with
  | semaphore =>
      obtain ⟨rest, value, left⟩ := finished_remaining rested steady run quiescent
        (semaphore_counts uses) acquires (semaphore_kept steady run uses) logged returned
      rw [semaphore_count_eq] at left
      refine ⟨rest, ?_, left⟩
      rw [value]
      rfl
  | transientSemaphore =>
      exact finished_deleted rested run quiescent (transient_deleted steady run uses acquires)
        logged returned

end Block

end Scs
