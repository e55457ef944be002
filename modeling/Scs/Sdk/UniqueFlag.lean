import Scs.Sdk.ReplayProtection
import Scs.Sdk.Semaphore

/-!
# Unique flags (`cpp_contracts/sdk/flag.h`)

The first acquisition of a flag opens its count and later ones should take from
what is left. `int64_set_add` sets the value again instead, so a flag whose key
is there starts every block with its whole count.
-/

namespace Scs

set_option autoImplicit false

open Ledger Lockstep Runs TwoPhase

def UniqueFlag.acquire (key : AddressAndKey) (count : UInt32) (rest : Program) : Program
  | [] => .call (.get key)
  | [.value none] => .call (.nonnegativeInt64SetAdd key (semaphoreCount count) 0)
  | [.value none, _] => .call (takeOne key (semaphoreCount count))
  | .value none :: _ :: _ :: results => rest results
  | [_] => .call (takeOne key (semaphoreCount count))
  | _ :: _ :: results => rest results

inductive FlagCall (key : AddressAndKey) (count : UInt32) : ProxyCall → Prop
  | hasKey : FlagCall key count (.get key)
  | opens : FlagCall key count (.nonnegativeInt64SetAdd key (semaphoreCount count) 0)
  | takes : FlagCall key count (takeOne key (semaphoreCount count))

/-- Passed transactions touch the key through the flag only. -/
def UsesFlag {Tx Database : Type} (key : AddressAndKey) (count : UInt32) (programs : Tx → Program)
    (block : BlockExecution Tx Database) : Prop :=
  ∀ tx ∈ block.books.order,
    (programs tx).CallsOn key (FlagCall key count) (block.contexts tx).results

section Programs

variable {key : AddressAndKey} {count : UInt32} {rest : Program}

theorem flag_call_counted {call : ProxyCall} (uses : FlagCall key count call) :
    CountedCall key (semaphoreCount count) call := by
  cases uses with
  | hasKey => exact .reads
  | opens => exact .opens
  | takes => exact .takes

theorem acquire_uses_flag
    (uses : ∀ results, rest.CallsOn key (FlagCall key count) results) (results : List CallResult) :
    (UniqueFlag.acquire key count rest).CallsOn key (FlagCall key count) results := by
  intro earlier _ next called own
  unfold UniqueFlag.acquire at called
  split at called
  · cases called
    exact .hasKey
  · cases called
    exact .opens
  · cases called
    exact .takes
  · exact uses _ _ (List.prefix_refl _) next called own
  · cases called
    exact .takes
  · exact uses _ _ (List.prefix_refl _) next called own

end Programs

section Block

variable {cryptoShorthash : CryptoShorthash} {library : ContractLibrary} {Tx Database : Type}
  [DecidableEq Tx] {store : StateStore Database} {key : AddressAndKey} {count : UInt32}

/-- The block uses the flag, and nobody acquires it in a block that starts with
the key present. -/
structure OpensFlag (cryptoShorthash : CryptoShorthash) (library : ContractLibrary) (Tx : Type)
    {Database : Type} [DecidableEq Tx] (store : StateStore Database) (key : AddressAndKey)
    (count : UInt32) (before : GlobalContext Database)
    (block : ClosedBlock cryptoShorthash library Tx store before) : Prop where
  uses : UsesFlag key count block.programs block.last
  absent : store.getCommittedValue key before.stateDb ≠ none →
    ∀ tx ∈ block.last.books.order, (block.programs tx).acquisitions key (semaphoreCount count)
      (block.last.contexts tx).results = 0

omit [DecidableEq Tx] in
theorem flag_counts {programs : Tx → Program} {block : BlockExecution Tx Database}
    (uses : UsesFlag key count programs block) :
    CountsDown key (semaphoreCount count) programs block :=
  fun tx listed earlier before next called own =>
    flag_call_counted (uses tx listed earlier before next called own)

theorem flag_kept {programs : Tx → Program} {before : GlobalContext Database}
    {moves : List (BlockMove Tx)} {block : BlockExecution Tx Database}
    (steady : SteadyStore store)
    (run : Run (MovesBlock cryptoShorthash library store programs) (.start before) moves block)
    (uses : UsesFlag key count programs block) :
    StorageDelta.deleteLast ∉ deltasOn key (promised block.pushes block.books.order) := by
  rw [promised_deleted steady run (flag_counts uses)]
  rintro ⟨tx, listed, called⟩
  cases Program.made_permitted (uses tx listed) called rfl

/-- A flag has been acquired no more often than its count, and once it has been
acquired its key is there. -/
structure FlagKept (count : UInt32) (taken : ℕ) (value : Option StorageObject) : Prop where
  bounded : taken ≤ count.toNat
  present : 0 < taken → value ≠ none

theorem flag_finished {view : SettlingStore cryptoShorthash store} {taken : ℕ}
    {before : GlobalContext Database}
    {block : ClosedBlock cryptoShorthash library Tx store before} {newKey : HashKey}
    {keys : List AddressAndKey} {after : Database} (steady : SteadyStore store)
    (rested : Rested view before.stateDb)
    (opens : OpensFlag cryptoShorthash library Tx store key count before block)
    (logged : keys.Perm block.last.modifiedKeys)
    (returned : store.commitModifications newKey keys block.last.globalContext.stateDb = .ok after)
    (kept : FlagKept count taken (store.getCommittedValue key before.stateDb)) :
    FlagKept count (taken + block.last.acquired key (semaphoreCount count) block.programs)
      (store.getCommittedValue key after) := by
  have counts := flag_counts opens.uses
  rcases Nat.eq_zero_or_pos (block.last.acquired key (semaphoreCount count) block.programs) with
    idle | acquires
  · rw [idle, add_zero]
    exact ⟨kept.bounded, fun some => finished_present rested block.run block.quiescent
      (flag_kept steady block.run opens.uses) (kept.present some) logged returned⟩
  · obtain ⟨rest, value, _⟩ := finished_remaining rested steady block.run block.quiescent counts
      acquires (flag_kept steady block.run opens.uses) logged returned
    have first : taken = 0 := by
      by_contra again
      have nobody := opens.absent (kept.present (Nat.pos_of_ne_zero again))
      rw [BlockExecution.acquired, List.map_congr_left nobody, List.map_const',
        List.sum_replicate_nat, mul_zero] at acquires
      exact Nat.lt_irrefl 0 acquires
    have covered := acquired_covered rested steady block.run counts
    rw [semaphore_count_eq] at covered
    refine ⟨by omega, fun _ => ?_⟩
    rw [value]
    exact Option.some_ne_none _

/-- After any chain of blocks, a flag that nobody acquires in a block that starts
with its key is acquired no more often than its count over all further blocks. -/
def FlagBounds (cryptoShorthash : CryptoShorthash) (library : ContractLibrary) (Tx : Type)
    {Database : Type} [DecidableEq Tx] (store : StateStore Database)
    (genesis : GlobalContext Database) : Prop :=
  ∀ start, Relation.ReflTransGen (EndsBlock cryptoShorthash library Tx store) genesis start →
    ∀ (key : AddressAndKey) (count : UInt32) (taken : ℕ) (last : GlobalContext Database),
      CountedChain cryptoShorthash library Tx store key (semaphoreCount count)
        (OpensFlag cryptoShorthash library Tx store key count) start taken last →
      taken ≤ count.toNat

theorem flag_bounds {genesis : GlobalContext Database} (view : SettlingStore cryptoShorthash store)
    (steady : SteadyStore store) (rested : Rested view genesis.stateDb) :
    FlagBounds cryptoShorthash library Tx store genesis := by
  intro start earlier key count taken last chain
  have preserved := chain_preserves (FlagKept count) (chain_rested rested earlier)
    ⟨Nat.zero_le _, fun impossible => absurd impossible (Nat.lt_irrefl 0)⟩
    (fun _ _ _ _ _ _ rested opens logged returned kept =>
      flag_finished steady rested opens logged returned kept) chain
  exact preserved.2.bounded

end Block

/-- In every database that starts empty, a flag that nobody acquires again in a
later block keeps to its count. -/
theorem flag_bounds_acquisitions (cryptoShorthash : CryptoShorthash)
    (keyedShorthash : KeyedShorthash) (library : ContractLibrary) (Tx : Type) [DecidableEq Tx]
    (newKey : HashKey) (contractDb : ContractDB) (currentTimestamp : UInt32) :
    FlagBounds cryptoShorthash library Tx (StateDB.store cryptoShorthash keyedShorthash)
        { stateDb := .ofCommitted newKey fun _ => none, contractDb := contractDb } ∧
      FlagBounds cryptoShorthash library Tx (StateDBv2.store cryptoShorthash)
        { stateDb := { stateDb := fun _ => none }, contractDb := contractDb } ∧
      FlagBounds cryptoShorthash library Tx (GroundhogPersistentStateDB.store cryptoShorthash)
        { stateDb := { currentTimestamp := currentTimestamp, stateDb := fun _ => none }
          contractDb := contractDb } := by
  refine ⟨?_, ?_, ?_⟩
  · apply flag_bounds (StateDB.settlingStore cryptoShorthash keyedShorthash) state_db_steady
    apply rested_empty (cache_apart_empty newKey rfl)
    intro key
    rfl
  · apply flag_bounds (StateDBv2.trieStore cryptoShorthash).settlingStore state_db_v2_steady
    apply rested_empty trivial
    intro key
    rfl
  · apply flag_bounds (GroundhogPersistentStateDB.trieStore cryptoShorthash).settlingStore
      groundhog_steady
    apply rested_empty trivial
    intro key
    rfl

/-! ## A flag acquired in one block and in two -/

def acquireFlag (permits : UInt32) {Tx : Type} : Tx → Program := fun _ =>
  UniqueFlag.acquire 7 permits fun _ => .returns

theorem acquire_flag_uses (permits : UInt32) {Tx : Type} (tx : Tx) (results : List CallResult) :
    (acquireFlag permits tx).CallsOn 7 (FlagCall 7 permits) results := by
  apply acquire_uses_flag
  intro results earlier _ next impossible
  cases impossible

def flagBlock (permits : UInt32) {Tx : Type} [DecidableEq Tx] [Fintype Tx]
    (moves : List (BlockMove Tx)) (before : GlobalContext StateDBv2) :
    Option (BlockExecution Tx StateDBv2 × GlobalContext StateDBv2) :=
  BlockExecution.finishAll (fun _ => 0) noContracts (StateDBv2.store fun _ => 0)
    (acquireFlag permits) 0 firstThread 1 moves before

theorem flag_block_chain {permits : UInt32} {Tx : Type} [DecidableEq Tx] [Fintype Tx]
    {moves : List (BlockMove Tx)} {start before after : GlobalContext StateDBv2}
    {last : BlockExecution Tx StateDBv2} {taken : ℕ}
    (guard : ∀ before, ClosedBlock (fun _ => 0) noContracts Tx (StateDBv2.store fun _ => 0)
      before → Prop)
    (earlier : CountedChain (fun _ => 0) noContracts Tx (StateDBv2.store fun _ => 0) 7
      (semaphoreCount permits) guard start taken before)
    (guarded : ∀ block : ClosedBlock (fun _ => 0) noContracts Tx (StateDBv2.store fun _ => 0)
      before, block.programs = acquireFlag permits → guard before block)
    (ended : flagBlock permits moves before = some (last, after)) :
    CountedChain (fun _ => 0) noContracts Tx (StateDBv2.store fun _ => 0) 7
      (semaphoreCount permits) guard start
      (taken + last.acquired 7 (semaphoreCount permits) (acquireFlag permits)) after := by
  obtain ⟨run, quiescent, contracts, modifications⟩ := finish_all_ends ended
  let closed : ClosedBlock (fun _ => 0) noContracts Tx (StateDBv2.store fun _ => 0) before :=
    { programs := acquireFlag permits
      moves := moves
      last := last
      run := run
      quiescent := quiescent }
  exact .finished earlier closed (guarded closed rfl) (List.Perm.refl last.modifiedKeys)
    contracts modifications

theorem flag_bounds_acquisitions_shared : ∃ last,
    CountedChain (fun _ => 0) noContracts (Fin 3) (StateDBv2.store fun _ => 0) 7
      (semaphoreCount 2)
      (OpensFlag (fun _ => 0) noContracts (Fin 3) (StateDBv2.store fun _ => 0) 7 2)
      { stateDb := { stateDb := fun _ => none }, contractDb := .empty } 2 last ∧
    2 ≤ (2 : UInt32).toNat := by
  have shared : (flagBlock 2
      ((List.finRange 3).flatMap (fun tx => List.replicate 4 (BlockMove.call tx)) ++
        [.push 0 .first, .push 1 .first, .push 2 .first, .pass 0, .commit 1, .pass 1, .commit 0])
      { stateDb := { stateDb := fun _ => none }, contractDb := .empty }).map
      (fun ended => (ended.1.acquired 7 (semaphoreCount 2) (acquireFlag 2), ended.1.books.order)) =
        some (2, [0, 1]) := by
    decide +kernel
  obtain ⟨⟨block, last⟩, ended, facts⟩ := Option.map_eq_some_iff.mp shared
  have taken := (Prod.mk.inj facts).1
  have chain : CountedChain (fun _ => 0) noContracts (Fin 3) (StateDBv2.store fun _ => 0) 7
      (semaphoreCount 2)
      (OpensFlag (fun _ => 0) noContracts (Fin 3) (StateDBv2.store fun _ => 0) 7 2)
      { stateDb := { stateDb := fun _ => none }, contractDb := .empty }
      (0 + block.acquired 7 (semaphoreCount 2) (acquireFlag 2)) last := by
    refine flag_block_chain _ .start (fun block programs => ⟨?_, ?_⟩) ended
    · rw [programs]
      exact fun tx _ => acquire_flag_uses 2 tx _
    · exact fun present => absurd rfl present
  rw [taken] at chain
  exact ⟨last, chain, (flag_bounds_acquisitions (fun _ => 0) (fun _ _ => 0) noContracts (Fin 3) 0
    .empty 0).2.1 _ .refl 7 2 2 last chain⟩

/-- The second block finds the key and sets its value to the whole count again, so two
blocks acquire the one permit twice. -/
theorem flag_acquired_again : ∃ last,
    CountedChain (fun _ => 0) noContracts Unit (StateDBv2.store fun _ => 0) 7 (semaphoreCount 1)
      (fun _ block => block.programs = acquireFlag 1 ∧ UsesFlag 7 1 block.programs block.last)
      { stateDb := { stateDb := fun _ => none }, contractDb := .empty } 2 last ∧
    ¬ 2 ≤ (1 : UInt32).toNat := by
  have twice : ((flagBlock 1 [BlockMove.call (), .call (), .call (), .call (),
      .push () .first, .pass (), .commit 0]
      { stateDb := { stateDb := fun _ => none }, contractDb := .empty }).bind
      fun first => (flagBlock 1 [.call (), .call (), .call (), .push () .first, .pass (), .commit 0]
        first.2).map fun second => (first.1.acquired 7 (semaphoreCount 1) (acquireFlag 1),
          second.1.acquired 7 (semaphoreCount 1) (acquireFlag 1))) = some (1, 1) := by
    decide +kernel
  obtain ⟨⟨first, middle⟩, one, rest⟩ := Option.bind_eq_some_iff.mp twice
  obtain ⟨⟨second, last⟩, two, taken⟩ := Option.map_eq_some_iff.mp rest
  obtain ⟨firstTaken, secondTaken⟩ := Prod.mk.inj taken
  let guard : ∀ before, ClosedBlock (fun _ => 0) noContracts Unit (StateDBv2.store fun _ => 0)
      before → Prop :=
    fun _ block => block.programs = acquireFlag 1 ∧ UsesFlag 7 1 block.programs block.last
  have guarded (before : GlobalContext StateDBv2)
      (block : ClosedBlock (fun _ => 0) noContracts Unit (StateDBv2.store fun _ => 0) before)
      (programs : block.programs = acquireFlag 1) : guard before block := by
    refine ⟨programs, ?_⟩
    rw [programs]
    exact fun tx _ => acquire_flag_uses 1 tx _
  have chain := flag_block_chain guard (flag_block_chain guard .start (guarded _) one)
    (guarded _) two
  rw [firstTaken, secondTaken] at chain
  exact ⟨last, chain, by decide⟩

end Scs
