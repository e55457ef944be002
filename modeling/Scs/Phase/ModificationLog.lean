import Scs.Phase.SisyphusBlock
import Scs.TransactionContext.ProposedBlock

/-!
# The modification log of a block (`phase/phases.cc`, `state_db/sisyphus_state_db.cc`)

The threads of a Sisyphus block fill one index, over which the block ends. What is saved
from the index is the log of the block, and the log decides what the block leaves.
-/

namespace Scs

set_option autoImplicit false

open Ledger Lockstep Runs TwoPhase TypedModificationIndex

structure SisyphusBlock (cryptoShorthash : CryptoShorthash) (hashRaw : HashRaw)
    (library : ContractLibrary) {Tx SignedTransaction Res : Type} [DecidableEq Tx]
    [Inhabited SignedTransaction] (programs : Tx → Program)
    (submissions : Tx → SubmittedTx SignedTransaction Res)
    (before : GlobalContext SisyphusStateDB)
    (last : SisyphusExecution Tx SignedTransaction Res SisyphusStateDB)
    (index : TypedModificationIndex) : Prop where
  run : ∃ moves, Run (MovesSisyphus cryptoShorthash library (SisyphusStateDB.store cryptoShorthash)
    programs submissions) (.start before) moves last
  quiescent : last.execution.Quiescent
  filled : ∃ threads calls, loggedModifications threads = last.execution.logged submissions ∧
    Run (Threads.Step (LogMoves hashRaw)) ⟨∅, threads⟩ calls ⟨index, 0⟩

/-- `phase_finish_block` or `phase_undo_block`, and the timestamp of the next block. -/
inductive EndsSisyphus (cryptoShorthash : CryptoShorthash) (hashRaw : HashRaw)
    (library : ContractLibrary) (Tx SignedTransaction Res : Type) [DecidableEq Tx]
    [Inhabited SignedTransaction] :
    GlobalContext SisyphusStateDB → GlobalContext SisyphusStateDB → Prop
  | finished {before : GlobalContext SisyphusStateDB} {programs : Tx → Program}
      {submissions : Tx → SubmittedTx SignedTransaction Res}
      {last : SisyphusExecution Tx SignedTransaction Res SisyphusStateDB}
      {index : TypedModificationIndex} {stateDb : SisyphusStateDB} {contractDb : ContractDB}
      (block : SisyphusBlock cryptoShorthash hashRaw library programs submissions before last index)
      {thread : Fin tlcacheSize} {timestamp : UInt32}
      (contracts : last.execution.globalContext.contractDb.commit thread timestamp =
        .ok contractDb)
      {keys : List AddressAndKey} (visits : index.Visits keys)
      (modifications : last.execution.globalContext.stateDb.commitModifications keys =
        .ok stateDb) (blockNumber : UInt32) :
      EndsSisyphus cryptoShorthash hashRaw library Tx SignedTransaction Res before
        { stateDb := stateDb.setTimestamp blockNumber, contractDb := contractDb }
  | undone {before : GlobalContext SisyphusStateDB} {programs : Tx → Program}
      {submissions : Tx → SubmittedTx SignedTransaction Res}
      {last : SisyphusExecution Tx SignedTransaction Res SisyphusStateDB}
      {index : TypedModificationIndex} {stateDb : SisyphusStateDB}
      (block : SisyphusBlock cryptoShorthash hashRaw library programs submissions before last index)
      {keys : List AddressAndKey} (visits : index.Visits keys)
      (modifications : last.execution.globalContext.stateDb.rewindModifications keys =
        .ok stateDb) (blockNumber : UInt32) :
      EndsSisyphus cryptoShorthash hashRaw library Tx SignedTransaction Res before
        { stateDb := stateDb.setTimestamp blockNumber
          contractDb := last.execution.globalContext.contractDb.rewind }

/-! ## The index of a block -/

section Block

variable {cryptoShorthash : CryptoShorthash} {hashRaw : HashRaw} {library : ContractLibrary}
  {Tx SignedTransaction Res : Type} [DecidableEq Tx] [Inhabited SignedTransaction]
  {programs : Tx → Program} {submissions : Tx → SubmittedTx SignedTransaction Res}
  {before : GlobalContext SisyphusStateDB}
  {last : SisyphusExecution Tx SignedTransaction Res SisyphusStateDB}
  {index : TypedModificationIndex} {keys : List AddressAndKey} {after : SisyphusStateDB}
  {key : AddressAndKey}

abbrev sisyphusView (cryptoShorthash : CryptoShorthash) :
    SettlingStore cryptoShorthash (SisyphusStateDB.store cryptoShorthash) :=
  (SisyphusStateDB.trieStore cryptoShorthash).settlingStore

namespace SisyphusBlock

theorem executed
    (block : SisyphusBlock cryptoShorthash hashRaw library programs submissions before last index) :
    ∃ moves, Run (MovesBlock cryptoShorthash library (SisyphusStateDB.store cryptoShorthash)
      programs) (.start before) moves last.execution := by
  obtain ⟨moves, run⟩ := block.run
  exact ⟨moves, run_execution run⟩

theorem unique
    (block : SisyphusBlock cryptoShorthash hashRaw library programs submissions before last index) :
    PassedOnce submissions last := by
  obtain ⟨moves, run⟩ := block.run
  exact run_unique run

/-- The index holds what was logged, each modification once: a key of the index is taken
again only for the modification that it stands for. -/
theorem saved
    (block : SisyphusBlock cryptoShorthash hashRaw library programs submissions before last index)
    (rested : Rested (sisyphusView cryptoShorthash) before.stateDb) :
    (saveModifications index).Nodup ∧ ∀ modification,
      modification ∈ saveModifications index ↔
        modification ∈ last.execution.logged submissions := by
  obtain ⟨moves, executed⟩ := block.executed
  obtain ⟨threads, calls, same, run⟩ := block.filled
  have keyed : Keyed hashRaw (loggedModifications threads) := by
    rw [same]
    exact logged_keyed rested executed block.quiescent block.unique.distinct hashRaw
  have kept : IndexKept hashRaw (loggedModifications threads) ⟨index, 0⟩ :=
    run_invariant (IndexKept hashRaw (loggedModifications threads)) (keyed_step_kept keyed)
      (index_kept_start threads) run
  rw [← same]
  exact keyed_kept_saved keyed kept rfl

/-- The log and the committed deltas of a key tell the same. -/
theorem saved_items
    (block : SisyphusBlock cryptoShorthash hashRaw library programs submissions before last index)
    (rested : Rested (sisyphusView cryptoShorthash) before.stateDb) :
    Multiset.map IndexedModification.item ↑(saveModifications index) =
      last.execution.books.committed := by
  obtain ⟨moves, executed⟩ := block.executed
  obtain ⟨once, members⟩ := block.saved rested
  have whole : ↑(saveModifications index) = last.execution.logged submissions := by
    apply (Multiset.Nodup.ext (Multiset.coe_nodup.mpr once) _).mpr
    · intro modification
      exact Multiset.mem_coe.trans (members modification)
    · exact logged_nodup rested executed block.quiescent block.unique.distinct
  rw [whole, logged_items]
  exact (quiescent_committed (sisyphusView cryptoShorthash).toObjectStore executed
    block.quiescent).symm

/-- The block ends over the keys of its committed deltas. -/
theorem visited_iff
    (block : SisyphusBlock cryptoShorthash hashRaw library programs submissions before last index)
    (rested : Rested (sisyphusView cryptoShorthash) before.stateDb) (visits : index.Visits keys) :
    key ∈ keys ↔ ∃ item ∈ last.execution.books.committed, item.1 = key := by
  rw [visits.listed, ← block.saved_items rested]
  simp only [Multiset.mem_map, Multiset.mem_coe, exists_exists_and_eq_and,
    IndexedModification.item]

theorem visited_covers
    (block : SisyphusBlock cryptoShorthash hashRaw library programs submissions before last index)
    (rested : Rested (sisyphusView cryptoShorthash) before.stateDb) (visits : index.Visits keys)
    (unlisted : key ∉ keys) : deltasOn key last.execution.books.committed = 0 := by
  apply Multiset.eq_zero_of_forall_notMem
  intro delta member
  apply unlisted
  exact (block.visited_iff rested visits).mpr ⟨(key, delta), (mem_deltas_on _).mp member, rfl⟩

theorem commit_rested
    (block : SisyphusBlock cryptoShorthash hashRaw library programs submissions before last index)
    (rested : Rested (sisyphusView cryptoShorthash) before.stateDb) (visits : index.Visits keys)
    (returned : last.execution.globalContext.stateDb.commitModifications keys = .ok after) :
    Rested (sisyphusView cryptoShorthash) after := by
  obtain ⟨moves, executed⟩ := block.executed
  have committed : (SisyphusStateDB.store cryptoShorthash).commitModifications 0 keys
      last.execution.globalContext.stateDb = .ok after := returned
  exact covered_commit_rested rested executed block.quiescent visits.once
    (fun _ unlisted => block.visited_covers rested visits unlisted) committed

theorem rewind_rested
    (block : SisyphusBlock cryptoShorthash hashRaw library programs submissions before last index)
    (rested : Rested (sisyphusView cryptoShorthash) before.stateDb) (visits : index.Visits keys)
    (returned : last.execution.globalContext.stateDb.rewindModifications keys = .ok after) :
    Rested (sisyphusView cryptoShorthash) after ∧
      ∀ key, after.getCommittedValue key = before.stateDb.getCommittedValue key := by
  obtain ⟨moves, executed⟩ := block.executed
  have rewound : (SisyphusStateDB.store cryptoShorthash).rewindModifications 0 keys
      last.execution.globalContext.stateDb = .ok after := returned
  exact covered_rewind_rested rested executed block.quiescent visits.once
    (fun _ unlisted => block.visited_covers rested visits unlisted) rewound

theorem commit_returns
    (block : SisyphusBlock cryptoShorthash hashRaw library programs submissions before last index)
    (rested : Rested (sisyphusView cryptoShorthash) before.stateDb) (visits : index.Visits keys) :
    ∃ after, last.execution.globalContext.stateDb.commitModifications keys = .ok after := by
  obtain ⟨moves, executed⟩ := block.executed
  have ends := modified_ends_return (SisyphusStateDB.trieStore cryptoShorthash) rested executed
    block.quiescent visits.once (fun key listed => (block.visited_iff rested visits).mp listed) 0
  exact ends.1

/-- What a committed block leaves under a key that it has modified, and under any other. -/
theorem commit_leaves
    (block : SisyphusBlock cryptoShorthash hashRaw library programs submissions before last index)
    (rested : Rested (sisyphusView cryptoShorthash) before.stateDb) (visits : index.Visits keys)
    (returned : last.execution.globalContext.stateDb.commitModifications keys = .ok after)
    (key : AddressAndKey) :
    (key ∈ keys ∧
      ((sisyphusView cryptoShorthash).objects last.execution.globalContext.stateDb
        key).commitRound.map RevertableObject.getCommittedObject =
          .ok (after.getCommittedValue key)) ∨
    (key ∉ keys ∧
      after.getCommittedValue key = before.stateDb.getCommittedValue key) := by
  obtain ⟨moves, executed⟩ := block.executed
  have committed : (SisyphusStateDB.store cryptoShorthash).commitModifications 0 keys
      last.execution.globalContext.stateDb = .ok after := returned
  exact covered_commit_settles rested executed block.quiescent visits.once committed key

end SisyphusBlock

/-! ## How a block ends -/

structure SisyphusEnds (submissions : Tx → SubmittedTx SignedTransaction Res)
    (before : GlobalContext SisyphusStateDB)
    (last : SisyphusExecution Tx SignedTransaction Res SisyphusStateDB)
    (index : TypedModificationIndex) : Prop where
  once : (saveModifications index).Nodup
  saved : ∀ modification, modification ∈ saveModifications index ↔
    ∃ tx ∈ last.execution.books.order, (submissions tx).txHash = modification.txHash ∧
      (modification.addr, modification.delta) ∈ last.execution.pushes tx
  distinct : (last.execution.books.order.map fun tx => (submissions tx).txHash).Nodup
  listed : ∃ merged out, last.txSet.finalize = some merged ∧ merged.serializeBlock = some out ∧
    out.transactions.Perm (last.execution.books.order.map fun tx => (submissions tx).entry)
  commits : ∀ keys, index.Visits keys →
    ∃ after, last.execution.globalContext.stateDb.commitModifications keys = .ok after ∧
      ∀ key, (∀ modification ∈ saveModifications index, modification.addr ≠ key) →
        after.getCommittedValue key = before.stateDb.getCommittedValue key
  rewinds : ∀ keys, index.Visits keys → ∀ after,
    last.execution.globalContext.stateDb.rewindModifications keys = .ok after →
      ∀ key, after.getCommittedValue key = before.stateDb.getCommittedValue key

theorem SisyphusBlock.ends
    (block : SisyphusBlock cryptoShorthash hashRaw library programs submissions before last index)
    (rested : Rested (sisyphusView cryptoShorthash) before.stateDb) :
    SisyphusEnds submissions before last index := by
  obtain ⟨once, members⟩ := block.saved rested
  constructor
  · exact once
  · intro modification
    exact (members modification).trans mem_logged
  · exact block.unique.distinct
  · exact serialized_unique block.unique
  · intro keys visits
    obtain ⟨after, returned⟩ := block.commit_returns rested visits
    refine ⟨after, returned, ?_⟩
    intro key unmodified
    rcases block.commit_leaves rested visits returned key with ⟨listed, _⟩ | ⟨_, same⟩
    · obtain ⟨modification, member, here⟩ := (visits.listed key).mp listed
      exact absurd here (unmodified modification member)
    · exact same
  · intro keys visits after returned
    exact (block.rewind_rested rested visits returned).2

end Block

/-! ## Chains of blocks -/

section Chain

variable {cryptoShorthash : CryptoShorthash} {hashRaw : HashRaw} {library : ContractLibrary}
  {Tx SignedTransaction Res : Type} [DecidableEq Tx] [Inhabited SignedTransaction]
  {genesis before after : GlobalContext SisyphusStateDB}

theorem ends_sisyphus_rested (rested : Rested (sisyphusView cryptoShorthash) before.stateDb)
    (ends : EndsSisyphus cryptoShorthash hashRaw library Tx SignedTransaction Res before after) :
    Rested (sisyphusView cryptoShorthash) after.stateDb := by
  cases ends with
  | finished block contracts visits modifications blockNumber =>
      obtain ⟨sound, opened⟩ := block.commit_rested rested visits modifications
      exact ⟨sound, opened⟩
  | undone block visits modifications blockNumber =>
      obtain ⟨sound, opened⟩ := (block.rewind_rested rested visits modifications).1
      exact ⟨sound, opened⟩

theorem sisyphus_chain_rested (empty : ∀ key, genesis.stateDb.stateDb key = none)
    (chain : Relation.ReflTransGen
      (EndsSisyphus cryptoShorthash hashRaw library Tx SignedTransaction Res) genesis before) :
    Rested (sisyphusView cryptoShorthash) before.stateDb := by
  induction chain with
  | refl =>
      apply rested_empty trivial
      intro key
      exact congrArg (fun entry : Option RevertableObject => entry.getD .fresh) (empty key)
  | tail _ ends induction => exact ends_sisyphus_rested induction ends

end Chain

/-! ## Blocks of transactions with distinct hashes -/

section Distinct

variable {cryptoShorthash : CryptoShorthash} {library : ContractLibrary}
  {Tx SignedTransaction Res Database : Type} [DecidableEq Tx] [Inhabited SignedTransaction]
  {store : StateStore Database} {programs : Tx → Program}
  {submissions : Tx → SubmittedTx SignedTransaction Res} {before : GlobalContext Database}
  {moves : List (BlockMove Tx)} {block : BlockExecution Tx Database}

theorem sisyphus_run (view : ObjectStore cryptoShorthash store)
    (apart : Function.Injective fun tx => (submissions tx).txHash)
    (run : Run (MovesBlock cryptoShorthash library store programs) (.start before) moves block) :
    ∃ last calls, last.execution = block ∧
      Run (MovesSisyphus cryptoShorthash library store programs submissions) (.start before) calls
        last := by
  apply run_invariant (fun block => ∃ last calls, last.execution = block ∧
    Run (MovesSisyphus cryptoShorthash library store programs submissions) (.start before) calls
      last) _ _ run
  · rintro _ move next ⟨last, calls, rfl, run⟩ moves
    by_cases passes : ∃ tx, move = .pass tx
    · obtain ⟨tx, rfl⟩ := passes
      have unique := run_unique run
      have balanced := (run_balanced view (run_execution run)).balanced
      have fresh : last.txSet.txs.lookup (submissions tx).txHash = none := by
        rw [Option.eq_none_iff_forall_ne_some]
        intro entry found
        obtain ⟨other, listed, same, _⟩ := (unique.held _ _).mp found
        cases apart same
        have committing := (balanced.listed _).mp listed
        cases block_move_cases moves with
        | passed status phase updates =>
            rw [committing] at phase
            cases phase
      exact ⟨_, _, rfl, run_snoc run (.passed moves (try_add_fresh unique.unmerged fresh))⟩
    · exact ⟨_, _, rfl, run_snoc run (.moved (fun tx same => passes ⟨tx, same⟩) moves)⟩
  · exact ⟨_, _, rfl, .nil _⟩

theorem modifications_logged (hashRaw : HashRaw) (modifications : List IndexedModification)
    (implemented : ∀ modification ∈ modifications, modification.delta.implemented = true)
    (keys : TypedModificationIndex) :
    ∃ calls index, Run (Threads.Step (LogMoves hashRaw)) ⟨keys, {modifications}⟩ calls
      ⟨index, 0⟩ := by
  induction modifications generalizing keys with
  | nil => exact ⟨_, keys, .cons (log_returned_step 0) (.nil _)⟩
  | cons modification rest induction =>
      have logs : ∃ after, logModification hashRaw modification keys = .ok after := by
        unfold logModification IndexedModification.key
        rw [make_index_key_eq (implemented modification List.mem_cons_self)]
        exact ⟨_, rfl⟩
      obtain ⟨after, logs⟩ := logs
      obtain ⟨calls, index, run⟩ := induction
        (fun other member => implemented other (List.mem_cons_of_mem _ member)) after
      exact ⟨_, index, .cons (logged_step rest 0 logs) run⟩

theorem sisyphus_block_filled (hashRaw : HashRaw) {before : GlobalContext SisyphusStateDB}
    {block : BlockExecution Tx SisyphusStateDB}
    (rested : Rested (sisyphusView cryptoShorthash) before.stateDb)
    (apart : Function.Injective fun tx => (submissions tx).txHash)
    (run : Run (MovesBlock cryptoShorthash library (SisyphusStateDB.store cryptoShorthash) programs)
      (.start before) moves block) (quiescent : block.Quiescent) :
    ∃ last index, last.execution = block ∧
      SisyphusBlock cryptoShorthash hashRaw library programs submissions before last index := by
  obtain ⟨last, sisyphusCalls, rfl, sisyphus⟩ :=
    sisyphus_run (sisyphusView cryptoShorthash).toObjectStore apart run
  obtain ⟨calls, index, filled⟩ := modifications_logged hashRaw
    (last.execution.logged submissions).toList
    (fun modification member => logged_implemented rested run quiescent modification
      (Multiset.mem_toList.mp member)) ∅
  refine ⟨last, index, rfl, ⟨_, sisyphus⟩, quiescent, _, calls, ?_, filled⟩
  rw [loggedModifications, Multiset.singleton_bind, Multiset.coe_toList]

end Distinct

/-! ## Two transactions, passed in either order -/

def sisyphusStart : GlobalContext SisyphusStateDB where
  stateDb := { currentTimestamp := 0, stateDb := fun _ => none }
  contractDb := .empty

def boolSubmissions (tx : Bool) : SubmittedTx Bool Unit where
  txHash := if tx then 1 else 0
  tx := tx
  results := ()

def sisyphusRun (moves : List (BlockMove Bool)) : Option (BlockExecution Bool SisyphusStateDB) :=
  BlockExecution.performAll (fun _ => 0) noContracts (SisyphusStateDB.store fun _ => 0) readThenAdd
    moves (.start sisyphusStart)

/-- The log holds both additions, whoever has passed first. -/
theorem read_then_add_block (moves : List (BlockMove Bool)) {order : List Bool}
    (both : order.Perm [false, true])
    (ran : (sisyphusRun moves).map (fun block => (block.books.order, block.books.held.length,
      block.closures true, block.closures false)) = some (order, 0, [], []))
    (pushes : (sisyphusRun moves).map (fun block => (block.pushes false, block.pushes true)) =
      some ([(7, .nonnegativeInt64SetAdd ⟨0, 5⟩)], [(7, .nonnegativeInt64SetAdd ⟨0, 5⟩)])) :
    ∃ last index, last.execution.books.order = order ∧
      SisyphusBlock (fun _ => 0) (fun _ => 0) noContracts readThenAdd boolSubmissions sisyphusStart
        last index ∧
      ∀ modification, modification ∈ saveModifications index ↔
        modification = { addr := 7, txHash := 0, delta := .nonnegativeInt64SetAdd ⟨0, 5⟩ } ∨
        modification = { addr := 7, txHash := 1, delta := .nonnegativeInt64SetAdd ⟨0, 5⟩ } := by
  obtain ⟨block, performed, facts⟩ := Option.map_eq_some_iff.mp ran
  rw [performed, Option.map_some, Option.some_inj, Prod.mk.injEq] at pushes
  simp only [Prod.mk.injEq] at facts
  obtain ⟨ordered, held, first, second⟩ := facts
  have quiescent : block.Quiescent := by
    refine ⟨List.length_eq_zero_iff.mp held, fun tx => ?_⟩
    cases tx with
    | false => exact second
    | true => exact first
  have rested : Rested (sisyphusView fun _ => 0) sisyphusStart.stateDb :=
    rested_empty trivial fun _ => rfl
  have apart : Function.Injective fun tx => (boolSubmissions tx).txHash :=
    Bool.injective_iff.mpr (by decide)
  obtain ⟨last, index, rfl, filled⟩ := sisyphus_block_filled (fun _ => 0) rested apart
    (run_of_perform_all performed) quiescent
  refine ⟨last, index, ordered, filled, ?_⟩
  intro modification
  have pushed (tx : Bool) : last.execution.pushes tx = [(7, .nonnegativeInt64SetAdd ⟨0, 5⟩)] := by
    cases tx with
    | false => exact pushes.1
    | true => exact pushes.2
  rw [(filled.saved rested).2, mem_logged, ordered]
  simp only [pushed, both.mem_iff, List.mem_cons, List.not_mem_nil, or_false,
    exists_eq_or_imp, exists_eq_left]
  obtain ⟨addr, txHash, delta⟩ := modification
  simp only [boolSubmissions, IndexedModification.item, IndexedModification.mk.injEq,
    Prod.mk.injEq, if_true, Bool.false_eq_true, if_false]
  grind

theorem read_then_add_blocks : ∃ last index otherLast otherIndex,
    last.execution.books.order = [false, true] ∧ otherLast.execution.books.order = [true, false] ∧
    SisyphusBlock (fun _ => 0) (fun _ => 0) noContracts readThenAdd boolSubmissions sisyphusStart
      last index ∧
    SisyphusBlock (fun _ => 0) (fun _ => 0) noContracts readThenAdd boolSubmissions sisyphusStart
      otherLast otherIndex ∧
    (∀ modification ∈ saveModifications index, ∀ d, modification.delta ≠ .assetObjectAdd d) ∧
    ∀ modification, modification ∈ saveModifications index ↔
      modification ∈ saveModifications otherIndex := by
  obtain ⟨last, index, ordered, block, log⟩ := read_then_add_block proposalMoves
    (List.Perm.refl _) (by decide +kernel) (by decide +kernel)
  obtain ⟨otherLast, otherIndex, reordered, other, otherLog⟩ := read_then_add_block
    validatorMoves (List.Perm.swap _ _ _) (by decide +kernel) (by decide +kernel)
  refine ⟨last, index, otherLast, otherIndex, ordered, reordered, block, other, ?_, ?_⟩
  · intro modification member d asset
    rcases (log modification).mp member with rfl | rfl
    · cases asset
    · cases asset
  · intro modification
    exact (log modification).trans (otherLog modification).symm

/-! ## The log of a block -/

section Log

variable {cryptoShorthash : CryptoShorthash} {hashRaw : HashRaw} {library : ContractLibrary}
  {Tx SignedTransaction Res : Type} [DecidableEq Tx] [Inhabited SignedTransaction]
  {genesis before : GlobalContext SisyphusStateDB} {programs : Tx → Program}
  {submissions : Tx → SubmittedTx SignedTransaction Res}
  {last : SisyphusExecution Tx SignedTransaction Res SisyphusStateDB}
  {index : TypedModificationIndex}

/-- In every chain of Sisyphus blocks, the log of a block tells exactly what its passed
transactions have pushed, and the block ends over it. -/
theorem sisyphus_block_ends (empty : ∀ key, genesis.stateDb.stateDb key = none)
    (chain : Relation.ReflTransGen
      (EndsSisyphus cryptoShorthash hashRaw library Tx SignedTransaction Res) genesis before)
    (block : SisyphusBlock cryptoShorthash hashRaw library programs submissions before last index) :
    SisyphusEnds submissions before last index :=
  block.ends (sisyphus_chain_rested empty chain)

end Log

theorem sisyphus_block_ends_two : ∃ last index,
    last.execution.books.order = [false, true] ∧
    SisyphusEnds boolSubmissions sisyphusStart last index := by
  obtain ⟨last, index, _, _, ordered, _, block, _⟩ := read_then_add_blocks
  exact ⟨last, index, ordered, sisyphus_block_ends (fun _ => rfl) .refl block⟩

/-! ## Two nodes with one log -/

section Two

variable {cryptoShorthash : CryptoShorthash} {hashRaw : HashRaw} {library : ContractLibrary}
  {Tx SignedTransaction Res OtherTx OtherTransaction OtherRes : Type} [DecidableEq Tx]
  [Inhabited SignedTransaction] [DecidableEq OtherTx] [Inhabited OtherTransaction]
  {programs : Tx → Program} {submissions : Tx → SubmittedTx SignedTransaction Res}
  {otherPrograms : OtherTx → Program}
  {otherSubmissions : OtherTx → SubmittedTx OtherTransaction OtherRes}
  {left right genesis otherGenesis : GlobalContext SisyphusStateDB}
  {last : SisyphusExecution Tx SignedTransaction Res SisyphusStateDB}
  {otherLast : SisyphusExecution OtherTx OtherTransaction OtherRes SisyphusStateDB}
  {index otherIndex : TypedModificationIndex} {keys otherKeys : List AddressAndKey}
  {leftAfter rightAfter : SisyphusStateDB}

theorem same_log_committed
    (block : SisyphusBlock cryptoShorthash hashRaw library programs submissions left last index)
    (other : SisyphusBlock cryptoShorthash hashRaw library otherPrograms otherSubmissions right
      otherLast otherIndex)
    (rested : Rested (sisyphusView cryptoShorthash) left.stateDb)
    (otherRested : Rested (sisyphusView cryptoShorthash) right.stateDb)
    (sameLog : ∀ modification, modification ∈ saveModifications index ↔
      modification ∈ saveModifications otherIndex) :
    last.execution.books.committed = otherLast.execution.books.committed := by
  have logs : (saveModifications index).Perm (saveModifications otherIndex) :=
    (List.perm_ext_iff_of_nodup (block.saved rested).1 (other.saved otherRested).1).mpr sameLog
  rw [← block.saved_items rested, ← other.saved_items otherRested, Multiset.coe_eq_coe.mpr logs]

/-- A delta of a log without assets is one that a contract can push. -/
theorem logged_from_syscall
    (block : SisyphusBlock cryptoShorthash hashRaw library programs submissions left last index)
    (rested : Rested (sisyphusView cryptoShorthash) left.stateDb)
    (noAssetAdds : ∀ modification ∈ saveModifications index, ∀ d,
      modification.delta ≠ .assetObjectAdd d)
    (key : AddressAndKey) :
    ∀ delta ∈ deltasOn key last.execution.books.committed, delta.fromSyscall = true := by
  intro delta member
  obtain ⟨moves, executed⟩ := block.executed
  rw [mem_deltas_on, ← block.saved_items rested] at member
  obtain ⟨modification, saved, same⟩ := Multiset.mem_map.mp member
  have logged := ((block.saved rested).2 modification).mp saved
  have implemented := logged_implemented rested executed block.quiescent modification logged
  have plain := noAssetAdds modification saved
  cases same
  cases made : modification.delta with
  | assetObjectAdd d => exact absurd made (plain d)
  | unconstrainedInt64SetAdd setAdd => rw [made] at implemented; cases implemented
  | unconstrainedInt64SetMax setMax => rw [made] at implemented; cases implemented
  | unconstrainedInt64SetXor setXor => rw [made] at implemented; cases implemented
  | _ => rfl

/-- Nodes that agree on the committed values and save the same log commit the same values,
whatever transactions have made the log. -/
theorem modification_log_determines_state (empty : ∀ key, genesis.stateDb.stateDb key = none)
    (otherEmpty : ∀ key, otherGenesis.stateDb.stateDb key = none)
    (chain : Relation.ReflTransGen
      (EndsSisyphus cryptoShorthash hashRaw library Tx SignedTransaction Res) genesis left)
    (otherChain : Relation.ReflTransGen
      (EndsSisyphus cryptoShorthash hashRaw library OtherTx OtherTransaction OtherRes)
      otherGenesis right)
    (block : SisyphusBlock cryptoShorthash hashRaw library programs submissions left last index)
    (other : SisyphusBlock cryptoShorthash hashRaw library otherPrograms otherSubmissions right
      otherLast otherIndex)
    (sameValues : ∀ key, left.stateDb.getCommittedValue key = right.stateDb.getCommittedValue key)
    (noAssets : ∀ key object, left.stateDb.getCommittedValue key = some object →
      object.body.type ≠ .knownSupplyAsset)
    (sameLog : ∀ modification, modification ∈ saveModifications index ↔
      modification ∈ saveModifications otherIndex)
    (noAssetAdds : ∀ modification ∈ saveModifications index, ∀ d,
      modification.delta ≠ .assetObjectAdd d)
    (visits : index.Visits keys) (otherVisits : otherIndex.Visits otherKeys)
    (returned : last.execution.globalContext.stateDb.commitModifications keys = .ok leftAfter)
    (otherReturned : otherLast.execution.globalContext.stateDb.commitModifications otherKeys =
      .ok rightAfter) (key : AddressAndKey) :
    leftAfter.getCommittedValue key = rightAfter.getCommittedValue key := by
  have rested := sisyphus_chain_rested empty chain
  have otherRested := sisyphus_chain_rested otherEmpty otherChain
  have committed := same_log_committed block other rested otherRested sameLog
  have visited : key ∈ keys ↔ key ∈ otherKeys := by
    rw [block.visited_iff rested visits, other.visited_iff otherRested otherVisits, committed]
  have otherLeaf := other.commit_leaves otherRested otherVisits otherReturned key
  rcases block.commit_leaves rested visits returned key with ⟨listed, leaves⟩ | ⟨unlisted, same⟩
  · rcases otherLeaf with ⟨_, otherLeaves⟩ | ⟨absent, _⟩
    · obtain ⟨moves, executed⟩ := block.executed
      obtain ⟨otherMoves, otherExecuted⟩ := other.executed
      have closed := quiescent_closed rested executed block.quiescent key
      have otherClosed := quiescent_closed otherRested otherExecuted other.quiescent key
      have base : (SisyphusStateDB.store cryptoShorthash).getCommittedValue key left.stateDb =
          (SisyphusStateDB.store cryptoShorthash).getCommittedValue key right.stateDb :=
        sameValues key
      rw [← committed, ← base] at otherClosed
      have alike := closed_round_alike closed otherClosed (noAssets key)
        (logged_from_syscall block rested noAssetAdds key)
      rw [leaves, otherLeaves] at alike
      exact Except.ok.inj alike
    · exact absurd (visited.mp listed) absent
  · rcases otherLeaf with ⟨otherListed, _⟩ | ⟨_, otherSame⟩
    · exact absurd (visited.mpr otherListed) unlisted
    · rw [same, otherSame, sameValues key]

end Two

theorem modification_log_determines_two :
    ∃ (last otherLast : SisyphusExecution Bool Bool Unit SisyphusStateDB)
      (keys otherKeys : List AddressAndKey) (leftAfter rightAfter : SisyphusStateDB),
    last.execution.books.order = [false, true] ∧ otherLast.execution.books.order = [true, false] ∧
    last.execution.globalContext.stateDb.commitModifications keys = .ok leftAfter ∧
    otherLast.execution.globalContext.stateDb.commitModifications otherKeys = .ok rightAfter ∧
    ∀ key, leftAfter.getCommittedValue key = rightAfter.getCommittedValue key := by
  obtain ⟨last, index, otherLast, otherIndex, ordered, reordered, block, other, noAssetAdds,
    sameLog⟩ := read_then_add_blocks
  have rested : Rested (sisyphusView fun _ => 0) sisyphusStart.stateDb :=
    rested_empty trivial fun _ => rfl
  obtain ⟨keys, visits⟩ := index.exists_visits
  obtain ⟨otherKeys, otherVisits⟩ := otherIndex.exists_visits
  obtain ⟨leftAfter, returned⟩ := block.commit_returns rested visits
  obtain ⟨rightAfter, otherReturned⟩ := other.commit_returns rested otherVisits
  exact ⟨last, otherLast, keys, otherKeys, leftAfter, rightAfter, ordered, reordered, returned,
    otherReturned, modification_log_determines_state (fun _ => rfl) (fun _ => rfl) .refl .refl block
      other (fun _ => rfl) (fun _ _ impossible => by cases impossible) sameLog noAssetAdds
      visits otherVisits returned otherReturned⟩

end Scs
