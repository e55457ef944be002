import Scs.Phase.ReplicatedBlock

/-!
# Replicas (`vm/base_vm.cc`, `phase/phases.cc`)

A follower executes the blocks that a proposer has kept, one after the other and each in
an order of its own. The two nodes never disagree, and the follower accepts what comes next.
-/

namespace Scs

set_option autoImplicit false

open Lockstep Runs TwoPhase

variable {cryptoShorthash : CryptoShorthash}

/-- A block that has come to rest with its proposer. No transaction touches an asset, and
all deployments on an address are of one script. -/
structure ProposedBlock (proposer : TrieNode cryptoShorthash) (library : ContractLibrary)
    {Tx : Type} [DecidableEq Tx] (programs : Tx → Program)
    (before : GlobalContext proposer.Database) (block : BlockExecution Tx proposer.Database) :
    Prop where
  run : ∃ moves, Run (MovesBlock cryptoShorthash library proposer.store programs) (.start before)
    moves block
  quiescent : block.Quiescent
  noAssets : ∀ tx ∈ block.books.order, (programs tx).NoAssets
  agreed : ∀ tx ∈ block.books.order, ∀ other ∈ block.books.order, ∀ addr h otherHash,
    block.deploys tx addr = some h → block.deploys other addr = some otherHash → h = otherHash

/-- A follower at some point of a block with the listed transactions. -/
def FollowsBlock (follower : TrieNode cryptoShorthash) (library : ContractLibrary) {Tx : Type}
    [DecidableEq Tx] (programs : Tx → Program) (listed : List Tx)
    (before : GlobalContext follower.Database) (block : BlockExecution Tx follower.Database) :
    Prop :=
  ∃ moves, Run (MovesValidating cryptoShorthash library follower.store programs listed)
    (.start before) moves block

structure TrieNode.Empty (trieNode : TrieNode cryptoShorthash)
    (globalContext : GlobalContext trieNode.Database) : Prop where
  trie : ∀ key, trieNode.lens.trie globalContext.stateDb key = none
  ready : trieNode.respond.Ready globalContext.stateDb
  clear : globalContext.contractDb.uncommittedContracts = .empty

/-- The states that two nodes reach together. The proposer may propose blocks, undo them
and keep others; the follower executes those that the proposer has kept. -/
inductive Replicas (proposer follower : TrieNode cryptoShorthash) (library : ContractLibrary)
    (Tx : Type) [DecidableEq Tx] :
    GlobalContext proposer.Database → GlobalContext follower.Database → Prop
  | started {left : GlobalContext proposer.Database} {right : GlobalContext follower.Database}
      (leftEmpty : proposer.Empty left) (rightEmpty : follower.Empty right)
      (contracts : left.contractDb.snapshot = right.contractDb.snapshot) :
      Replicas proposer follower library Tx left right
  | replicated {left leftAfter : GlobalContext proposer.Database}
      {right rightAfter : GlobalContext follower.Database} {programs : Tx → Program}
      {proposed : BlockExecution Tx proposer.Database}
      {block : BlockExecution Tx follower.Database}
      (before : Replicas proposer follower library Tx left right)
      (proposes : ProposedBlock proposer library programs left proposed)
      (follows : FollowsBlock follower library programs proposed.books.order right block)
      (done : ∀ tx ∈ proposed.books.order, block.Finished tx)
      (leftFinishes : FinishesBlock proposer.store proposed leftAfter)
      (rightFinishes : FinishesBlock follower.store block rightAfter) :
      Replicas proposer follower library Tx leftAfter rightAfter
  | undone {left leftAfter : GlobalContext proposer.Database}
      {right : GlobalContext follower.Database} {programs : Tx → Program}
      {moves : List (BlockMove Tx)} {block : BlockExecution Tx proposer.Database}
      (before : Replicas proposer follower library Tx left right)
      (run : Run (MovesBlock cryptoShorthash library proposer.store programs) (.start left) moves
        block)
      (quiescent : block.Quiescent) (undoes : UndoesBlock proposer.store block leftAfter) :
      Replicas proposer follower library Tx leftAfter right

section Reached

variable {proposer follower : TrieNode cryptoShorthash} {library : ContractLibrary} {Tx : Type}
  [DecidableEq Tx] {left : GlobalContext proposer.Database}
  {right : GlobalContext follower.Database}

theorem empty_object {trieNode : TrieNode cryptoShorthash}
    {globalContext : GlobalContext trieNode.Database} (empty : trieNode.Empty globalContext)
    (key : AddressAndKey) : trieNode.object key globalContext.stateDb = .fresh := by
  unfold TrieNode.object StateTrie.objects
  rw [empty.trie key]
  rfl

theorem empty_value {trieNode : TrieNode cryptoShorthash}
    {globalContext : GlobalContext trieNode.Database} (empty : trieNode.Empty globalContext)
    (key : AddressAndKey) : trieNode.node.values globalContext key = none := by
  have value := trieNode.lens.value key globalContext.stateDb
  rw [trie_committed] at value
  have object := empty_object empty key
  unfold TrieNode.object at object
  rw [object] at value
  exact value

theorem empty_between {trieNode : TrieNode cryptoShorthash}
    {globalContext : GlobalContext trieNode.Database} (empty : trieNode.Empty globalContext) :
    trieNode.node.BetweenBlocks globalContext ∧
      (trieNode.lens.trie globalContext.stateDb).Stored := by
  constructor
  · exact ⟨rested_empty trivial (empty_object empty), empty.ready, empty.clear⟩
  · intro key object entry
    rw [empty.trie key] at entry
    cases entry

theorem started_in_step (leftEmpty : proposer.Empty left) (rightEmpty : follower.Empty right)
    (contracts : left.contractDb.snapshot = right.contractDb.snapshot) :
    InStep proposer follower left right where
  proposerRests := (empty_between leftEmpty).1
  followerRests := (empty_between rightEmpty).1
  proposerStored := (empty_between leftEmpty).2
  followerStored := (empty_between rightEmpty).2
  values := by
    funext key
    rw [empty_value leftEmpty, empty_value rightEmpty]
  contracts := contracts
  noAssets key object stored := by
    rw [empty_value leftEmpty] at stored
    cases stored
  capacities key := by
    rw [empty_object leftEmpty, empty_object rightEmpty]
    exact UInt32.le_refl _
  vacant key := by
    rw [empty_object rightEmpty]
    exact (round_start_over (fun _ => 0) none).vacant

theorem ProposedBlock.validation {programs : Tx → Program}
    {proposed : BlockExecution Tx proposer.Database} {block : BlockExecution Tx follower.Database}
    (proposes : ProposedBlock proposer library programs left proposed)
    (inStep : InStep proposer follower left right)
    (follows : FollowsBlock follower library programs proposed.books.order right block) :
    Validation proposer.node follower.node library programs left right proposed block :=
  inStep.validation proposes.noAssets proposes.run proposes.quiescent follows

theorem replicas_in_step (replicas : Replicas proposer follower library Tx left right) :
    InStep proposer follower left right := by
  induction replicas with
  | started leftEmpty rightEmpty contracts =>
      exact started_in_step leftEmpty rightEmpty contracts
  | replicated before proposes follows done leftFinishes rightFinishes induction =>
      exact finished_in_step induction (proposes.validation induction follows) done leftFinishes
        rightFinishes proposes.agreed
  | undone before run quiescent undoes induction =>
      exact undone_in_step induction run quiescent undoes

/-- What two replicas can rely on: they show the same state, the follower accepts every
block that the proposer comes to rest with, and its own end of that block fails only if
a logged key has no other entry than one of a transaction that gave up. -/
structure Agree (proposer follower : TrieNode cryptoShorthash) (library : ContractLibrary)
    (Tx : Type) [DecidableEq Tx] (left : GlobalContext proposer.Database)
    (right : GlobalContext follower.Database) : Prop where
  same : SameState proposer.node follower.node left right
  accepts : ∀ (programs : Tx → Program) proposed block,
    ProposedBlock proposer library programs left proposed →
      FollowsBlock follower library programs proposed.books.order right block →
        Validates proposer.node follower.node library programs proposed block
  finishes : ∀ (programs : Tx → Program) proposed block leftAfter,
    ProposedBlock proposer library programs left proposed →
      FollowsBlock follower library programs proposed.books.order right block →
        (∀ tx ∈ proposed.books.order, block.Finished tx) →
          FinishesBlock proposer.store proposed leftAfter →
            ((∃ rightAfter, FinishesBlock follower.store block rightAfter) ↔
              ∀ key ∈ proposed.modifiedKeys, proposer.node.values left key ≠ none ∨
                ∃ item ∈ proposed.books.committed, item.1 = key)

/-- Replicas agree after any number of blocks, and go on agreeing: a follower accepts the
next block in any order of its moves, as long as every push has room on its key and an entry
on its thread. -/
theorem replicas_agree (replicas : Replicas proposer follower library Tx left right) :
    Agree proposer follower library Tx left right where
  same := (replicas_in_step replicas).same
  accepts _ _ _ proposes follows :=
    (proposes.validation (replicas_in_step replicas) follows).validates
  finishes _ _ _ _ proposes follows done leftFinishes :=
    follower_finishes_iff (replicas_in_step replicas)
      (proposes.validation (replicas_in_step replicas) follows) done proposes.agreed leftFinishes

end Reached

/-! ## One block on two databases -/

def emptyGroundhog : GlobalContext GroundhogPersistentStateDB where
  stateDb := { currentTimestamp := 0, stateDb := fun _ => none }
  contractDb := .empty

/-- A block whose transactions all commit, with what its end leaves. -/
def finishedRun {Database : Type} (store : StateStore Database) (moves : List (BlockMove Bool))
    (before : GlobalContext Database) :
    Option (BlockExecution Bool Database × GlobalContext Database) :=
  (BlockExecution.performAll (fun _ => 0) noContracts store readThenAdd moves (.start before)).bind
    fun block =>
      ((block.globalContext.phaseFinishBlock store CallIds.first.thread 0 0
        block.modifiedKeys).toOption.map fun after => (block, after))

theorem finished_run_finishes {Database : Type} {store : StateStore Database}
    {moves : List (BlockMove Bool)} {before after : GlobalContext Database}
    {block : BlockExecution Bool Database}
    (finished : finishedRun store moves before = some (block, after)) :
    Run (MovesBlock (fun _ => 0) noContracts store readThenAdd) (.start before) moves block ∧
      FinishesBlock store block after := by
  obtain ⟨last, ran, rest⟩ := Option.bind_eq_some_iff.mp finished
  obtain ⟨left, returned, same⟩ := Option.map_eq_some_iff.mp rest
  cases same
  refine ⟨run_of_perform_all ran, CallIds.first.thread, 0, 0, block.modifiedKeys,
    List.Perm.refl _, ?_⟩
  cases ended : block.globalContext.phaseFinishBlock store CallIds.first.thread 0 0
    block.modifiedKeys with
  | error fault =>
      rw [ended] at returned
      cases returned
  | ok last =>
      rw [ended] at returned
      cases returned
      rfl

theorem empty_state_v2_empty : (StateDBv2.trieNode fun _ => 0).Empty emptyStateV2 where
  trie _ := rfl
  ready := trivial
  clear := rfl

theorem empty_groundhog_empty :
    (GroundhogPersistentStateDB.trieNode fun _ => 0).Empty emptyGroundhog where
  trie _ := rfl
  ready := trivial
  clear := rfl

theorem closures_empty {Database : Type} {block : BlockExecution Bool Database}
    (empty : block.closures true ++ block.closures false = []) (tx : Bool) :
    block.closures tx = [] := by
  obtain ⟨first, second⟩ := List.append_eq_nil_iff.mp empty
  cases tx with
  | false => exact second
  | true => exact first

def deployments {Database : Type} (block : BlockExecution Bool Database) :
    List (Address × Hash) :=
  (block.contexts true).contractDbProxy.newDeployments.entries ++
    (block.contexts false).contractDbProxy.newDeployments.entries

theorem nothing_deployed {Database : Type} {block : BlockExecution Bool Database}
    (empty : deployments block = []) (tx : Bool) (addr : Address) :
    block.deploys tx addr = none := by
  obtain ⟨first, second⟩ := List.append_eq_nil_iff.mp empty
  unfold BlockExecution.deploys SortedMap.find
  cases tx with
  | false =>
      rw [second]
      rfl
  | true =>
      rw [first]
      rfl

/-- Both transactions add five, in one order with the proposer and in the other with the
follower. -/
theorem replicas_agree_reordered : ∃ left right,
    Replicas (StateDBv2.trieNode fun _ => 0) (GroundhogPersistentStateDB.trieNode fun _ => 0)
      noContracts Bool left right ∧
    GroundhogPersistentStateDB.getCommittedValue 7 right.stateDb =
      some { body := .nonnegativeInt64 10, escrowedFee := 0 } ∧
    Agree (StateDBv2.trieNode fun _ => 0) (GroundhogPersistentStateDB.trieNode fun _ => 0)
      noContracts Bool left right := by
  have proposal : (finishedRun (StateDBv2.store fun _ => 0) proposalMoves emptyStateV2).map
      (fun ended => (ended.1.books.order, ended.1.books.held.length,
        ended.1.closures true ++ ended.1.closures false, (deployments ended.1).length)) =
        some ([false, true], 0, [], 0) := by
    decide +kernel
  have validator : (finishedRun (GroundhogPersistentStateDB.store fun _ => 0) validatorMoves
      emptyGroundhog).map
      (fun ended => (ended.1.books.order, ended.1.books.held.length,
        ended.1.closures true ++ ended.1.closures false, ended.2.stateDb.getCommittedValue 7)) =
        some ([true, false], 0, [], some { body := .nonnegativeInt64 10, escrowedFee := 0 }) := by
    decide +kernel
  obtain ⟨⟨proposed, left⟩, proposedEnds, facts⟩ := Option.map_eq_some_iff.mp proposal
  obtain ⟨⟨block, right⟩, blockEnds, otherFacts⟩ := Option.map_eq_some_iff.mp validator
  simp only [Prod.mk.injEq] at facts otherFacts
  obtain ⟨order, held, closed, deployed⟩ := facts
  obtain ⟨reordered, otherHeld, otherClosed, value⟩ := otherFacts
  obtain ⟨proposedRun, leftFinishes⟩ := finished_run_finishes proposedEnds
  obtain ⟨run, rightFinishes⟩ := finished_run_finishes blockEnds
  have proposes : ProposedBlock (StateDBv2.trieNode fun _ => 0) noContracts readThenAdd
      emptyStateV2 proposed :=
    { run := ⟨_, proposedRun⟩
      quiescent := ⟨List.length_eq_zero_iff.mp held, closures_empty closed⟩
      noAssets := fun tx _ => read_then_add_no_assets tx
      agreed := fun tx _ other _ addr h otherHash deploys => by
        have none := nothing_deployed (List.length_eq_zero_iff.mp deployed) tx addr
        cases none.symm.trans deploys }
  have follows : FollowsBlock (GroundhogPersistentStateDB.trieNode fun _ => 0) noContracts
      readThenAdd proposed.books.order emptyGroundhog block := by
    refine ⟨validatorMoves, ?_⟩
    apply short_run_validates _ _ _ _ run
    · rw [order]
      decide
    · intro tx member
      simp only [validatorMoves, List.mem_cons, reduceCtorEq, List.not_mem_nil, or_self] at member
    · decide
    · intro thread
      have none : (BlockExecution.start emptyGroundhog : BlockExecution Bool _).allocated thread =
          0 := rfl
      rw [none]
      decide
  have done : ∀ tx ∈ proposed.books.order, block.Finished tx := by
    intro tx _
    have listed : tx ∈ block.books.order := by
      rw [reordered]
      cases tx <;> decide
    constructor
    · left
      exact ((run_balanced (GroundhogPersistentStateDB.trieNode fun _ => 0).lens.objectStore
        run).balanced.listed tx).mp listed
    · intro ticket member
      rw [List.length_eq_zero_iff.mp otherHeld] at member
      cases member
    · exact closures_empty otherClosed tx
  have together := Replicas.replicated (.started empty_state_v2_empty empty_groundhog_empty rfl)
    proposes follows done leftFinishes rightFinishes
  exact ⟨left, right, together, value, replicas_agree together⟩

end Scs
