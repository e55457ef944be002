import Scs.TransactionContext.ExecuteStatus
import Scs.TransactionContext.SameLedger
import Scs.TransactionContext.ValidatorMoves

/-!
# A block that one node proposes and another validates

A validator that starts from the state of the proposer executes the transactions
that the proposer has committed, in any interleaving. It refuses none of them,
and it commits the same state, whichever databases the two nodes keep.
-/

namespace Scs

set_option autoImplicit false

open Ledger Lockstep Runs TwoPhase

/-! ## Nodes -/

structure Node (cryptoShorthash : CryptoShorthash) where
  Database : Type
  store : StateStore Database
  view : SettlingStore cryptoShorthash store
  respond : RespondingStore view.toObjectStore
  steady : SteadyStore store

def StateDB.node (cryptoShorthash : CryptoShorthash) (keyedShorthash : KeyedShorthash) :
    Node cryptoShorthash where
  Database := StateDB
  store := StateDB.store cryptoShorthash keyedShorthash
  view := StateDB.settlingStore cryptoShorthash keyedShorthash
  respond := StateDB.respondingStore cryptoShorthash keyedShorthash
  steady := state_db_steady

def StateDBv2.node (cryptoShorthash : CryptoShorthash) : Node cryptoShorthash where
  Database := StateDBv2
  store := StateDBv2.store cryptoShorthash
  view := (StateDBv2.trieStore cryptoShorthash).settlingStore
  respond := StateDBv2.respondingStore cryptoShorthash
  steady := state_db_v2_steady

def GroundhogPersistentStateDB.node (cryptoShorthash : CryptoShorthash) :
    Node cryptoShorthash where
  Database := GroundhogPersistentStateDB
  store := GroundhogPersistentStateDB.store cryptoShorthash
  view := (GroundhogPersistentStateDB.trieStore cryptoShorthash).settlingStore
  respond := GroundhogPersistentStateDB.respondingStore cryptoShorthash
  steady := groundhog_steady

section Nodes

variable {cryptoShorthash : CryptoShorthash}

def Node.values (node : Node cryptoShorthash) (globalContext : GlobalContext node.Database) :
    CommittedValues := fun key =>
  node.store.getCommittedValue key globalContext.stateDb

def Node.freeSlots (node : Node cryptoShorthash) (key : AddressAndKey)
    (globalContext : GlobalContext node.Database) : ℕ :=
  node.view.toObjectStore.freeSlots key globalContext.stateDb

structure Node.BetweenBlocks (node : Node cryptoShorthash)
    (globalContext : GlobalContext node.Database) : Prop where
  rested : Rested node.view globalContext.stateDb
  ready : node.respond.Ready globalContext.stateDb
  clear : globalContext.contractDb.uncommittedContracts = .empty

theorem chain_between_blocks {node : Node cryptoShorthash} {library : ContractLibrary} {Tx : Type}
    [DecidableEq Tx] {genesis last : GlobalContext node.Database}
    (between : node.BetweenBlocks genesis)
    (chain : Relation.ReflTransGen (EndsBlock cryptoShorthash library Tx node.store) genesis last) :
    node.BetweenBlocks last where
  rested := chain_rested between.rested chain
  ready := chain_ready node.respond between.ready chain
  clear := (chain_binds between.clear chain).1

/-- The nodes have committed the same objects, none of them an asset, and the same
contracts. The validator has no fewer slots for new hashes. -/
structure SameState (proposer validator : Node cryptoShorthash)
    (left : GlobalContext proposer.Database) (right : GlobalContext validator.Database) : Prop where
  values : proposer.values left = validator.values right
  contracts : left.contractDb.snapshot = right.contractDb.snapshot
  slots : ∀ key, proposer.freeSlots key left ≤ validator.freeSlots key right
  noAssets : ∀ key object, proposer.values left key = some object →
    object.body.type ≠ .knownSupplyAsset

end Nodes

/-! ## What a block at rest has recorded -/

theorem recorded_iff {cryptoShorthash : CryptoShorthash} {library : ContractLibrary} {Tx : Type*}
    {Database : Type} [DecidableEq Tx] {store : StateStore Database} {programs : Tx → Program}
    {before : GlobalContext Database} {moves : List (BlockMove Tx)}
    {block : BlockExecution Tx Database}
    (clear : before.contractDb.uncommittedContracts = .empty)
    (run : Run (MovesBlock cryptoShorthash library store programs) (.start before) moves block)
    (quiescent : block.Quiescent) {h : Hash} {contract : MeteredContract} :
    block.globalContext.contractDb.uncommittedContracts.newContracts.find h = some contract ↔
      ∃ tx ∈ block.books.order, ∃ source,
        (block.contexts tx).contractDbProxy.newContracts.find h = some (contract, source) := by
  have created := run_created_once clear run
  constructor
  · exact created.recorded h contract
  · rintro ⟨tx, passed, source, made⟩
    have books := run_contract_books clear run
    obtain ⟨other, recorded⟩ := Option.ne_none_iff_exists'.mp
      (recorded_creation books quiescent.2 passed (made_creates made))
    obtain ⟨maker, makerPassed, makerSource, otherMade⟩ := created.recorded h other recorded
    have one : maker = tx := by
      by_contra apart
      obtain ⟨_, _, waiting⟩ :=
        created.once maker makerPassed tx passed apart h (made_creates otherMade)
          (made_creates made)
      rw [quiescent.2, quiescent.2] at waiting
      exact waiting.elim List.not_mem_nil List.not_mem_nil
    subst one
    rw [made] at otherMade
    cases otherMade
    exact recorded

/-! ## What the validator executes -/

section Two

variable {cryptoShorthash : CryptoShorthash} {proposer validator : Node cryptoShorthash}
  {library : ContractLibrary} {Tx : Type*} [DecidableEq Tx] {programs : Tx → Program}
  {left : GlobalContext proposer.Database} {right : GlobalContext validator.Database}
  {proposals moves : List (BlockMove Tx)} {proposed : BlockExecution Tx proposer.Database}
  {block : BlockExecution Tx validator.Database}

/-- A proposed block that has come to rest, and a validator at some point of it. The two
nodes may keep their state in different databases. -/
structure Validation (proposer validator : Node cryptoShorthash) (library : ContractLibrary)
    (programs : Tx → Program) (left : GlobalContext proposer.Database)
    (right : GlobalContext validator.Database) (proposed : BlockExecution Tx proposer.Database)
    (block : BlockExecution Tx validator.Database) : Prop where
  proposerRests : proposer.BetweenBlocks left
  validatorRests : validator.BetweenBlocks right
  same : SameState proposer validator left right
  noAssets : ∀ tx ∈ proposed.books.order, (programs tx).NoAssets
  proposal : ∃ moves, Run (MovesBlock cryptoShorthash library proposer.store programs)
    (.start left) moves proposed
  quiescent : proposed.Quiescent
  run : ∃ moves, Run (MovesValidating cryptoShorthash library validator.store programs
    proposed.books.order) (.start right) moves block

namespace Validation

variable (validation : Validation proposer validator library programs left right proposed block)

include validation

theorem moved : ∃ moves, Run (MovesBlock cryptoShorthash library validator.store programs)
    (.start right) moves block := by
  obtain ⟨moves, run⟩ := validation.run
  exact ⟨moves, validating_run_moves run⟩

/-- The context of a transaction with the proposer and with the validator, as calls of
one program on one snapshot. -/
theorem iterates (tx : Tx) : ∃ calls made,
    proposed.contexts tx = (TransactionContext.advance library (validator.values right)
      right.contractDb.snapshot (programs tx))^[calls] .start ∧
    block.contexts tx = (TransactionContext.advance library (validator.values right)
      right.contractDb.snapshot (programs tx))^[made] .start := by
  obtain ⟨_, proposal⟩ := validation.proposal
  obtain ⟨_, run⟩ := validation.moved
  have there := context_iterates proposer.steady proposal tx
  have here := context_iterates validator.steady run tx
  rw [validation.same.contracts] at there
  have values : (fun key => proposer.store.getCommittedValue key left.stateDb) =
      validator.values right := validation.same.values
  rw [values] at there
  exact ⟨_, _, there, here⟩

/-- A listed transaction that has stopped with the validator has done what it did with
the proposer. -/
theorem stopped {tx : Tx} (listed : tx ∈ proposed.books.order)
    (halted : (block.contexts tx).status ≠ .running) :
    block.contexts tx = proposed.contexts tx := by
  obtain ⟨_, proposal⟩ := validation.proposal
  have returned := order_returned proposal tx listed
  obtain ⟨calls, made, there, here⟩ := validation.iterates tx
  rcases Nat.le_total calls made with fewer | more
  · rw [here, there]
    apply advances_stopped _ fewer
    rw [← there, returned]
    exact ContextStatus.noConfusion
  · rw [here, there]
    symm
    apply advances_stopped _ more
    rw [← here]
    exact halted

theorem returned {tx : Tx} (listed : tx ∈ proposed.books.order)
    (halted : (block.contexts tx).status ≠ .running) :
    (block.contexts tx).status = .returned := by
  obtain ⟨_, proposal⟩ := validation.proposal
  rw [validation.stopped listed halted]
  exact order_returned proposal tx listed

theorem calls_on {tx : Tx} (listed : tx ∈ proposed.books.order)
    (running : (block.contexts tx).status = .running) (thrown : Thrown) :
    (block.advanced library validator.store programs tx).status ≠ .threw thrown := by
  obtain ⟨_, proposal⟩ := validation.proposal
  obtain ⟨_, run⟩ := validation.moved
  have returned := order_returned proposal tx listed
  obtain ⟨calls, made, there, here⟩ := validation.iterates tx
  have next : block.advanced library validator.store programs tx =
      (TransactionContext.advance library (validator.values right) right.contractDb.snapshot
        (programs tx))^[made + 1] .start := by
    have frozen := (run_contract_books validation.validatorRests.clear run).frozen
    rw [Function.iterate_succ_apply', ← here, ← frozen]
    unfold BlockExecution.advanced
    rw [run_committed_values validator.steady run]
    rfl
  have later : made + 1 ≤ calls := by
    by_contra fewer
    have ended : ((TransactionContext.advance library (validator.values right)
        right.contractDb.snapshot (programs tx))^[calls] .start).status ≠ .running := by
      rw [← there, returned]
      exact ContextStatus.noConfusion
    have halted := advances_stopped .start (Nat.lt_succ_iff.mp (not_le.mp fewer)) ended
    rw [← there, ← here] at halted
    rw [halted, returned] at running
    cases running
  intro threw
  have ended : ((TransactionContext.advance library (validator.values right)
      right.contractDb.snapshot (programs tx))^[made + 1] .start).status ≠ .running := by
    rw [← next, threw]
    exact ContextStatus.noConfusion
  have halted := advances_stopped .start later ended
  rw [← there, ← next] at halted
  rw [← halted, returned] at threw
  cases threw

theorem pushes_le {tx : Tx} (listed : tx ∈ proposed.books.order) :
    (block.pushes tx : Multiset (AddressAndKey × StorageDelta)) ≤ proposed.pushes tx := by
  cases status : (block.contexts tx).status with
  | running =>
      rw [BlockExecution.pushes, pushes_running status]
      exact Multiset.zero_le _
  | _ =>
      have halted : (block.contexts tx).status ≠ .running := by
        rw [status]
        exact ContextStatus.noConfusion
      rw [BlockExecution.pushes, validation.stopped listed halted]
      exact le_refl _

/-! ## Nothing is refused -/

variable (right) in
/-- Nobody has given up, and every slot is free or holds a live insertion. -/
structure Willing (order : List Tx) (block : BlockExecution Tx validator.Database) : Prop where
  phases : ∀ tx ∈ order, block.books.phase tx ≠ .aborting
  slots : ∀ key, validator.view.toObjectStore.usableSlots key block = validator.freeSlots key right

theorem order_distinct : proposed.books.order.Nodup := by
  obtain ⟨_, proposal⟩ := validation.proposal
  exact run_order_nodup proposer.view.toObjectStore proposal

/-- What a listed transaction is about to push was committed by the proposer on top of
all that is live with the validator. -/
theorem next_promised (phases : ∀ tx ∈ proposed.books.order, block.books.phase tx ≠ .aborting)
    {tx : Tx} (listed : tx ∈ proposed.books.order) {key : AddressAndKey} {delta : StorageDelta}
    {rest : List (AddressAndKey × StorageDelta)}
    (phase : block.books.phase tx = .pushing ((key, delta) :: rest)) :
    delta ::ₘ block.liveOn key ≤ deltasOn key proposed.books.committed := by
  obtain ⟨_, proposal⟩ := validation.proposal
  obtain ⟨_, validating⟩ := validation.run
  obtain ⟨_, run⟩ := validation.moved
  have part := run_take_part validating
  have next := willing_next (run_balanced validator.view.toObjectStore run).balanced
    (run_order_nodup validator.view.toObjectStore run) validation.order_distinct part.passed
    part.owners phases listed phase
  have whole : promised block.pushes proposed.books.order ≤ proposed.books.committed := by
    rw [quiescent_committed proposer.view.toObjectStore proposal validation.quiescent]
    exact promised_mono fun _ member => validation.pushes_le member
  have within := deltas_on_mono key (next.trans whole)
  rw [deltas_on_self] at within
  exact within

theorem committed_fits (key : AddressAndKey) :
    (∀ opening : Opening, opening.base = validator.values right key →
      ∀ recommitted, Solvent opening (deltasOn key proposed.books.committed) recommitted) ∧
    (inserts (deltasOn key proposed.books.committed)).card ≤ validator.freeSlots key right := by
  obtain ⟨_, proposal⟩ := validation.proposal
  choose openings base kempt start using validation.proposerRests.rested.opened
  have kept : BlockKept proposer.view.toObjectStore openings proposed :=
    run_block_kept openings start proposal
  obtain ⟨agreement, accounts⟩ := kept key
  have closed : proposed.held = [] := List.map_eq_nil_iff.mpr validation.quiescent.1
  have syscalls : ∀ delta ∈ deltasOn key proposed.books.committed, delta.fromSyscall = true := by
    intro delta member
    rw [quiescent_committed proposer.view.toObjectStore proposal validation.quiescent,
      mem_deltas_on, mem_promised] at member
    obtain ⟨tx, listed, pushed⟩ := member
    exact pushes_from_syscall proposer.steady proposal (validation.noAssets tx listed) pushed
  constructor
  · intro opening same recommitted
    have solvent := accounts.solvent
    simp only [ObjectStore.world, closed] at solvent
    have live_committed : live ↑(Rewinds.on key []) (deltasOn key proposed.books.committed) =
        deltasOn key proposed.books.committed := live_none _
    rw [live_committed] at solvent
    apply solvent_moved _ solvent syscalls
    rw [same, base key]
    exact congrFun validation.same.values.symm key
  · have used := run_usable proposer.view.toObjectStore start proposal key
    have live_committed : proposed.liveOn key = deltasOn key proposed.books.committed := by
      rw [← live_on_held, closed]
      exact live_none _
    rw [ObjectStore.usableSlots, live_committed] at used
    have room := validation.same.slots key
    unfold Node.freeSlots at room ⊢
    omega

theorem next_accepted (willing : Willing right proposed.books.order block) {tx : Tx}
    (listed : tx ∈ proposed.books.order) {key : AddressAndKey} {delta : StorageDelta}
    {rest : List (AddressAndKey × StorageDelta)}
    (phase : block.books.phase tx = .pushing ((key, delta) :: rest)) {ids : CallIds}
    {after : validator.Database} :
    validator.store.tryApplyDelta ids key delta block.globalContext.stateDb ≠
      .ok (none, after) := by
  intro refused
  obtain ⟨_, run⟩ := validation.moved
  have next := validation.next_promised willing.phases listed phase
  obtain ⟨fits, room⟩ := validation.committed_fits key
  obtain ⟨opening, agreement, base, _, accounts⟩ :=
    block_accounts validation.validatorRests.rested run key
  have solvent := solvent_mono (fits opening base (deltasOn key block.books.committed)) next
    (le_refl _)
  have affordable := affordable_of_solvent_cons solvent
  obtain ⟨changed, returned, _⟩ := validator.view.push refused
  have outcome := push_outcome accounts delta ids
  rw [returned] at outcome
  cases outcome with
  | rejected rejected reason =>
      rw [live_on_held] at reason
      rcases reason with unaffordable | ⟨insertion, full⟩
      · exact unaffordable affordable
      · have counted := Multiset.card_le_card (inserts_mono next)
        rw [card_inserts_cons] at counted
        have usable := willing.slots key
        rw [ObjectStore.usableSlots, ObjectStore.freeSlots, full] at usable
        omega

/-- The validation at an earlier or later point of the same validator. -/
theorem elsewhere {other : BlockExecution Tx validator.Database}
    (run : ∃ moves, Run (MovesValidating cryptoShorthash library validator.store programs
      proposed.books.order) (.start right) moves other) :
    Validation proposer validator library programs left right proposed other :=
  { validation with run := run }

theorem moves_willing {move : BlockMove Tx} {next : BlockExecution Tx validator.Database}
    (willing : Willing right proposed.books.order block)
    (moves : MovesValidating cryptoShorthash library validator.store programs
      proposed.books.order block move next) :
    Willing right proposed.books.order next := by
  obtain ⟨_, run⟩ := validation.moved
  obtain ⟨moves, ⟨owner, member, due⟩ | rfl, _⟩ := moves
  swap
  · cases block_move_cases moves with
    | persisted => exact ⟨willing.phases, willing.slots⟩
  choose openings base kempt start using validation.validatorRests.rested.opened
  have kept : BlockKept validator.view.toObjectStore openings block :=
    run_block_kept openings start run
  constructor
  · have updated {tx : Tx} {phase : Phase (AddressAndKey × StorageDelta)}
        (going : phase ≠ .aborting) :
        ∀ other ∈ proposed.books.order,
          Function.update block.books.phase tx phase other ≠ .aborting := by
      intro other listed
      by_cases same : other = tx
      · subst same
        rw [Function.update_self]
        exact going
      · rw [Function.update_of_ne same]
        exact willing.phases other listed
    cases block_move_cases moves with
    | returned running status => exact updated fun impossible => by cases impossible
    | threw running status =>
        cases due with
        | call _ => exact absurd status (validation.calls_on member running _)
    | accepted status phase applied => exact updated fun impossible => by cases impossible
    | rejected status phase applied =>
        cases due with
        | push _ _ => exact absurd applied (validation.next_accepted willing member phase)
    | gaveUp status phase => cases due
    | passed status phase updates => exact updated fun impossible => by cases impossible
    | _ => exact willing.phases
  · intro key
    rcases (moves_usable validator.view.toObjectStore kept moves key).2 with
      same | ⟨position, newId, rfl⟩
    · exact same.trans (willing.slots key)
    · cases due with
      | destroy found phase => exact absurd phase (willing.phases owner member)

theorem willing : Willing right proposed.books.order block := by
  obtain ⟨_, run⟩ := validation.run
  apply run_invariant (Willing right proposed.books.order) _ _ (run_between run)
  · rintro block move next willing ⟨moves, earlier, _⟩
    exact (validation.elsewhere earlier).moves_willing willing moves
  · constructor
    · intro tx _ impossible
      cases impossible
    · exact fun key => usable_start _ key

/-! ## Nothing is in the way -/

theorem closure_unrecorded {tx : Tx} {closure : ContractClosure} {rest : List ContractClosure}
    (closing : block.closures tx = closure :: rest) :
    closure.Unrecorded block.globalContext.contractDb := by
  obtain ⟨_, proposal⟩ := validation.proposal
  obtain ⟨_, validating⟩ := validation.run
  obtain ⟨_, run⟩ := validation.moved
  have clear : left.contractDb.uncommittedContracts = .empty := validation.proposerRests.clear
  have books := run_contract_books validation.validatorRests.clear run
  have part := run_take_part validating
  have first : closure ∈ block.closures tx := closing ▸ List.mem_cons_self
  cases closure with
  | deploy deployAddress contractHash => trivial
  | create h contract source =>
      by_contra recorded
      have waits : h ∈ (block.closures tx).filterMap ContractClosure.created? :=
        List.mem_filterMap.mpr ⟨_, first, rfl⟩
      obtain ⟨other, otherPassed, apart, otherCreates⟩ :=
        (run_creates_apart validation.validatorRests.clear run).others tx h waits recorded
      obtain ⟨passed, creates⟩ := books.closing tx _ first
      -- both have made the script with the proposer, so one of them would still wait there
      have there {maker : Tx} (passed : maker ∈ block.books.order)
          (creates : block.creates maker h) : proposed.creates maker h := by
        have listed := part.passed maker passed
        have halted : (block.contexts maker).status ≠ .running := by
          rw [(books.passed maker passed).1]
          exact ContextStatus.noConfusion
        rw [BlockExecution.creates, ← validation.stopped listed halted]
        exact creates
      obtain ⟨_, _, waiting⟩ :=
        (run_created_once clear proposal).once tx (part.passed tx passed) other
        (part.passed other otherPassed) (Ne.symm apart) h (there passed creates)
        (there otherPassed otherCreates)
      rw [validation.quiescent.2, validation.quiescent.2] at waiting
      exact waiting.elim List.not_mem_nil List.not_mem_nil

/-- Every due move of a listed transaction with room to push is harmless. -/
theorem harmless {tx : Tx} (listed : tx ∈ proposed.books.order) {move : BlockMove Tx}
    (due : DueMove block tx move) (room : RoomToPush validator.store block move) :
    HarmlessMove validator.store programs block move := by
  obtain ⟨_, run⟩ := validation.moved
  cases due with
  | call running =>
      have tidy : ∀ key, Tidy (block.committedValues validator.store key) := by
        intro key
        obtain ⟨opening, base, kempt, _⟩ := validation.validatorRests.rested.opened key
        rw [run_committed_values validator.steady run]
        exact (base ▸ kempt).toTidy
      have calls : ∃ next, MovesBlock cryptoShorthash library validator.store programs block
          (.call tx) next :=
        (call_moves_iff running).mpr fun fault => validation.calls_on listed running _
      exact (call_returns_iff tidy (run_views_seen validator.steady run tx) running).mp calls
  | push returned phase => exact room
  | pass returned phase => trivial
  | commit found phase => trivial
  | close closing =>
      intro closure rest own
      exact validation.closure_unrecorded own
  | destroy found phase => trivial

theorem due_returns {tx : Tx} (listed : tx ∈ proposed.books.order) {move : BlockMove Tx}
    (due : DueMove block tx move) (room : RoomToPush validator.store block move) :
    ∃ next, MovesBlock cryptoShorthash library validator.store programs block move next := by
  obtain ⟨_, validating⟩ := validation.run
  have harmlessRun : ∃ moves, Run (MovesHarmlessly cryptoShorthash library validator.store programs)
      (.start right) moves block := by
    refine ⟨_, run_mono ?_ (run_between validating)⟩
    rintro earlier move next ⟨⟨moves, ⟨owner, member, due⟩ | rfl, room⟩, reached, _⟩
    · exact ⟨moves, (validation.elsewhere reached).harmless member due room⟩
    · exact ⟨moves, trivial⟩
  obtain ⟨_, run⟩ := harmlessRun
  exact due_move_returns validator.steady validation.validatorRests.rested validator.respond
    validation.validatorRests.ready validation.validatorRests.clear run due
    (validation.harmless listed due room)

theorem due_or_committed {tx : Tx} (listed : tx ∈ proposed.books.order) :
    (∃ move, DueMove block tx move) ∨
      (block.Finished tx ∧ block.books.phase tx = .committing) := by
  obtain ⟨_, run⟩ := validation.moved
  rcases due_or_finished run tx with due | finished
  · exact .inl due
  · exact .inr ⟨finished, finished.phase.resolve_right (validation.willing.phases tx listed)⟩

/-! ## The state that the validator commits -/

section Done

variable (done : ∀ tx ∈ proposed.books.order, block.Finished tx)

include done

theorem passed_all : block.books.order.Perm proposed.books.order := by
  obtain ⟨_, validating⟩ := validation.run
  obtain ⟨_, run⟩ := validation.moved
  have balanced := (run_balanced validator.view.toObjectStore run).balanced
  have distinct := run_order_nodup validator.view.toObjectStore run
  apply (List.perm_ext_iff_of_nodup distinct validation.order_distinct).mpr
  intro tx
  constructor
  · exact (run_take_part validating).passed tx
  · intro listed
    exact (balanced.listed tx).mpr
      ((done tx listed).phase.resolve_right (validation.willing.phases tx listed))

theorem rests : block.Quiescent := by
  obtain ⟨_, validating⟩ := validation.run
  obtain ⟨_, run⟩ := validation.moved
  have part := run_take_part validating
  have books := run_contract_books validation.validatorRests.clear run
  constructor
  · apply List.eq_nil_iff_forall_not_mem.mpr
    intro ticket member
    exact (done _ (part.owners ticket member)).held ticket member rfl
  · intro tx
    apply List.eq_nil_iff_forall_not_mem.mpr
    intro closure member
    have listed := part.passed tx (books.closing tx closure member).1
    rw [(done tx listed).closures] at member
    cases member

theorem same_contexts {tx : Tx} (listed : tx ∈ proposed.books.order) :
    block.contexts tx = proposed.contexts tx := by
  obtain ⟨_, run⟩ := validation.moved
  apply validation.stopped listed
  rw [order_returned run tx ((validation.passed_all done).mem_iff.mpr listed)]
  exact ContextStatus.noConfusion

theorem same_deltas : block.books.committed = proposed.books.committed := by
  obtain ⟨_, proposal⟩ := validation.proposal
  obtain ⟨_, run⟩ := validation.moved
  rw [quiescent_committed proposer.view.toObjectStore proposal validation.quiescent,
    quiescent_committed validator.view.toObjectStore run (validation.rests done)]
  apply promised_perm (validation.passed_all done)
  intro tx passed
  exact congrArg TransactionContext.pushes
    (validation.same_contexts done ((validation.passed_all done).mem_iff.mp passed))

theorem same_logs (key : AddressAndKey) :
    key ∈ block.modifiedKeys ↔ key ∈ proposed.modifiedKeys := by
  obtain ⟨_, proposal⟩ := validation.proposal
  obtain ⟨_, run⟩ := validation.moved
  rw [mem_modified_keys proposer.view.toObjectStore proposal,
    mem_modified_keys validator.view.toObjectStore run]
  apply exists_congr
  intro tx
  rw [(validation.passed_all done).mem_iff]
  apply and_congr_right
  intro listed
  rw [validation.same_contexts done listed]

/-- The objects of a key settle alike with both nodes. -/
theorem same_round (key : AddressAndKey) :
    (validator.view.objects block.globalContext.stateDb key).commitRound.map
        RevertableObject.getCommittedObject =
      (proposer.view.objects proposed.globalContext.stateDb key).commitRound.map
        RevertableObject.getCommittedObject := by
  obtain ⟨_, proposal⟩ := validation.proposal
  obtain ⟨_, run⟩ := validation.moved
  have there := quiescent_closed validation.proposerRests.rested proposal validation.quiescent key
  have here := quiescent_closed validation.validatorRests.rested run (validation.rests done) key
  have values : validator.store.getCommittedValue key right.stateDb =
      proposer.store.getCommittedValue key left.stateDb :=
    congrFun validation.same.values.symm key
  rw [validation.same_deltas done, values] at here
  apply closed_round_alike here there (validation.same.noAssets key)
  intro delta member
  rw [quiescent_committed proposer.view.toObjectStore proposal validation.quiescent,
    mem_deltas_on, mem_promised] at member
  obtain ⟨tx, listed, pushed⟩ := member
  exact pushes_from_syscall proposer.steady proposal (validation.noAssets tx listed) pushed

theorem same_values {leftKey rightKey : HashKey} {leftKeys rightKeys : List AddressAndKey}
    {leftDb : proposer.Database} {rightDb : validator.Database}
    (leftLogged : leftKeys.Perm proposed.modifiedKeys)
    (rightLogged : rightKeys.Perm block.modifiedKeys)
    (leftReturned : proposer.store.commitModifications leftKey leftKeys
      proposed.globalContext.stateDb = .ok leftDb)
    (rightReturned : validator.store.commitModifications rightKey rightKeys
      block.globalContext.stateDb = .ok rightDb) (key : AddressAndKey) :
    validator.store.getCommittedValue key rightDb =
      proposer.store.getCommittedValue key leftDb := by
  obtain ⟨_, proposal⟩ := validation.proposal
  obtain ⟨_, run⟩ := validation.moved
  have logged := validation.same_logs done key
  rcases commit_settles validation.proposerRests.rested proposal validation.quiescent leftLogged
    leftReturned key with ⟨listed, settled⟩ | ⟨unlisted, keeps⟩
  · rcases commit_settles validation.validatorRests.rested run (validation.rests done) rightLogged
      rightReturned key with ⟨_, otherSettled⟩ | ⟨otherUnlisted, _⟩
    · have same := validation.same_round done key
      rw [settled, otherSettled] at same
      exact Except.ok.inj same
    · exact absurd (logged.mpr listed) otherUnlisted
  · rcases commit_settles validation.validatorRests.rested run (validation.rests done) rightLogged
      rightReturned key with ⟨otherListed, _⟩ | ⟨_, otherKeeps⟩
    · exact absurd (logged.mp otherListed) unlisted
    · rw [keeps, otherKeeps]
      exact congrFun validation.same.values.symm key

theorem same_scripts (h : Hash) (contract : MeteredContract) :
    block.globalContext.contractDb.uncommittedContracts.newContracts.find h = some contract ↔
      proposed.globalContext.contractDb.uncommittedContracts.newContracts.find h =
        some contract := by
  obtain ⟨_, proposal⟩ := validation.proposal
  obtain ⟨_, run⟩ := validation.moved
  rw [recorded_iff validation.proposerRests.clear proposal validation.quiescent,
    recorded_iff validation.validatorRests.clear run (validation.rests done)]
  apply exists_congr
  intro tx
  rw [(validation.passed_all done).mem_iff]
  apply and_congr_right
  intro listed
  rw [validation.same_contexts done listed]

end Done

end Validation

structure Validates (proposer validator : Node cryptoShorthash) (library : ContractLibrary)
    (programs : Tx → Program) (proposed : BlockExecution Tx proposer.Database)
    (block : BlockExecution Tx validator.Database) : Prop where
  accepted : ∀ tx ∈ proposed.books.order, block.books.phase tx ≠ .aborting
  returned : ∀ tx ∈ proposed.books.order, (block.contexts tx).status ≠ .running →
    (block.contexts tx).status = .returned
  goesOn : ∀ tx ∈ proposed.books.order, (∃ move, DueMove block tx move) ∨
    (block.Finished tx ∧ block.books.phase tx = .committing)
  moves : ∀ tx ∈ proposed.books.order, ∀ move, DueMove block tx move →
    RoomToPush validator.store block move →
    ∃ next, MovesBlock cryptoShorthash library validator.store programs block move next
  rests : (∀ tx ∈ proposed.books.order, block.Finished tx) → block.Quiescent
  values : (∀ tx ∈ proposed.books.order, block.Finished tx) →
    ∀ leftKey rightKey leftKeys rightKeys leftDb rightDb,
      leftKeys.Perm proposed.modifiedKeys → rightKeys.Perm block.modifiedKeys →
      proposer.store.commitModifications leftKey leftKeys proposed.globalContext.stateDb =
        .ok leftDb →
      validator.store.commitModifications rightKey rightKeys block.globalContext.stateDb =
        .ok rightDb →
      ∀ key, validator.store.getCommittedValue key rightDb =
        proposer.store.getCommittedValue key leftDb
  scripts : (∀ tx ∈ proposed.books.order, block.Finished tx) → ∀ h contract,
    block.globalContext.contractDb.uncommittedContracts.newContracts.find h = some contract ↔
      proposed.globalContext.contractDb.uncommittedContracts.newContracts.find h = some contract

theorem Validation.validates
    (validation : Validation proposer validator library programs left right proposed block) :
    Validates proposer validator library programs proposed block where
  accepted := validation.willing.phases
  returned _ listed := validation.returned listed
  goesOn _ listed := validation.due_or_committed listed
  moves _ listed _ due room := validation.due_returns listed due room
  rests done := validation.rests done
  values done _ _ _ _ _ _ leftLogged rightLogged leftReturned rightReturned key :=
    validation.same_values done leftLogged rightLogged leftReturned rightReturned key
  scripts done := validation.same_scripts done

end Two

/-! ## Two transactions, executed in the other order -/

section Short

variable {cryptoShorthash : CryptoShorthash} {library : ContractLibrary} {Tx : Type*}
  {Database : Type} [DecidableEq Tx] {store : StateStore Database} {programs : Tx → Program}
  {block next : BlockExecution Tx Database} {move : BlockMove Tx} {moves : List (BlockMove Tx)}
  {listed : List Tx}

theorem moves_due (moves : MovesBlock cryptoShorthash library store programs block move next)
    (going : ∀ tx, move ≠ .giveUp tx) : (∃ tx, DueMove block tx move) ∨ move = .persist := by
  cases block_move_cases moves with
  | went running status => exact .inl ⟨_, .call running⟩
  | returned running status => exact .inl ⟨_, .call running⟩
  | threw running status => exact .inl ⟨_, .call running⟩
  | accepted status phase applied => exact .inl ⟨_, .push status phase⟩
  | rejected status phase applied => exact .inl ⟨_, .push status phase⟩
  | gaveUp status phase => exact absurd rfl (going _)
  | passed status phase updates => exact .inl ⟨_, .pass status phase⟩
  | committed found phase through => exact .inl ⟨_, .commit found phase⟩
  | closed closures run => exact .inl ⟨_, .close closures⟩
  | destroyed found phase through => exact .inl ⟨_, .destroy found phase⟩
  | persisted => exact .inr rfl

theorem moves_hold_more
    (moves : MovesBlock cryptoShorthash library store programs block move next) :
    next.books.held.length ≤ block.books.held.length + 1 := by
  have erased {position : Nat} :
      (block.books.held.eraseIdx position).length ≤ block.books.held.length + 1 :=
    (List.length_eraseIdx_le _ _).trans (Nat.le_succ _)
  cases block_move_cases moves with
  | accepted status phase applied => exact le_refl _
  | committed found phase through => exact erased
  | destroyed found phase through => exact erased
  | _ => exact Nat.le_succ _

theorem moves_allocate_one
    (moves : MovesBlock cryptoShorthash library store programs block move next)
    (thread : Fin tlcacheSize) : next.allocated thread ≤ block.allocated thread + 1 := by
  have pushed (ids : CallIds) (key : AddressAndKey) (delta : StorageDelta) (after : Database) :
      (block.withPush store ids key delta after).allocated thread ≤
        block.allocated thread + 1 := by
    unfold BlockExecution.withPush
    simp only
    split_ifs
    · by_cases same : thread = ids.thread
      · subst same
        exact (Function.update_self _ _ _).le
      · rw [Function.update_of_ne same]
        exact Nat.le_succ _
    · exact Nat.le_succ _
  cases block_move_cases moves with
  | @accepted _ ids key delta _ _ after status phase applied => exact pushed ids key delta after
  | @rejected _ ids key delta _ after status phase applied => exact pushed ids key delta after
  | _ => exact Nat.le_succ _

omit [DecidableEq Tx] in
theorem few_have_room (few : block.books.held.length < 255)
    (entries : ∀ thread, block.allocated thread < allocSize) : RoomToPush store block move := by
  cases move with
  | push tx ids =>
      intro key delta rest _
      refine ⟨fun _ => ?_, fun _ => entries ids.thread⟩
      left
      have counted : holderCount ↑(Rewinds.on key block.held) ≤ block.books.held.length := by
        refine (Multiset.countP_le_card _ _).trans ?_
        have mapped : (block.books.held.map Prod.snd).length = block.books.held.length :=
          List.length_map _
        rw [Multiset.coe_card, ← mapped]
        exact List.length_filterMap_le _ _
      omega
  | _ => trivial

theorem short_run_validates (everyone : ∀ tx, tx ∈ listed) (going : ∀ tx, .giveUp tx ∉ moves)
    (short : block.books.held.length + moves.length < 256)
    (entries : ∀ thread, block.allocated thread + moves.length < allocSize)
    (run : Run (MovesBlock cryptoShorthash library store programs) block moves next) :
    Run (MovesValidating cryptoShorthash library store programs listed) block moves next := by
  induction run with
  | nil state => exact .nil state
  | @cons state _ _ _ _ first rest induction =>
      simp only [List.length_cons] at short entries
      have more := moves_hold_more first
      have due := moves_due first fun tx same => going tx (same ▸ List.mem_cons_self)
      have room : ∀ thread, state.allocated thread < allocSize :=
        fun thread => (Nat.le_add_right _ _).trans_lt (entries thread)
      refine .cons ⟨first, due.imp_left fun ⟨tx, owns⟩ => ⟨tx, everyone tx, owns⟩,
        few_have_room (by omega) room⟩ (induction ?_ ?_ ?_)
      · exact fun tx member => going tx (List.mem_cons_of_mem _ member)
      · omega
      · intro thread
        have one := moves_allocate_one first thread
        have bound := entries thread
        omega

end Short

def proposalMoves : List (BlockMove Bool) :=
  interleavedMoves ++ [.push true .first, .pass true, .commit 0]

def validatorMoves : List (BlockMove Bool) :=
  [.call true, .call true, .call true, .push true .first, .pass true, .call false, .call false,
    .call false, .push false .first, .pass false, .commit 0, .commit 0]

def emptyState : GlobalContext StateDB where
  stateDb := .ofCommitted 0 fun _ => none
  contractDb := .empty

def emptyStateV2 : GlobalContext StateDBv2 where
  stateDb := { stateDb := fun _ => none }
  contractDb := .empty

theorem empty_same_state : SameState (StateDB.node (fun _ => 0) fun _ _ => 0)
    (StateDBv2.node fun _ => 0) emptyState emptyStateV2 where
  values := by
    funext key
    rfl
  contracts := rfl
  slots key := by
    have here : (StateDB.node (fun _ => 0) fun _ _ => 0).view.objects emptyState.stateDb key =
        .fresh := rfl
    have there : (StateDBv2.node fun _ => 0).view.objects emptyStateV2.stateDb key = .fresh := rfl
    unfold Node.freeSlots ObjectStore.freeSlots
    rw [here, there]
  noAssets key object impossible := by cases impossible

theorem read_then_add_no_assets (tx : Bool) : (readThenAdd tx).NoAssets := by
  intro results key d
  unfold readThenAdd
  split <;> exact fun impossible => by cases impossible

theorem reordered_validation : ∃ proposed block,
    readThenAddRun proposalMoves = some proposed ∧ proposed.books.order = [false, true] ∧
    block.books.order = [true, false] ∧
    Run (MovesValidating (fun _ => 0) noContracts (StateDBv2.store fun _ => 0) readThenAdd
      proposed.books.order) (.start emptyStateV2) validatorMoves block ∧
    Validation (StateDB.node (fun _ => 0) fun _ _ => 0) (StateDBv2.node fun _ => 0) noContracts
      readThenAdd emptyState emptyStateV2 proposed block := by
  have proposal : (readThenAddRun proposalMoves).map (fun block => (block.books.order,
      block.books.held.length, block.closures true, block.closures false)) =
        some ([false, true], 0, [], []) := by
    decide +kernel
  have validator : (BlockExecution.performAll (fun _ => 0) noContracts (StateDBv2.store fun _ => 0)
      readThenAdd validatorMoves (.start emptyStateV2)).map (fun block => block.books.order) =
        some [true, false] := by
    decide +kernel
  obtain ⟨proposed, ran, facts⟩ := Option.map_eq_some_iff.mp proposal
  obtain ⟨block, validated, reordered⟩ := Option.map_eq_some_iff.mp validator
  simp only [Prod.mk.injEq] at facts
  obtain ⟨order, held, first, second⟩ := facts
  have quiescent : proposed.Quiescent := by
    refine ⟨List.length_eq_zero_iff.mp held, fun tx => ?_⟩
    cases tx with
    | false => exact second
    | true => exact first
  have run : Run (MovesValidating (fun _ => 0) noContracts (StateDBv2.store fun _ => 0) readThenAdd
      proposed.books.order) (.start emptyStateV2) validatorMoves block := by
    apply short_run_validates _ _ _ _ (run_of_perform_all validated)
    · rw [order]
      decide
    · intro tx member
      simp only [validatorMoves, List.mem_cons, reduceCtorEq, List.not_mem_nil, or_self] at member
    · decide
    · intro thread
      have none :
          (BlockExecution.start emptyStateV2 : BlockExecution Bool _).allocated thread = 0 :=
        rfl
      rw [none]
      decide
  refine ⟨proposed, block, ran, order, reordered, run, ?_⟩
  exact
    { proposerRests := ⟨rested_empty (cache_apart_empty 0 rfl) fun _ => rfl, rfl, rfl⟩
      validatorRests := ⟨rested_empty trivial fun _ => rfl, trivial, rfl⟩
      same := empty_same_state
      noAssets := fun tx _ => read_then_add_no_assets tx
      proposal := ⟨_, run_of_perform_all ran⟩
      quiescent := quiescent
      run := ⟨_, run⟩ }

end Scs
