import Scs.Library.SharedWork
import Scs.TransactionContext.OwnMoves
import Scs.TransactionContext.ProposedBlock

/-!
# A validation comes to its end (`vm/validate_reduce.h`)

The proposer has run every listed transaction, so it is known how many moves the
validator has to make for it. Each move of the validator is one of them.
-/

namespace Scs

set_option autoImplicit false

open Lockstep Runs TwoPhase

section Todo

variable {Tx Database : Type} [DecidableEq Tx]

def ContractDBProxy.closureCount (proxy : ContractDBProxy) : ℕ :=
  proxy.newDeployments.entries.length + proxy.newContracts.entries.length

/-- The moves from the return of a transaction on: every delta is pushed and committed, and
the threshold lies between. -/
def TransactionContext.tail (context : TransactionContext) : ℕ :=
  2 * context.pushes.length + 1 + context.contractDbProxy.closureCount

def TransactionContext.workload (context : TransactionContext) : ℕ :=
  context.results.length + 1 + context.tail

/-- The moves that are left to a transaction that has returned, its rewinds apart. -/
def BlockExecution.unsettled (last : Tx → TransactionContext)
    (block : BlockExecution Tx Database) (tx : Tx) : ℕ :=
  match block.books.phase tx with
  | .pushing rest => 2 * rest.length + 1 + (last tx).contractDbProxy.closureCount
  | _ => (block.closures tx).length

/-- The moves that a transaction has still to make before it has ended like `last`. -/
def BlockExecution.todo (last : Tx → TransactionContext) (block : BlockExecution Tx Database)
    (tx : Tx) : ℕ :=
  block.heldBy tx +
    match (block.contexts tx).status with
    | .running =>
        (last tx).results.length - (block.contexts tx).results.length + 1 + (last tx).tail
    | _ => block.unsettled last tx

theorem todo_running {last : Tx → TransactionContext} {block : BlockExecution Tx Database}
    {tx : Tx} (running : (block.contexts tx).status = .running) :
    block.todo last tx = block.heldBy tx + ((last tx).results.length -
      (block.contexts tx).results.length + 1 + (last tx).tail) := by
  rw [BlockExecution.todo, running]

theorem todo_returned {last : Tx → TransactionContext} {block : BlockExecution Tx Database}
    {tx : Tx} (returned : (block.contexts tx).status = .returned) :
    block.todo last tx = block.heldBy tx + block.unsettled last tx := by
  rw [BlockExecution.todo, returned]

theorem closure_count {proxy pushed : ContractDBProxy} {deploys : List (Address × Hash)}
    {creates : List (Hash × MeteredContract × Contract)}
    (updates : proxy.pushUpdatesToDb = .ok (deploys, creates, pushed)) :
    (contractClosures deploys creates).length = proxy.closureCount := by
  unfold ContractDBProxy.pushUpdatesToDb at updates
  split_ifs at updates
  cases updates
  simp only [contractClosures, List.length_append, List.length_map, ContractDBProxy.closureCount]

end Todo

section Steps

variable {cryptoShorthash : CryptoShorthash} {proposer validator : Node cryptoShorthash}
  {library : ContractLibrary} {Tx : Type} [DecidableEq Tx] {programs : Tx → Program}
  {left : GlobalContext proposer.Database} {right : GlobalContext validator.Database}
  {proposed : BlockExecution Tx proposer.Database}
  {block next : BlockExecution Tx validator.Database} {move : BlockMove Tx}

theorem Validation.results_le
    (validation : Validation proposer validator library programs left right proposed block)
    {tx : Tx} (listed : tx ∈ proposed.books.order) :
    (block.contexts tx).results.length ≤ (proposed.contexts tx).results.length := by
  obtain ⟨_, proposal⟩ := validation.proposal
  obtain ⟨calls, made, there, here⟩ := validation.iterates tx
  rcases Nat.le_total made calls with fewer | more
  · rw [here, there]
    exact (advances_results _ fewer).length_le
  · have ended : ((TransactionContext.advance library (validator.values right)
        right.contractDb.snapshot (programs tx))^[calls] .start).status ≠ .running := by
      rw [← there, order_returned proposal tx listed]
      exact ContextStatus.noConfusion
    rw [here, there, advances_stopped .start more ended]

theorem todo_alone {tx : Tx} (same : LeftAlone tx block next) (last : Tx → TransactionContext) :
    next.todo last tx = block.todo last tx := by
  unfold BlockExecution.todo BlockExecution.unsettled
  rw [same.held, same.context, same.phase, same.closures]

theorem todo_other (moves : MovesBlock cryptoShorthash library validator.store programs block move
    next) {owner : Tx} (due : DueMove block owner move) (last : Tx → TransactionContext) {tx : Tx}
    (apart : tx ≠ owner) : next.todo last tx = block.todo last tx :=
  todo_alone (moves_left_alone moves (.inl due) apart) last

theorem Validation.todo_owner
    (validation : Validation proposer validator library programs left right proposed block)
    (after : Validation proposer validator library programs left right proposed next)
    (moves : MovesBlock cryptoShorthash library validator.store programs block move next)
    {tx : Tx} (listed : tx ∈ proposed.books.order) (due : DueMove block tx move) :
    next.todo proposed.contexts tx + 1 = block.todo proposed.contexts tx := by
  obtain ⟨_, run⟩ := validation.moved
  have willing := validation.willing
  have balanced := (run_balanced validator.view.toObjectStore run).balanced
  have books := run_contract_books validation.validatorRests.clear run
  have further := after.results_le listed
  have same (returned : (block.contexts tx).status = .returned) :
      block.contexts tx = proposed.contexts tx := by
    apply validation.stopped listed
    rw [returned]
    exact ContextStatus.noConfusion
  cases block_move_cases moves with
  | went running status =>
      cases due
      have advances : TransactionContext.AdvanceCases library
          (block.committedValues validator.store) block.globalContext.contractDb (programs tx)
          (block.contexts tx) (block.advanced library validator.store programs tx) :=
        TransactionContext.advance_cases _ _
      generalize block.advanced library validator.store programs tx = final at *
      rw [todo_running running,
        todo_running (by simp only [Function.update_self]; exact status)]
      simp only [Function.update_self, BlockExecution.heldBy] at further ⊢
      cases advances with
      | stopped stops => exact absurd running stops
      | returned _ halts => cases status
      | threw _ => cases status
      | performed _ called performed =>
          simp only [List.length_append, List.length_singleton] at further ⊢
          omega
  | returned running status =>
      cases due
      have advances : TransactionContext.AdvanceCases library
          (block.committedValues validator.store) block.globalContext.contractDb (programs tx)
          (block.contexts tx) (block.advanced library validator.store programs tx) :=
        TransactionContext.advance_cases _ _
      have ended := after.stopped listed
      generalize block.advanced library validator.store programs tx = final at *
      rw [todo_running running,
        todo_returned (by simp only [Function.update_self]; exact status)]
      simp only [Function.update_self, BlockExecution.heldBy, BlockExecution.unsettled,
        Books.begin] at ended ⊢
      have last := ended (by rw [status]; exact ContextStatus.noConfusion)
      have results : (block.contexts tx).results = final.results := by
        cases advances with
        | stopped stops => exact absurd running stops
        | returned _ halts => rfl
        | threw _ => rfl
        | performed _ called performed =>
            have still := TransactionContext.perform_status performed
            rw [running] at still
            rw [still] at status
            cases status
      rw [results, last, TransactionContext.tail, ← last, pushes_returned status]
      omega
  | threw running status =>
      cases due
      exact absurd status (validation.calls_on listed running _)
  | @accepted _ ids key delta rest rewind after status phase applied =>
      cases due
      have held := held_by_accept block tx (key, rewind) rest tx
      rw [if_pos rfl] at held
      rw [todo_returned status, todo_returned (by exact status), BlockExecution.unsettled,
        BlockExecution.unsettled, phase]
      simp only [BlockExecution.heldBy, BlockExecution.withPush,
        BlockExecution.withStateDb] at held ⊢
      rw [held]
      simp only [Books.accept, Function.update_self, List.length_cons]
      omega
  | rejected status phase applied =>
      cases due
      exact absurd applied (validation.next_accepted willing listed phase)
  | gaveUp status phase => cases due
  | passed status phase updates =>
      cases due
      rw [todo_returned status, todo_returned (by exact status), BlockExecution.unsettled,
        BlockExecution.unsettled, phase]
      simp only [BlockExecution.heldBy, Books.decide, Function.update_self, closure_count updates,
        same status, List.length_nil]
      omega
  | @committed position holder key rewind after found phase through =>
      cases due with
      | commit own _ =>
          rw [found] at own
          cases own
          have status := order_returned run tx ((balanced.listed tx).mpr phase)
          have held := held_by_erase block found tx
          rw [if_pos rfl] at held
          rw [todo_returned status, todo_returned (by exact status), BlockExecution.unsettled,
            BlockExecution.unsettled, ← held]
          simp only [BlockExecution.heldBy, BlockExecution.withStateDb, Books.commitAt, phase]
          omega
  | @closed _ thread closure rest contractDb closures ran =>
      cases due
      have first : closure ∈ block.closures tx := closures ▸ List.mem_cons_self
      obtain ⟨status, phase⟩ := books.passed tx (books.closing tx closure first).1
      rw [todo_returned status, todo_returned (by exact status), BlockExecution.unsettled,
        BlockExecution.unsettled]
      simp only [BlockExecution.heldBy, phase, closures, Function.update_self, List.length_cons]
      omega
  | @destroyed position newId holder key rewind after found phase through =>
      cases due with
      | destroy own aborting => exact absurd aborting (willing.phases tx listed)
  | persisted => cases due

/-- What has no move left to make has ended, and the other way round. -/
theorem Validation.todo_zero_iff
    (validation : Validation proposer validator library programs left right proposed block)
    {tx : Tx} (listed : tx ∈ proposed.books.order) :
    block.todo proposed.contexts tx = 0 ↔ block.Finished tx := by
  obtain ⟨_, run⟩ := validation.moved
  have willing := validation.willing.phases tx listed
  have balanced := (run_balanced validator.view.toObjectStore run).balanced
  constructor
  · intro nothing
    cases status : (block.contexts tx).status with
    | running =>
        rw [todo_running status] at nothing
        omega
    | _ =>
        have returned := validation.returned listed fun running =>
          ContextStatus.noConfusion (status.symm.trans running)
        rw [todo_returned returned, Nat.add_eq_zero_iff] at nothing
        obtain ⟨held, settled⟩ := nothing
        rw [BlockExecution.unsettled] at settled
        cases phase : block.books.phase tx with
        | pushing rest =>
            simp only [phase] at settled
            omega
        | aborting => exact absurd phase willing
        | committing =>
            simp only [phase] at settled
            exact
              { phase := .inl phase
                held := not_held_iff.mp held
                closures := List.length_eq_zero_iff.mp settled }
  · intro finished
    have phase := finished.phase.resolve_right willing
    have returned := order_returned run tx ((balanced.listed tx).mpr phase)
    have held : block.heldBy tx = 0 := not_held_iff.mpr finished.held
    rw [todo_returned returned, held, BlockExecution.unsettled]
    simp only [phase, finished.closures, List.length_nil]

theorem todo_start (last : Tx → TransactionContext) (tx : Tx) :
    (BlockExecution.start right : BlockExecution Tx validator.Database).todo last tx =
      (last tx).workload := by
  have held : (BlockExecution.start right : BlockExecution Tx validator.Database).heldBy tx = 0 :=
    rfl
  have results : ((BlockExecution.start right :
      BlockExecution Tx validator.Database).contexts tx).results.length = 0 := rfl
  rw [todo_running rfl, held, results, TransactionContext.workload]
  omega

def BlockExecution.workload {Database : Type} (proposed : BlockExecution Tx Database) : ℕ :=
  (proposed.books.order.map fun tx => (proposed.contexts tx).workload).sum

def BlockMove.executes : BlockMove Tx → Bool
  | .persist => false
  | _ => true

/-- The moves made and those left to make are the ones that the block takes. -/
theorem Validation.workload
    (validation : Validation proposer validator library programs left right proposed block)
    {moves : List (BlockMove Tx)}
    (run : Run (MovesValidating cryptoShorthash library validator.store programs
      proposed.books.order) (.start right) moves block) :
    moves.countP BlockMove.executes +
      (proposed.books.order.map (block.todo proposed.contexts)).sum = proposed.workload := by
  have worked := run_works (fun state tx => state.todo proposed.contexts tx) BlockMove.executes
    validation.order_distinct ?_ ?_ (run_between run)
  · simp only [todo_start] at worked
    exact worked
  · rintro state move next ⟨moves, ⟨earlier, reached⟩, _⟩ executes
    have before := validation.elsewhere ⟨_, reached⟩
    have after := validation.elsewhere ⟨_, run_snoc reached moves⟩
    obtain ⟨moves, ⟨owner, listed, due⟩ | rfl, _⟩ := moves
    · exact ⟨owner, listed, before.todo_owner after moves listed due,
        fun other _ apart => todo_other moves due proposed.contexts apart⟩
    · cases executes
  · rintro state move next ⟨⟨moves, due, _⟩, _, _⟩ saves tx _
    have persists : move = .persist := by
      cases move <;> first | rfl | cases saves
    subst persists
    exact todo_alone (persist_leaves_alone moves tx) proposed.contexts

structure ComesToEnd {Database : Type} (validator : Node cryptoShorthash)
    (library : ContractLibrary) (programs : Tx → Program) (proposed : BlockExecution Tx Database)
    (block : BlockExecution Tx validator.Database) (made : ℕ) : Prop where
  bounded : made ≤ proposed.workload
  done : made = proposed.workload ↔ ∀ tx ∈ proposed.books.order, block.Finished tx
  goesOn : made < proposed.workload →
    (∃ tx ∈ proposed.books.order, ∃ move next, DueMove block tx move ∧
      MovesValidating cryptoShorthash library validator.store programs proposed.books.order
        block move next) ∨
    ∃ tx ∈ proposed.books.order, ∃ move,
      DueMove block tx move ∧ ¬ RoomToPush validator.store block move

/-- A validator that executes the listed transactions in any interleaving has executed all
of them after a number of moves that the proposed block fixes, unless a count or the
allocator of a thread is full. -/
theorem validation_comes_to_end
    (validation : Validation proposer validator library programs left right proposed block)
    {moves : List (BlockMove Tx)}
    (run : Run (MovesValidating cryptoShorthash library validator.store programs
      proposed.books.order) (.start right) moves block) :
    ComesToEnd validator library programs proposed block (moves.countP BlockMove.executes) := by
  have worked := validation.workload run
  have done : moves.countP BlockMove.executes = proposed.workload ↔
      ∀ tx ∈ proposed.books.order, block.Finished tx := by
    have nothing : moves.countP BlockMove.executes = proposed.workload ↔
        (proposed.books.order.map (block.todo proposed.contexts)).sum = 0 := by
      omega
    rw [nothing, List.sum_eq_zero_iff_forall_eq_nat]
    simp only [List.mem_map, forall_exists_index, and_imp, forall_apply_eq_imp_iff₂]
    exact forall₂_congr fun tx listed => validation.todo_zero_iff listed
  constructor
  · omega
  · exact done
  · intro fewer
    by_contra stuck
    obtain ⟨moveless, roomy⟩ := not_or.mp stuck
    apply fewer.ne
    apply done.mpr
    intro tx listed
    rcases validation.due_or_committed listed with ⟨move, due⟩ | ⟨finished, _⟩
    · have room : RoomToPush validator.store block move := by
        by_contra full
        exact roomy ⟨tx, listed, move, due, full⟩
      obtain ⟨next, moves⟩ := validation.due_returns listed due room
      exact absurd ⟨tx, listed, move, next, due, moves, .inl ⟨tx, listed, due⟩, room⟩ moveless
    · exact finished

end Steps

theorem validation_comes_to_end_reordered : ∃ proposed block,
    readThenAddRun proposalMoves = some proposed ∧ proposed.workload = validatorMoves.length ∧
    ComesToEnd (StateDBv2.node fun _ => 0) noContracts readThenAdd proposed block
      validatorMoves.length := by
  have workload : (readThenAddRun proposalMoves).map BlockExecution.workload =
      some validatorMoves.length := by
    decide +kernel
  obtain ⟨proposed, block, ran, _, _, run, validation⟩ := reordered_validation
  rw [ran] at workload
  exact ⟨proposed, block, ran, Option.some.inj workload, validation_comes_to_end validation run⟩

end Scs
