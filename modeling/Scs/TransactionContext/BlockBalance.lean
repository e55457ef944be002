import Scs.Object.NewHashTable
import Scs.StateDb.ObjectStore
import Scs.TransactionContext.Serializability

/-!
# What a block commits

Once every rewind is gone, the committed deltas are exactly those of the
transactions that passed, each pushed as the proxy of its context lists it.
-/

namespace Scs

set_option autoImplicit false

open Runs TwoPhase

variable {cryptoShorthash : CryptoShorthash} {library : ContractLibrary} {Tx : Type*}
  {Database : Type} [DecidableEq Tx] {store : StateStore Database} {programs : Tx → Program}
  {block next : BlockExecution Tx Database}

def TransactionContext.pushes (context : TransactionContext) :
    List (AddressAndKey × StorageDelta) :=
  match context.status with
  | .returned => context.storageProxy.deltas
  | _ => []

def BlockExecution.pushes (block : BlockExecution Tx Database) (tx : Tx) :
    List (AddressAndKey × StorageDelta) :=
  (block.contexts tx).pushes

/-- The books balance with what the contexts push, and who runs has not pushed. What a
transaction pushes is fixed when its contracts have returned. -/
structure BlockBalanced (block : BlockExecution Tx Database) : Prop where
  balanced : Balanced ticketItem block.pushes block.books
  running : ∀ tx, (block.contexts tx).status = .running → block.books.phase tx = .pushing []

theorem block_balanced_start (globalContext : GlobalContext Database) :
    BlockBalanced (.start globalContext : BlockExecution Tx Database) where
  balanced := balanced_start
  running _ _ := rfl

theorem pushes_running {context : TransactionContext} (running : context.status = .running) :
    context.pushes = [] := by
  rw [TransactionContext.pushes, running]

theorem pushes_returned {context : TransactionContext} (status : context.status = .returned) :
    context.pushes = context.storageProxy.deltas := by
  rw [TransactionContext.pushes, status]

theorem pushes_update (tx : Tx) (context : TransactionContext) :
    (fun other => (Function.update block.contexts tx context other).pushes) =
      Function.update block.pushes tx context.pushes := by
  funext other
  by_cases same : other = tx
  · subst same
    simp only [Function.update_self]
  · simp only [Function.update_of_ne same]
    rfl

/-- A running transaction whose next context pushes nothing either. -/
theorem pushes_still {tx : Tx} {context : TransactionContext}
    (running : (block.contexts tx).status = .running) (idle : context.pushes = []) :
    (fun other => (Function.update block.contexts tx context other).pushes) = block.pushes := by
  rw [pushes_update, idle, ← pushes_running running]
  exact Function.update_eq_self tx block.pushes

theorem running_update {tx : Tx}
    (kept : ∀ tx, (block.contexts tx).status = .running → block.books.phase tx = .pushing [])
    {context : TransactionContext} {phase : Phase (AddressAndKey × StorageDelta)}
    (own : context.status = .running → phase = .pushing []) (other : Tx)
    (running : (Function.update block.contexts tx context other).status = .running) :
    Function.update block.books.phase tx phase other = .pushing [] := by
  by_cases same : other = tx
  · subst same
    rw [Function.update_self] at running ⊢
    exact own running
  · rw [Function.update_of_ne same] at running ⊢
    exact kept other running

theorem running_apart {tx : Tx}
    (kept : ∀ tx, (block.contexts tx).status = .running → block.books.phase tx = .pushing [])
    (status : (block.contexts tx).status = .returned) (phase : Phase (AddressAndKey × StorageDelta))
    (other : Tx) (running : (block.contexts other).status = .running) :
    Function.update block.books.phase tx phase other = .pushing [] := by
  have apart : other ≠ tx := by
    rintro rfl
    rw [status] at running
    cases running
  rw [Function.update_of_ne apart]
  exact kept other running

theorem moves_balanced (view : ObjectStore cryptoShorthash store)
    (block : BlockExecution Tx Database) (move : BlockMove Tx)
    (next : BlockExecution Tx Database) (kept : BlockBalanced block)
    (moves : MovesBlock cryptoShorthash library store programs block move next) :
    BlockBalanced next := by
  obtain ⟨balanced, idle⟩ := kept
  cases block_move_cases moves with
  | @went tx running status =>
      constructor
      · have same := pushes_still running (pushes_running status)
        unfold BlockExecution.pushes
        simp only [same]
        exact balanced
      · intro other now
        have phase := running_update idle (fun _ => idle tx running) other now
        rw [← idle tx running, Function.update_eq_self] at phase
        rw [phase, idle tx running]
  | @returned tx running status =>
      have pushes := pushes_returned status
      constructor
      · have next := balanced_begin balanced (idle tx running) (pushes_running running)
          (block.advanced library store programs tx).pushes
        rw [← pushes_update, pushes] at next
        exact next
      · apply running_update idle
        intro impossible
        rw [status] at impossible
        cases impossible
  | @threw tx what running status =>
      have nothing : (block.advanced library store programs tx).pushes = [] := by
        rw [TransactionContext.pushes, status]
      constructor
      · have same := pushes_still running nothing
        unfold BlockExecution.pushes
        simp only [same]
        exact balanced_refuse balanced (idle tx running)
      · apply running_update idle
        intro impossible
        rw [status] at impossible
        cases impossible
  | @accepted tx ids key delta rest rewind after status phase applied =>
      obtain ⟨changed, returned, _⟩ := view.push applied
      have item : block.books.phase tx = .pushing (ticketItem (key, rewind) :: rest) := by
        rw [ticketItem, try_add_delta_own returned]
        exact phase
      exact ⟨balanced_accept balanced item, running_apart idle status _⟩
  | rejected status phase applied =>
      exact ⟨balanced_refuse balanced phase, running_apart idle status _⟩
  | gaveUp status phase => exact ⟨balanced_refuse balanced phase, running_apart idle status _⟩
  | passed status phase updates =>
      exact ⟨balanced_decide balanced phase, running_apart idle status _⟩
  | committed found phase through => exact ⟨balanced_commit balanced found phase, idle⟩
  | closed closures run => exact ⟨balanced, idle⟩
  | persisted => exact ⟨balanced, idle⟩
  | destroyed found phase through => exact ⟨balanced_destroy balanced found phase, idle⟩

theorem run_balanced (view : ObjectStore cryptoShorthash store)
    {globalContext : GlobalContext Database} {moves : List (BlockMove Tx)}
    (run : Run (MovesBlock cryptoShorthash library store programs) (.start globalContext) moves
      block) : BlockBalanced block :=
  run_invariant BlockBalanced (moves_balanced view) (block_balanced_start globalContext) run

theorem quiescent_committed (view : ObjectStore cryptoShorthash store)
    {globalContext : GlobalContext Database} {moves : List (BlockMove Tx)}
    (run : Run (MovesBlock cryptoShorthash library store programs) (.start globalContext) moves
      block) (quiescent : block.Quiescent) :
    block.books.committed = promised block.pushes block.books.order :=
  finished_committed (run_balanced view run).balanced quiescent.1

theorem order_returned {globalContext : GlobalContext Database} {moves : List (BlockMove Tx)}
    (run : Run (MovesBlock cryptoShorthash library store programs) (.start globalContext) moves
      block) : ∀ tx ∈ block.books.order, (block.contexts tx).status = .returned := by
  apply run_invariant (fun block : BlockExecution Tx Database =>
    ∀ tx ∈ block.books.order, (block.contexts tx).status = .returned) _ _ run
  · intro block move next kept moves
    have called {caller : Tx} {context : TransactionContext}
        (running : (block.contexts caller).status = .running) :
        ∀ tx ∈ block.books.order,
          (Function.update block.contexts caller context tx).status = .returned := by
      intro tx listed
      have apart : tx ≠ caller := by
        rintro rfl
        rw [kept tx listed] at running
        cases running
      rw [Function.update_of_ne apart]
      exact kept tx listed
    cases block_move_cases moves with
    | went running status => exact called running
    | returned running status => exact called running
    | threw running status => exact called running
    | passed status phase updates =>
        intro tx listed
        rcases List.mem_append.mp listed with earlier | now
        · exact kept tx earlier
        · rw [List.mem_singleton.mp now]
          exact status
    | _ => exact kept
  · intro tx impossible
    cases impossible

end Scs
