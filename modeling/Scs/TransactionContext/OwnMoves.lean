import Scs.TransactionContext.ExecuteReturns

/-!
# A move is of one transaction (`transaction_context/execution_context.cc`)

`execute` runs for one transaction. Its moves leave the context, the phase, the
closures and the rewinds of every other transaction as they were.
-/

namespace Scs

set_option autoImplicit false

open Lockstep Runs TwoPhase

variable {Tx Database : Type} [DecidableEq Tx]

/-- A move of `execute` for this transaction, which may give up while it pushes, or of
the thread that saves contracts beside it. -/
def OwnMove (block : BlockExecution Tx Database) (tx : Tx) (move : BlockMove Tx) : Prop :=
  DueMove block tx move ∨ move = .giveUp tx ∨ move = .persist

/-- The transaction that a move is of. The thread that saves contracts has none. -/
def BlockMove.owner? (block : BlockExecution Tx Database) : BlockMove Tx → Option Tx
  | .call tx | .push tx _ | .giveUp tx | .pass tx | .close tx _ => some tx
  | .commit position | .destroy position _ => (block.books.held[position]?).map Prod.fst
  | .persist => none

def BlockExecution.heldBy (block : BlockExecution Tx Database) (tx : Tx) : ℕ :=
  block.books.held.countP fun ticket => ticket.1 = tx

structure LeftAlone (tx : Tx) (block next : BlockExecution Tx Database) : Prop where
  context : next.contexts tx = block.contexts tx
  phase : next.books.phase tx = block.books.phase tx
  closures : next.closures tx = block.closures tx
  held : next.heldBy tx = block.heldBy tx

theorem held_by_accept (block : BlockExecution Tx Database) (owner : Tx)
    (ticket : AddressAndKey × DeltaRewind) (rest : List (AddressAndKey × StorageDelta)) (tx : Tx) :
    (block.books.accept owner ticket rest).held.countP (fun entry => entry.1 = tx) =
      block.heldBy tx + if owner = tx then 1 else 0 := by
  simp only [Books.accept, List.countP_cons, decide_eq_true_eq]
  rfl

theorem held_by_erase (block : BlockExecution Tx Database) {position : Nat} {owner : Tx}
    {ticket : AddressAndKey × DeltaRewind}
    (found : block.books.held[position]? = some (owner, ticket)) (tx : Tx) :
    (block.books.held.eraseIdx position).countP (fun entry => entry.1 = tx) +
      (if owner = tx then 1 else 0) = block.heldBy tx := by
  have counted := (erase_perm found).countP_eq fun entry => decide (entry.1 = tx)
  rw [List.countP_cons] at counted
  simp only [decide_eq_true_eq] at counted
  exact counted

theorem not_held_iff {held : List (Tx × AddressAndKey × DeltaRewind)} {tx : Tx} :
    held.countP (fun ticket => ticket.1 = tx) = 0 ↔ ∀ ticket ∈ held, ticket.1 ≠ tx := by
  rw [List.countP_eq_zero]
  simp only [decide_eq_true_eq]

section Moves

variable {cryptoShorthash : CryptoShorthash} {library : ContractLibrary}
  {store : StateStore Database} {programs : Tx → Program}
  {block next : BlockExecution Tx Database} {move : BlockMove Tx} {owner tx : Tx}

omit [DecidableEq Tx] in
theorem own_owner (own : DueMove block owner move ∨ move = .giveUp owner) :
    move.owner? block = some owner := by
  rcases own with due | rfl
  · cases due with
    | commit found _ => exact congrArg (Option.map Prod.fst) found
    | destroy found _ => exact congrArg (Option.map Prod.fst) found
    | _ => rfl
  · rfl

omit [DecidableEq Tx] in
theorem holder_owns {position : Nat} {holder : Tx} {ticket : AddressAndKey × DeltaRewind}
    (found : block.books.held[position]? = some (holder, ticket))
    (owns : (block.books.held[position]?).map Prod.fst = some owner) : holder = owner := by
  rw [found] at owns
  exact Option.some.inj owns

theorem persist_leaves_alone
    (moves : MovesBlock cryptoShorthash library store programs block .persist next) (tx : Tx) :
    LeftAlone tx block next := by
  cases block_move_cases moves with
  | persisted => exact ⟨rfl, rfl, rfl, rfl⟩

theorem moves_left_alone (moves : MovesBlock cryptoShorthash library store programs block move
    next) (own : OwnMove block owner move) (apart : tx ≠ owner) : LeftAlone tx block next := by
  have stranger : ¬ owner = tx := fun same => apart same.symm
  rcases or_assoc.mpr own with mine | rfl
  swap
  · exact persist_leaves_alone moves tx
  have owns := own_owner mine
  cases block_move_cases moves with
  | went running status =>
      cases owns
      exact ⟨Function.update_of_ne apart _ _, rfl, rfl, rfl⟩
  | returned running status =>
      cases owns
      exact ⟨Function.update_of_ne apart _ _, Function.update_of_ne apart _ _, rfl, rfl⟩
  | threw running status =>
      cases owns
      exact ⟨Function.update_of_ne apart _ _, Function.update_of_ne apart _ _, rfl, rfl⟩
  | @accepted _ ids key delta rest rewind after status phase applied =>
      cases owns
      have held := held_by_accept block owner (key, rewind) rest tx
      rw [if_neg stranger, add_zero] at held
      exact ⟨rfl, Function.update_of_ne apart _ _, rfl, held⟩
  | rejected status phase applied =>
      cases owns
      exact ⟨rfl, Function.update_of_ne apart _ _, rfl, rfl⟩
  | gaveUp status phase =>
      cases owns
      exact ⟨rfl, Function.update_of_ne apart _ _, rfl, rfl⟩
  | passed status phase updates =>
      cases owns
      exact ⟨rfl, Function.update_of_ne apart _ _, Function.update_of_ne apart _ _, rfl⟩
  | committed found phase through =>
      cases holder_owns found owns
      have held := held_by_erase block found tx
      rw [if_neg stranger, add_zero] at held
      exact ⟨rfl, rfl, rfl, held⟩
  | closed closures run =>
      cases owns
      exact ⟨rfl, rfl, Function.update_of_ne apart _ _, rfl⟩
  | destroyed found phase through =>
      cases holder_owns found owns
      have held := held_by_erase block found tx
      rw [if_neg stranger, add_zero] at held
      exact ⟨rfl, rfl, rfl, held⟩
  | persisted => cases owns

theorem left_alone_finished (same : LeftAlone tx block next) (finished : block.Finished tx) :
    next.Finished tx := by
  constructor
  · rw [same.phase]
    exact finished.phase
  · apply not_held_iff.mp
    have held : block.heldBy tx = 0 := not_held_iff.mpr finished.held
    exact same.held.trans held
  · rw [same.closures, finished.closures]

end Moves

end Scs
