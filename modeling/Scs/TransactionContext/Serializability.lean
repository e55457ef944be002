import Mathlib.Data.List.Forall2
import Scs.Library.Runs
import Scs.Library.TwoPhase
import Scs.TransactionContext.SerialReplay

/-!
# Serializability of a block (`transaction_context/execution_context.cc`)

Any number of transactions push, commit and destroy their deltas on shared
objects, one call at a time, and take the indices of their insertions from the
allocators of their threads. `try_add_transaction` on the transaction set forms
the threshold for commit, and the order of the threshold is a serial order.
-/

namespace Scs

set_option autoImplicit false

open Ledger Runs TwoPhase

def ticketItem (ticket : AddressAndKey × DeltaRewind) : AddressAndKey × StorageDelta :=
  (ticket.1, ticket.2.delta)

/-- The objects of the state, the entries that the thread of each transaction has
allocated, and the books of the transactions. -/
structure System (Tx : Type*) where
  objects : Objects
  allocated : Tx → ℕ
  books : Books Tx (AddressAndKey × DeltaRewind) (AddressAndKey × StorageDelta)

/-- The calls of `ExecutionContext::execute` and of the destructors that run
after it. A rewind is named by its position in the books. -/
inductive Move (Tx : Type*) where
  | push (tx : Tx) (ids : CallIds)
  | giveUp (tx : Tx)
  | pass (tx : Tx)
  | commit (position : Nat)
  | destroy (position : Nat) (newId : UniqueId)

namespace System

variable {Tx : Type*} [DecidableEq Tx]

def start (bases : AddressAndKey → Option StorageObject) (opening : Tx → ℕ)
    (programs : Tx → List (AddressAndKey × StorageDelta)) : System Tx where
  objects key := .onBase (bases key)
  allocated := opening
  books := .start programs

def held (system : System Tx) : Rewinds := system.books.held.map Prod.snd

/-- One call; `none` when it does not return or is not the owner's turn. A
transaction gives up when a push is rejected, or for a reason of its own. -/
def perform (cryptoShorthash : CryptoShorthash) (system : System Tx) :
    Move Tx → Option (System Tx)
  | .push tx ids =>
      match system.books.phase tx with
      | .pushing ((key, delta) :: rest) =>
          let ids := ids.holding (system.allocated tx)
          let allocated := Function.update system.allocated tx
            ((system.objects key).allocatedAfter cryptoShorthash ids delta)
          match (system.objects key).tryAddDelta cryptoShorthash ids delta with
          | .ok (some rewind, after) =>
              some
                { objects := Function.update system.objects key after
                  allocated := allocated
                  books := system.books.accept tx (key, rewind) rest }
          | .ok (none, after) =>
              some
                { objects := Function.update system.objects key after
                  allocated := allocated
                  books := system.books.refuse tx }
          | .error _ => none
      | _ => none
  | .giveUp tx =>
      match system.books.phase tx with
      | .pushing _ => some { system with books := system.books.refuse tx }
      | _ => none
  | .pass tx =>
      match system.books.phase tx with
      | .pushing [] => some { system with books := system.books.decide tx }
      | _ => none
  | .commit position =>
      match system.books.held[position]? with
      | some (tx, key, rewind) =>
          match system.books.phase tx with
          | .committing =>
              match rewind.commit (system.objects key) with
              | .ok after =>
                  some
                    { system with
                      objects := Function.update system.objects key after
                      books := system.books.commitAt position (key, rewind.delta) }
              | .error _ => none
          | _ => none
      | none => none
  | .destroy position newId =>
      match system.books.held[position]? with
      | some (tx, key, rewind) =>
          match system.books.phase tx with
          | .aborting =>
              match rewind.destroy cryptoShorthash newId (system.objects key) with
              | .ok after =>
                  some
                    { system with
                      objects := Function.update system.objects key after
                      books := system.books.destroyAt position }
              | .error _ => none
          | _ => none
      | none => none

end System

def Moves (cryptoShorthash : CryptoShorthash) {Tx : Type*} [DecidableEq Tx] (system : System Tx)
    (move : Move Tx) (next : System Tx) : Prop :=
  system.perform cryptoShorthash move = some next

inductive MoveCases (cryptoShorthash : CryptoShorthash) {Tx : Type*} [DecidableEq Tx]
    (system : System Tx) : System Tx → Prop
  | accepted {tx : Tx} {ids : CallIds} {key : AddressAndKey} {delta : StorageDelta}
      {rest : List (AddressAndKey × StorageDelta)} {rewind : DeltaRewind}
      {after : RevertableObject} (phase : system.books.phase tx = .pushing ((key, delta) :: rest))
      (returned : (system.objects key).tryAddDelta cryptoShorthash
        (ids.holding (system.allocated tx)) delta = .ok (some rewind, after)) :
      MoveCases cryptoShorthash system
        { objects := Function.update system.objects key after
          allocated := Function.update system.allocated tx ((system.objects key).allocatedAfter
            cryptoShorthash (ids.holding (system.allocated tx)) delta)
          books := system.books.accept tx (key, rewind) rest }
  | rejected {tx : Tx} {ids : CallIds} {key : AddressAndKey} {delta : StorageDelta}
      {rest : List (AddressAndKey × StorageDelta)} {after : RevertableObject}
      (phase : system.books.phase tx = .pushing ((key, delta) :: rest))
      (returned : (system.objects key).tryAddDelta cryptoShorthash
        (ids.holding (system.allocated tx)) delta = .ok (none, after)) :
      MoveCases cryptoShorthash system
        { objects := Function.update system.objects key after
          allocated := Function.update system.allocated tx ((system.objects key).allocatedAfter
            cryptoShorthash (ids.holding (system.allocated tx)) delta)
          books := system.books.refuse tx }
  | gaveUp {tx : Tx} {remaining : List (AddressAndKey × StorageDelta)}
      (phase : system.books.phase tx = .pushing remaining) :
      MoveCases cryptoShorthash system { system with books := system.books.refuse tx }
  | passed {tx : Tx} (phase : system.books.phase tx = .pushing []) :
      MoveCases cryptoShorthash system { system with books := system.books.decide tx }
  | committed {position : Nat} {tx : Tx} {key : AddressAndKey} {rewind : DeltaRewind}
      {after : RevertableObject} (found : system.books.held[position]? = some (tx, key, rewind))
      (phase : system.books.phase tx = .committing)
      (returned : rewind.commit (system.objects key) = .ok after) :
      MoveCases cryptoShorthash system
        { system with
          objects := Function.update system.objects key after
          books := system.books.commitAt position (key, rewind.delta) }
  | destroyed {position : Nat} {newId : UniqueId} {tx : Tx} {key : AddressAndKey}
      {rewind : DeltaRewind} {after : RevertableObject}
      (found : system.books.held[position]? = some (tx, key, rewind))
      (phase : system.books.phase tx = .aborting)
      (returned : rewind.destroy cryptoShorthash newId (system.objects key) = .ok after) :
      MoveCases cryptoShorthash system
        { system with
          objects := Function.update system.objects key after
          books := system.books.destroyAt position }

section Inversion

variable {cryptoShorthash : CryptoShorthash} {Tx : Type*} [DecidableEq Tx]
  {system next : System Tx} {move : Move Tx}

theorem move_cases (moves : Moves cryptoShorthash system move next) :
    MoveCases cryptoShorthash system next := by
  cases move with
  | push tx ids =>
      simp only [Moves, System.perform] at moves
      split at moves
      · rename_i key delta rest phase
        split at moves
        · rename_i rewind after returned
          cases moves
          exact .accepted phase returned
        · rename_i after returned
          cases moves
          exact .rejected phase returned
        · cases moves
      · cases moves
  | giveUp tx =>
      simp only [Moves, System.perform] at moves
      split at moves
      · rename_i remaining phase
        cases moves
        exact .gaveUp phase
      · cases moves
  | pass tx =>
      simp only [Moves, System.perform] at moves
      split at moves
      · rename_i phase
        cases moves
        exact .passed phase
      · cases moves
  | commit position =>
      simp only [Moves, System.perform] at moves
      split at moves
      · rename_i tx key rewind found
        split at moves
        · rename_i phase
          split at moves
          · rename_i after returned
            cases moves
            exact .committed found phase returned
          · cases moves
        · cases moves
      · cases moves
  | destroy position newId =>
      simp only [Moves, System.perform] at moves
      split at moves
      · rename_i tx key rewind found
        split at moves
        · rename_i phase
          split at moves
          · rename_i after returned
            cases moves
            exact .destroyed found phase returned
          · cases moves
        · cases moves
      · cases moves

end Inversion

/-! ## The invariant of a run -/

/-- A transaction has room behind the earlier ones on every key. -/
def Fits {Tx : Type*} (bases : AddressAndKey → Option StorageObject)
    (programs : Tx → List (AddressAndKey × StorageDelta)) (earlier : List Tx) (tx : Tx) : Prop :=
  ∀ key, Room (bases key) (deltasOn key (promised programs earlier))
    (deltasOn key ↑(programs tx)) 0

structure OnKey (cryptoShorthash : CryptoShorthash) (base : Option StorageObject)
    (key : AddressAndKey) (held : Rewinds) (committed : Multiset (AddressAndKey × StorageDelta))
    (object : RevertableObject) : Prop where
  accounts : ∃ agreement, Accounts cryptoShorthash (.onBase base) ↑(Rewinds.on key held)
    (deltasOn key committed) agreement object
  capacity : object.newHashes.capacity = (RevertableObject.onBase base).newHashes.capacity

/-- What a transaction that still has to push `rest` has taken from its allocator. It
only took what there was, so a thread past its limit has not been asked yet. -/
structure EntriesSpent (opening allocated : ℕ)
    (program rest : List (AddressAndKey × StorageDelta)) :
    Prop where
  counted : allocated + entriesFor rest = opening + entriesFor program
  within : allocated = opening ∨ allocated ≤ allocSize

structure SystemKept (cryptoShorthash : CryptoShorthash) {Tx : Type*} [DecidableEq Tx]
    (bases : AddressAndKey → Option StorageObject) (opening : Tx → ℕ)
    (programs : Tx → List (AddressAndKey × StorageDelta)) (system : System Tx) : Prop where
  balanced : Balanced ticketItem programs system.books
  objects : ∀ key, OnKey cryptoShorthash (bases key) key system.held system.books.committed
    (system.objects key)
  fitted : InOrder (Fits bases programs) system.books.order
  spent : ∀ tx rest, system.books.phase tx = .pushing rest →
    EntriesSpent (opening tx) (system.allocated tx) (programs tx) rest
  served : ∀ tx ∈ system.books.order, entriesFor (programs tx) ≤ allocSize - opening tx

/-- A replay of the transactions in this order: each makes its pushes on a thread that
has allocated no more entries than the thread of the block had. -/
def Replays {Tx : Type*} (opening : Tx → ℕ) (programs : Tx → List (AddressAndKey × StorageDelta))
    (replayed : List (ℕ × List (CallIds × AddressAndKey × StorageDelta))) (order : List Tx) :
    Prop :=
  List.Forall₂ (fun run tx => run.1 ≤ opening tx ∧ run.2.map Prod.snd = programs tx) replayed
    order

section Kept

variable {cryptoShorthash : CryptoShorthash} {Tx : Type*} [DecidableEq Tx]
  {bases : AddressAndKey → Option StorageObject} {opening : Tx → ℕ}
  {programs : Tx → List (AddressAndKey × StorageDelta)} {system next : System Tx} {tx : Tx}

theorem system_kept_start :
    SystemKept cryptoShorthash bases opening programs (System.start bases opening programs) where
  balanced := balanced_start
  objects key := ⟨⟨.undecided, (round_start_over cryptoShorthash (bases key)).accounts⟩, rfl⟩
  fitted := .nil
  spent tx rest phase := by
    cases phase
    exact ⟨rfl, Or.inl rfl⟩
  served tx listed := by cases listed

theorem entries_spent_elsewhere
    (spent : ∀ tx rest, system.books.phase tx = .pushing rest →
      EntriesSpent (opening tx) (system.allocated tx) (programs tx) rest)
    {phase : Phase (AddressAndKey × StorageDelta)} {count : ℕ}
    (here : ∀ rest, phase = .pushing rest → EntriesSpent (opening tx) count (programs tx) rest) :
    ∀ other rest, Function.update system.books.phase tx phase other = .pushing rest →
      EntriesSpent (opening other) (Function.update system.allocated tx count other)
        (programs other)
        rest := by
  intro other rest pushing
  by_cases same : other = tx
  · subst same
    rw [Function.update_self] at pushing ⊢
    exact here rest pushing
  · rw [Function.update_of_ne same] at pushing ⊢
    exact spent other rest pushing

theorem entries_spent_stopped
    (spent : ∀ tx rest, system.books.phase tx = .pushing rest →
      EntriesSpent (opening tx) (system.allocated tx) (programs tx) rest)
    {phase : Phase (AddressAndKey × StorageDelta)} (stopped : ∀ rest, phase ≠ .pushing rest) :
    ∀ other rest, Function.update system.books.phase tx phase other = .pushing rest →
      EntriesSpent (opening other) (system.allocated other) (programs other) rest := by
  rw [← Function.update_eq_self tx system.allocated]
  exact entries_spent_elsewhere spent fun rest pushing => absurd pushing (stopped rest)

theorem entries_spent_push {allocated : ℕ} {program rest : List (AddressAndKey × StorageDelta)}
    {key : AddressAndKey} {delta : StorageDelta} {first : ℕ}
    (spent : EntriesSpent first allocated program ((key, delta) :: rest))
    (fits : slotsTaken delta ≤ allocSize - allocated) :
    EntriesSpent first (allocated + slotsTaken delta) program rest := by
  obtain ⟨counted, within⟩ := spent
  rw [entries_for_cons] at counted
  refine ⟨by omega, ?_⟩
  rcases Nat.eq_zero_or_pos (slotsTaken delta) with none_taken | taken
  · rw [none_taken, Nat.add_zero]
    exact within
  · right
    omega

theorem entries_spent_all {allocated first : ℕ} {program : List (AddressAndKey × StorageDelta)}
    (spent : EntriesSpent first allocated program []) : entriesFor program ≤ allocSize - first := by
  obtain ⟨counted, within⟩ := spent
  rw [entries_for_nil] at counted
  omega

omit [DecidableEq Tx] in
/-- A call on one key leaves the other objects under their books. -/
theorem on_key_update
    (kept : ∀ key, OnKey cryptoShorthash (bases key) key system.held system.books.committed
      (system.objects key))
    {key : AddressAndKey} {held : Rewinds}
    {committed : Multiset (AddressAndKey × StorageDelta)} {after : RevertableObject}
    (here : OnKey cryptoShorthash (bases key) key held committed after)
    (elsewhere : ∀ other, other ≠ key →
      (Rewinds.on other held : Multiset DeltaRewind) = Rewinds.on other system.held ∧
        deltasOn other committed = deltasOn other system.books.committed) :
    ∀ other, OnKey cryptoShorthash (bases other) other held committed
      (Function.update system.objects key after other) := by
  intro other
  by_cases same : other = key
  · subst same
    rw [Function.update_self]
    exact here
  · obtain ⟨rewinds, deltas⟩ := elsewhere other same
    obtain ⟨accounts, capacity⟩ := kept other
    rw [Function.update_of_ne same]
    refine ⟨?_, capacity⟩
    rw [rewinds, deltas]
    exact accounts

omit [DecidableEq Tx] in
theorem held_found {position : Nat} {key : AddressAndKey} {rewind : DeltaRewind}
    (found : system.books.held[position]? = some (tx, key, rewind)) :
    system.held[position]? = some (key, rewind) := by
  rw [System.held, List.getElem?_map, found]
  rfl

omit [DecidableEq Tx] in
theorem books_live (key : AddressAndKey)
    (books : Books Tx (AddressAndKey × DeltaRewind) (AddressAndKey × StorageDelta)) :
    live ↑(Rewinds.on key (books.held.map Prod.snd)) (deltasOn key books.committed) =
      deltasOn key (heldItems ticketItem books.held + books.committed) := by
  have items : (books.held.map Prod.snd).map (fun entry => (entry.1, entry.2.delta)) =
      books.held.map fun entry => ticketItem entry.2 := List.map_map
  rw [live, rewinds_on_deltas, items, deltas_on_add]
  rfl

omit [DecidableEq Tx] in
theorem live_on_key (key : AddressAndKey) :
    live ↑(Rewinds.on key system.held) (deltasOn key system.books.committed) =
      deltasOn key (heldItems ticketItem system.books.held + system.books.committed) :=
  books_live key system.books

theorem decided_mono {few many : Multiset StorageDelta} (fewer : few ≤ many)
    (decided : Decided few) : Decided many := by
  obtain ⟨delta, member, classed⟩ := decided
  exact ⟨delta, Multiset.mem_of_le fewer member, classed⟩

/-- At the threshold a transaction has room behind those that passed before. -/
theorem pass_fits (kept : SystemKept cryptoShorthash bases opening programs system)
    (phase : system.books.phase tx = .pushing []) :
    Fits bases programs system.books.order tx := by
  intro key
  obtain ⟨⟨agreement, accounts⟩, capacity⟩ := kept.objects key
  have within : deltasOn key ↑(programs tx) + deltasOn key (promised programs system.books.order) ≤
      live ↑(Rewinds.on key system.held) (deltasOn key system.books.committed) := by
    rw [live_on_key, ← deltas_on_add]
    exact deltas_on_mono key (promised_le_live kept.balanced phase)
  have earlier : deltasOn key system.books.committed ≤
      deltasOn key (promised programs system.books.order) :=
    deltas_on_mono key (committed_le_promised kept.balanced)
  constructor
  · rw [live_none]
    exact solvent_mono accounts.solvent within earlier
  · by_cases decided : Decided (deltasOn key system.books.committed)
    · exact Or.inr (decided_mono earlier decided)
    · left
      have own : deltasOn key ↑(programs tx) ≤
          (Rewinds.on key system.held : Multiset DeltaRewind).map DeltaRewind.delta := by
        have items : system.held.map (fun entry => (entry.1, entry.2.delta)) =
            system.books.held.map fun entry => ticketItem entry.2 := List.map_map
        have mine := kept.balanced.pushing tx [] phase
        rw [Multiset.coe_nil, add_zero] at mine
        rw [rewinds_on_deltas, items, ← mine]
        exact deltas_on_mono key (owned_le ticketItem [tx] system.books.held)
      have counted := Multiset.countP_le_of_le (fun delta => delta.class?.isSome = true) own
      rw [Multiset.countP_map] at counted
      have all : Multiset.card (Multiset.filter
          (fun rewind : DeltaRewind => rewind.delta.class?.isSome = true)
          ↑(Rewinds.on key system.held)) = holderCount ↑(Rewinds.on key system.held) :=
        (Multiset.countP_eq_card_filter _ _).symm
      have bound := holder_count_le accounts decided
      have nobody : holderCount 0 = 0 := rfl
      omega
  · rw [live_none]
    have fewer := Multiset.card_le_card (inserts_mono within)
    have stored := congrArg Multiset.card accounts.booked.hashes
    rw [Multiset.coe_card] at stored
    have occupied := (system.objects key).newHashes.occupied_le_capacity
    rw [capacity] at occupied
    omega

theorem moves_kept {move : Move Tx}
    (kept : SystemKept cryptoShorthash bases opening programs system)
    (moves : Moves cryptoShorthash system move next) :
    SystemKept cryptoShorthash bases opening programs next := by
  cases move_cases moves with
  | @accepted tx ids key delta rest rewind after phase returned =>
      obtain ⟨⟨agreement, accounts⟩, capacity⟩ := kept.objects key
      have outcome := push_outcome accounts delta (ids.holding (system.allocated tx))
      rw [returned] at outcome
      cases outcome with
      | accepted pushed =>
          have next_item : system.books.phase tx =
              .pushing (ticketItem (key, rewind) :: rest) := by
            rw [ticketItem, pushed.own]
            exact phase
          obtain ⟨fits, count⟩ := accepted_takes returned
          refine ⟨balanced_accept kept.balanced next_item, ?_, kept.fitted, ?_, kept.served⟩
          swap
          · apply entries_spent_elsewhere kept.spent
            intro remaining same
            cases same
            rw [count]
            exact entries_spent_push (kept.spent tx _ phase) fits
          apply on_key_update kept.objects
          · refine ⟨?_, pushed.capacity.trans capacity⟩
            rw [System.held, Books.accept, List.map_cons, Rewinds.on_self, ← Multiset.cons_coe]
            exact pushed.accounts
          · intro other different
            rw [System.held, Books.accept, List.map_cons, Rewinds.on_other other different]
            exact ⟨rfl, rfl⟩
  | @rejected tx ids key delta rest after phase returned =>
      obtain ⟨⟨agreement, accounts⟩, capacity⟩ := kept.objects key
      have outcome := push_outcome accounts delta (ids.holding (system.allocated tx))
      rw [returned] at outcome
      cases outcome with
      | rejected rejected reason =>
          refine ⟨balanced_refuse kept.balanced phase, ?_, kept.fitted, ?_, kept.served⟩
          swap
          · apply entries_spent_elsewhere kept.spent
            intro remaining same
            cases same
          apply on_key_update kept.objects
          · refine ⟨⟨agreement, rejected.accounts⟩, ?_⟩
            rw [rejected.unchanged]
            exact capacity
          · exact fun other _ => ⟨rfl, rfl⟩
  | gaveUp phase =>
      refine ⟨balanced_refuse kept.balanced phase, kept.objects, kept.fitted, ?_, kept.served⟩
      exact entries_spent_stopped kept.spent fun _ same => by cases same
  | @passed tx phase =>
      refine ⟨balanced_decide kept.balanced phase, kept.objects,
        .snoc kept.fitted (pass_fits kept phase), ?_, ?_⟩
      · exact entries_spent_stopped kept.spent fun _ same => by cases same
      · intro other listed
        rcases List.mem_append.mp listed with earlier | last
        · exact kept.served other earlier
        · cases List.mem_singleton.mp last
          exact entries_spent_all (kept.spent tx [] phase)
  | @committed position tx key rewind after found phase returned =>
      obtain ⟨⟨agreement, accounts⟩, capacity⟩ := kept.objects key
      have there := held_found found
      rw [on_erase_self there] at accounts
      obtain ⟨result, again, counted, table⟩ := rewind_commit_spec accounts
      rw [returned] at again
      cases again
      refine ⟨balanced_commit kept.balanced found phase, ?_, kept.fitted, kept.spent,
        kept.served⟩
      apply on_key_update kept.objects
      · refine ⟨?_, ?_⟩
        · rw [System.held, Books.commitAt, ← List.eraseIdx_map, deltas_on_self]
          exact counted
        · rw [table]
          exact capacity
      · intro other different
        rw [System.held, Books.commitAt, ← List.eraseIdx_map]
        exact ⟨on_erase_other there different, deltas_on_other other different _ _⟩
  | @destroyed position newId tx key rewind after found phase returned =>
      obtain ⟨⟨agreement, accounts⟩, capacity⟩ := kept.objects key
      have there := held_found found
      rw [on_erase_self there] at accounts
      rcases rewind_destroy_spec accounts newId with ⟨_, _, spins⟩ | ⟨result, again, spec⟩
      · rw [returned] at spins
        cases spins
      · rw [returned] at again
        cases again
        refine ⟨balanced_destroy kept.balanced found phase, ?_, kept.fitted, kept.spent,
          kept.served⟩
        apply on_key_update kept.objects
        · refine ⟨?_, spec.capacity.trans capacity⟩
          rw [System.held, Books.destroyAt, ← List.eraseIdx_map]
          exact spec.accounts
        · intro other different
          rw [System.held, Books.destroyAt, ← List.eraseIdx_map]
          exact ⟨on_erase_other there different, rfl⟩

theorem system_run_kept {moves : List (Move Tx)} {final : System Tx}
    (run : Run (Moves cryptoShorthash) (System.start bases opening programs) moves final) :
    SystemKept cryptoShorthash bases opening programs final :=
  run_invariant (SystemKept cryptoShorthash bases opening programs)
    (fun _ _ _ kept moved => moves_kept kept moved) system_kept_start run

omit [DecidableEq Tx] in
theorem replays_snoc {order : List Tx} {replayed : List (ℕ × _)}
    (same : Replays opening programs replayed (order ++ [tx])) :
    ∃ first allocated calls, replayed = first ++ [(allocated, calls)] ∧
      Replays opening programs first order ∧ allocated ≤ opening tx ∧
      calls.map Prod.snd = programs tx := by
  have backwards := List.forall₂_reverse_iff.mpr same
  rw [List.reverse_append, List.reverse_singleton, List.singleton_append] at backwards
  obtain ⟨⟨allocated, calls⟩, first, ⟨fewer, pushes⟩, before, reversed⟩ :=
    List.forall₂_cons_right_iff.mp backwards
  refine ⟨first.reverse, allocated, calls, ?_, ?_, fewer, pushes⟩
  · rw [← List.reverse_cons, ← reversed, List.reverse_reverse]
  · apply List.forall₂_reverse_iff.mp
    rw [List.reverse_reverse]
    exact before

omit [DecidableEq Tx] in
theorem replay_accepts {order : List Tx} (fitted : InOrder (Fits bases programs) order)
    (served : ∀ tx ∈ order, entriesFor (programs tx) ≤ allocSize - opening tx)
    {replayed : List (ℕ × List (CallIds × AddressAndKey × StorageDelta))}
    (same : Replays opening programs replayed order) :
    ∃ objects, replay cryptoShorthash replayed (fun key => .onBase (bases key)) =
        .ok (true, objects) ∧
      AllMidway cryptoShorthash bases (fun key => deltasOn key (promised programs order)) []
        objects := by
  induction fitted generalizing replayed with
  | nil =>
      cases same
      exact ⟨_, rfl, fun key => midway_start⟩
  | @snoc order tx earlier fit induction =>
      obtain ⟨first, allocated, calls, rfl, before, fewer, pushes⟩ := replays_snoc same
      obtain ⟨middle, returned, midway⟩ :=
        induction (fun other listed => served other (List.mem_append_left _ listed)) before
      have entries : entriesFor (calls.map Prod.snd) ≤ allocSize - allocated := by
        have own := served tx (List.mem_append_right _ (List.mem_singleton_self tx))
        rw [pushes]
        omega
      have room : ∀ key, Room (bases key) (deltasOn key (promised programs order))
          (deltasOn key ↑(calls.map Prod.snd)) 0 := by
        intro key
        rw [pushes]
        exact fit key
      obtain ⟨after, accepted, done⟩ := replay_one midway room entries
      refine ⟨after, (replay_snoc returned).trans accepted, ?_⟩
      intro key
      simp only [promised_snoc, deltas_on_add]
      rw [add_comm, ← pushes]
      exact done key

end Kept

/-- The block is equivalent to its committed transactions alone, one after
another in the order in which they passed the threshold. -/
theorem block_serializable {cryptoShorthash : CryptoShorthash} {Tx : Type*} [DecidableEq Tx]
    {bases : AddressAndKey → Option StorageObject} {opening : Tx → ℕ}
    {programs : Tx → List (AddressAndKey × StorageDelta)} {moves : List (Move Tx)}
    {final : System Tx}
    (run : Run (Moves cryptoShorthash) (System.start bases opening programs) moves final)
    (finished : final.held = [])
    {replayed : List (ℕ × List (CallIds × AddressAndKey × StorageDelta))}
    (same : Replays opening programs replayed final.books.order) :
    ∃ objects, replay cryptoShorthash replayed (fun key => .onBase (bases key)) =
        .ok (true, objects) ∧
      ∀ key, (final.objects key).commitRound.map RevertableObject.getCommittedObject =
        (objects key).commitRound.map RevertableObject.getCommittedObject := by
  have kept := system_run_kept run
  obtain ⟨objects, accepted, midway⟩ := replay_accepts kept.fitted kept.served same
  refine ⟨objects, accepted, ?_⟩
  intro key
  have committed := finished_committed kept.balanced (List.map_eq_nil_iff.mp finished)
  obtain ⟨⟨agreement, accounts⟩, _⟩ := kept.objects key
  obtain ⟨⟨otherAgreement, serial⟩, _⟩ := midway key
  rw [finished, committed] at accounts
  exact settle_unique accounts serial

/-- Two withdrawals of four from five: the second one is an overdraft. -/
def rivals : Bool → List (AddressAndKey × StorageDelta) :=
  fun _ => [(7, makeNonnegativeInt64SetAdd 5 (-4))]

theorem block_serializable_rivals :
    ∃ final : System Bool, final.books.order = [true] ∧
      ∃ objects, replay (fun _ => 0) [(0, [(.first, 7, makeNonnegativeInt64SetAdd 5 (-4))])]
          (fun _ => .onBase none) = .ok (true, objects) ∧
        ∀ key, (final.objects key).commitRound.map RevertableObject.getCommittedObject =
          (objects key).commitRound.map RevertableObject.getCommittedObject := by
  let withdrawal := makeNonnegativeInt64SetAdd 5 (-4)
  have calls : ∃ rewind next, (RevertableObject.onBase none).tryAddDelta (fun _ => 0) .first
      withdrawal = .ok (some rewind, next) ∧
      ∃ refused, next.tryAddDelta (fun _ => 0) .first withdrawal = .ok (none, refused) ∧
      ∃ last, rewind.commit refused = .ok last := ⟨_, _, rfl, _, rfl, _, rfl⟩
  obtain ⟨rewind, next, accepted, refused, rejected, last, committed⟩ := calls
  let objects : Objects := fun _ => .onBase none
  let pushed : Books Bool (AddressAndKey × DeltaRewind) (AddressAndKey × StorageDelta) :=
    (Books.start rivals).accept true (7, rewind) []
  let counts : Bool → ℕ := Function.update (fun _ => 0) true
    ((objects 7).allocatedAfter (fun _ => 0) .first withdrawal)
  let settled : Bool → ℕ := Function.update counts false
    (next.allocatedAfter (fun _ => 0) .first withdrawal)
  have one : Moves (fun _ => 0) (System.start (fun _ => none) (fun _ => 0) rivals)
      (.push true .first)
      { objects := Function.update objects 7 next, allocated := counts, books := pushed } := by
    have mine : CallIds.first.holding 0 = .first := rfl
    simp only [Moves, System.perform, System.start, Books.start, rivals, mine, accepted,
      withdrawal]
    rfl
  have two : Moves (fun _ => 0)
      { objects := Function.update objects 7 next, allocated := counts, books := pushed }
      (.push false .first)
      { objects := Function.update (Function.update objects 7 next) 7 refused
        allocated := settled
        books := pushed.refuse false } := by
    have phase : pushed.phase false = .pushing [(7, withdrawal)] := rfl
    have mine : CallIds.first.holding (counts false) = .first := rfl
    simp only [Moves, System.perform, phase, mine, Function.update_self, rejected]
    rfl
  have three : Moves (fun _ => 0)
      { objects := Function.update (Function.update objects 7 next) 7 refused
        allocated := settled
        books := pushed.refuse false } (.pass true)
      { objects := Function.update (Function.update objects 7 next) 7 refused
        allocated := settled
        books := (pushed.refuse false).decide true } := rfl
  have four : Moves (fun _ => 0)
      { objects := Function.update (Function.update objects 7 next) 7 refused
        allocated := settled
        books := (pushed.refuse false).decide true } (.commit 0)
      { objects := Function.update (Function.update (Function.update objects 7 next) 7 refused)
          7 last
        allocated := settled
        books := ((pushed.refuse false).decide true).commitAt 0 (7, rewind.delta) } := by
    have found : ((pushed.refuse false).decide true).held[0]? = some (true, 7, rewind) := rfl
    have phase : ((pushed.refuse false).decide true).phase true = .committing := rfl
    simp only [Moves, System.perform, found, phase, Function.update_self, committed]
  have run := Run.cons one (.cons two (.cons three (.cons four (.nil _))))
  exact ⟨_, rfl, block_serializable run rfl (.cons ⟨le_refl _, rfl⟩ .nil)⟩

end Scs
