import Scs.Library.Willing
import Scs.TransactionContext.ExecuteReturns
import Scs.TransactionContext.SameCommits
import Scs.TransactionContext.SyscallDeltas

/-!
# The moves of a validator (`vm/validate_reduce.h`)

A validator executes the listed transactions, in parallel and in any order, while
its own thread saves contracts. The new-hash tables then count what is live, and
nothing that is still to be recorded has been recorded by its own transaction.
-/

namespace Scs

set_option autoImplicit false

open Ledger Lockstep Runs TwoPhase

section Moves

variable {Tx : Type*} {Database : Type} [DecidableEq Tx] {cryptoShorthash : CryptoShorthash}
  {library : ContractLibrary} {store : StateStore Database} {programs : Tx → Program}
  {before : GlobalContext Database} {moves : List (BlockMove Tx)}
  {block next : BlockExecution Tx Database} {move : BlockMove Tx} {listed : List Tx}

/-- A delta that sets a base value goes to a key whose count has room, and an insertion
to a thread with an entry left. -/
def RoomToPush (store : StateStore Database) (block : BlockExecution Tx Database) :
    BlockMove Tx → Prop
  | .push tx ids => ∀ key delta rest, block.books.phase tx = .pushing ((key, delta) :: rest) →
      (delta.class? ≠ none → block.HasRoom key) ∧ block.HasEntry store ids key delta
  | _ => True

/-- The next move of a listed transaction, none of which gives up on its own, or a
section of the thread that saves contracts. -/
def MovesValidating (cryptoShorthash : CryptoShorthash) (library : ContractLibrary)
    (store : StateStore Database) (programs : Tx → Program) (listed : List Tx)
    (block : BlockExecution Tx Database) (move : BlockMove Tx)
    (next : BlockExecution Tx Database) : Prop :=
  MovesBlock cryptoShorthash library store programs block move next ∧
    ((∃ tx ∈ listed, DueMove block tx move) ∨ move = .persist) ∧ RoomToPush store block move

theorem validating_run_moves
    (run : Run (MovesValidating cryptoShorthash library store programs listed) (.start before)
      moves block) :
    Run (MovesBlock cryptoShorthash library store programs) (.start before) moves block :=
  run_mono (fun _ _ _ moves => moves.1) run

/-! ## Who takes part -/

/-- Only the listed transactions have passed or hold anything. -/
structure TakePart (listed : List Tx) (block : BlockExecution Tx Database) : Prop where
  passed : ∀ tx ∈ block.books.order, tx ∈ listed
  owners : ∀ ticket ∈ block.books.held, ticket.1 ∈ listed

omit [DecidableEq Tx] in
theorem due_push_owner {tx caller : Tx} {ids : CallIds}
    (due : DueMove block tx (.push caller ids)) : caller = tx := by
  cases due
  rfl

omit [DecidableEq Tx] in
theorem due_pass_owner {tx caller : Tx} (due : DueMove block tx (.pass caller)) :
    caller = tx := by
  cases due
  rfl

theorem moves_take_part (block : BlockExecution Tx Database) (move : BlockMove Tx)
    (next : BlockExecution Tx Database) (kept : TakePart listed block)
    (moves : MovesValidating cryptoShorthash library store programs listed block move next) :
    TakePart listed next := by
  obtain ⟨moves, ⟨owner, member, due⟩ | rfl, _⟩ := moves
  swap
  · cases block_move_cases moves with
    | persisted => exact ⟨kept.passed, kept.owners⟩
  have left {position : Nat} : ∀ ticket ∈ block.books.held.eraseIdx position, ticket.1 ∈ listed :=
    fun ticket inside => kept.owners ticket (List.mem_of_mem_eraseIdx inside)
  cases block_move_cases moves with
  | accepted status phase applied =>
      refine ⟨kept.passed, fun ticket inside => ?_⟩
      rcases List.mem_cons.mp inside with rfl | earlier
      · exact due_push_owner due ▸ member
      · exact kept.owners ticket earlier
  | passed status phase updates =>
      refine ⟨fun tx inside => ?_, kept.owners⟩
      rcases List.mem_append.mp inside with earlier | last
      · exact kept.passed tx earlier
      · rw [List.mem_singleton.mp last, due_pass_owner due]
        exact member
  | committed found phase through => exact ⟨kept.passed, left⟩
  | destroyed found phase through => exact ⟨kept.passed, left⟩
  | _ => exact ⟨kept.passed, kept.owners⟩

theorem run_take_part
    (run : Run (MovesValidating cryptoShorthash library store programs listed) (.start before)
      moves block) : TakePart listed block := by
  apply run_invariant (TakePart listed) moves_take_part _ run
  constructor
  · intro tx impossible
    cases impossible
  · intro ticket impossible
    cases impossible

/-! ## The slots of the new-hash tables -/

def BlockExecution.liveOn (key : AddressAndKey) (block : BlockExecution Tx Database) :
    Multiset StorageDelta :=
  deltasOn key (heldItems ticketItem block.books.held + block.books.committed)

def ObjectStore.freeSlots (view : ObjectStore cryptoShorthash store) (key : AddressAndKey)
    (db : Database) : ℕ :=
  (view.objects db key).newHashes.freeSlots

def ObjectStore.usableSlots (view : ObjectStore cryptoShorthash store) (key : AddressAndKey)
    (block : BlockExecution Tx Database) : ℕ :=
  view.freeSlots key block.globalContext.stateDb + (inserts (block.liveOn key)).card

omit [DecidableEq Tx] in
theorem live_on_held (key : AddressAndKey) (block : BlockExecution Tx Database) :
    live ↑(Rewinds.on key block.held) (deltasOn key block.books.committed) = block.liveOn key :=
  books_live key block.books

omit [DecidableEq Tx] in
theorem held_erase (block : BlockExecution Tx Database) {position : Nat}
    {ticket : Tx × AddressAndKey × DeltaRewind}
    (found : block.books.held[position]? = some ticket) :
    heldItems ticketItem block.books.held =
      ticketItem ticket.2 ::ₘ heldItems ticketItem (block.books.held.eraseIdx position) := by
  have perm := (erase_perm found).map fun entry : Tx × AddressAndKey × DeltaRewind =>
    ticketItem entry.2
  exact (Multiset.coe_eq_coe.mpr perm).symm

theorem free_slots_kept (view : ObjectStore cryptoShorthash store) {db after : Database}
    {key : AddressAndKey} {changed : RevertableObject}
    (objects : view.objects after = Function.update (view.objects db) key changed)
    (table : changed.newHashes.freeSlots = (view.objects db key).newHashes.freeSlots)
    (other : AddressAndKey) : view.freeSlots other after = view.freeSlots other db := by
  unfold ObjectStore.freeSlots
  rw [objects]
  by_cases same : other = key
  · subst same
    rw [Function.update_self, table]
  · rw [Function.update_of_ne same]

/-- A move keeps the slots usable, unless it destroys a rewind: the slot of a
reverted insertion is not free again. -/
theorem moves_usable (view : ObjectStore cryptoShorthash store) {openings : AddressAndKey → Opening}
    (kept : BlockKept view openings block)
    (moves : MovesBlock cryptoShorthash library store programs block move next)
    (key : AddressAndKey) :
    view.usableSlots key next ≤ view.usableSlots key block ∧
      (view.usableSlots key next = view.usableSlots key block ∨
        ∃ position newId, move = .destroy position newId) := by
  suffices same : view.usableSlots key next = view.usableSlots key block ∨
      view.usableSlots key next ≤ view.usableSlots key block ∧
        ∃ position newId, move = .destroy position newId by
    rcases same with equal | ⟨fewer, destroys⟩
    · exact ⟨equal.le, .inl equal⟩
    · exact ⟨fewer, .inr destroys⟩
  cases block_move_cases moves with
  | @accepted tx ids target delta rest rewind after status phase applied =>
      left
      obtain ⟨changed, returned, objects⟩ := view.push applied
      obtain ⟨agreement, accounts⟩ := kept target
      have outcome := push_outcome accounts delta (block.issued ids)
      have there : (view.world block).objects target =
          view.objects block.globalContext.stateDb target := rfl
      rw [there, returned] at outcome
      cases outcome with
      | accepted pushed =>
          have grown : heldItems ticketItem ((tx, target, rewind) :: block.books.held) +
              block.books.committed =
              (target, rewind.delta) ::ₘ
                (heldItems ticketItem block.books.held + block.books.committed) := by
            rw [heldItems, List.map_cons, ← Multiset.cons_coe, Multiset.cons_add]
            rfl
          have slots := pushed.freeSlots
          unfold ObjectStore.usableSlots BlockExecution.liveOn ObjectStore.freeSlots
          simp only [BlockExecution.withPush, BlockExecution.withStateDb, Books.accept, objects,
            grown]
          by_cases here : key = target
          · subst here
            rw [Function.update_self, deltas_on_self, card_inserts_cons, pushed.own]
            omega
          · rw [Function.update_of_ne here, deltas_on_other key here]
  | @rejected tx ids target delta rest after status phase applied =>
      left
      obtain ⟨changed, returned, objects⟩ := view.push applied
      obtain ⟨agreement, accounts⟩ := kept target
      have outcome := push_outcome accounts delta (block.issued ids)
      have there : (view.world block).objects target =
          view.objects block.globalContext.stateDb target := rfl
      rw [there, returned] at outcome
      cases outcome with
      | rejected rejected reason =>
          have table : changed.newHashes.freeSlots =
              (view.objects block.globalContext.stateDb target).newHashes.freeSlots := by
            rw [rejected.unchanged]
          exact congrArg (· + _) (free_slots_kept view objects table key)
  | @committed position tx target rewind after found phase through =>
      left
      obtain ⟨changed, returned, objects⟩ := view.through through
      obtain ⟨agreement, accounts⟩ := kept target
      have opened : (Rewinds.on target (view.world block).held : Multiset DeltaRewind) = _ :=
        on_erase_self (block_held_found found)
      rw [opened] at accounts
      obtain ⟨result, again, _, table⟩ := rewind_commit_spec accounts
      have same : changed = result := Except.ok.inj (returned.symm.trans again)
      subst same
      have slots := free_slots_kept view objects (congrArg AtomicSet.freeSlots table) key
      have moved : heldItems ticketItem (block.books.held.eraseIdx position) +
          (target, rewind.delta) ::ₘ block.books.committed =
            heldItems ticketItem block.books.held + block.books.committed := by
        rw [held_erase block found, Multiset.cons_add, Multiset.add_cons]
        rfl
      unfold ObjectStore.usableSlots BlockExecution.liveOn
      simp only [BlockExecution.withStateDb, Books.commitAt, moved, slots]
  | @destroyed position newId tx target rewind after found phase through =>
      right
      refine ⟨?_, position, newId, rfl⟩
      obtain ⟨changed, returned, objects⟩ := view.through through
      obtain ⟨agreement, accounts⟩ := kept target
      have opened : (Rewinds.on target (view.world block).held : Multiset DeltaRewind) = _ :=
        on_erase_self (block_held_found found)
      rw [opened] at accounts
      rcases rewind_destroy_spec accounts newId with ⟨_, _, spins⟩ | ⟨result, again, spec⟩
      · have impossible := returned.symm.trans spins
        cases impossible
      · have same : changed = result := Except.ok.inj (returned.symm.trans again)
        subst same
        have slots := free_slots_kept view objects spec.freeSlots key
        have fewer : heldItems ticketItem (block.books.held.eraseIdx position) +
            block.books.committed ≤ heldItems ticketItem block.books.held +
              block.books.committed := by
          rw [held_erase block found, Multiset.cons_add]
          exact Multiset.le_cons_self _ _
        have counted := Multiset.card_le_card (inserts_mono (deltas_on_mono key fewer))
        unfold ObjectStore.usableSlots BlockExecution.liveOn
        simp only [BlockExecution.withStateDb, Books.destroyAt, slots]
        omega
  | _ => exact .inl rfl

omit [DecidableEq Tx] in
theorem usable_start (view : ObjectStore cryptoShorthash store) (key : AddressAndKey) :
    view.usableSlots key (.start before : BlockExecution Tx Database) =
      view.freeSlots key before.stateDb := rfl

theorem run_usable (view : ObjectStore cryptoShorthash store) {openings : AddressAndKey → Opening}
    (start : ∀ key, Accounts cryptoShorthash (openings key) 0 0 .undecided
      (view.objects before.stateDb key))
    (run : Run (MovesBlock cryptoShorthash library store programs) (.start before) moves block)
    (key : AddressAndKey) :
    view.usableSlots key block ≤ view.freeSlots key before.stateDb := by
  apply run_invariant (fun block : BlockExecution Tx Database =>
    view.usableSlots key block ≤ view.freeSlots key before.stateDb) _ _ (run_between run)
  · rintro block move next fewer ⟨moves, ⟨_, earlier⟩, _⟩
    have kept := run_block_kept openings start earlier
    exact (moves_usable view kept moves key).1.trans fewer
  · exact (usable_start view key).le

/-! ## The scripts that wait to be recorded -/

def ContractClosure.created? : ContractClosure → Option Hash
  | .deploy _ _ => none
  | .create h _ _ => some h

/-- No transaction has its own scripts recorded before their closures run, so that no
closure of a validator throws. -/
structure CreatesApart (block : BlockExecution Tx Database) : Prop where
  distinct : ∀ tx, ((block.closures tx).filterMap ContractClosure.created?).Nodup
  others : ∀ tx h, h ∈ (block.closures tx).filterMap ContractClosure.created? →
    block.globalContext.contractDb.uncommittedContracts.newContracts.find h ≠ none →
      ∃ other ∈ block.books.order, other ≠ tx ∧ block.creates other h

omit [DecidableEq Tx] in
theorem creates_apart_start :
    CreatesApart (.start before : BlockExecution Tx Database) where
  distinct _ := List.nodup_nil
  others tx h impossible := by cases impossible

theorem closures_distinct {proxy pushed : ContractDBProxy} {deploys : List (Address × Hash)}
    {creates : List (Hash × MeteredContract × Contract)}
    (updates : proxy.pushUpdatesToDb = .ok (deploys, creates, pushed)) :
    ((contractClosures deploys creates).filterMap ContractClosure.created?).Nodup := by
  unfold ContractDBProxy.pushUpdatesToDb at updates
  split_ifs at updates
  cases updates
  have deployed : (proxy.newDeployments.entries.map fun entry =>
      ContractClosure.deploy entry.1 entry.2).filterMap ContractClosure.created? = [] := by
    apply List.filterMap_eq_nil_iff.mpr
    intro closure member
    obtain ⟨_, _, rfl⟩ := List.mem_map.mp member
    rfl
  have created : (proxy.newContracts.entries.map fun entry => ContractClosure.create entry.1
      entry.2.1 entry.2.2).filterMap ContractClosure.created? = proxy.newContracts.keys := by
    rw [List.filterMap_map]
    exact congrFun List.filterMap_eq_map _
  unfold contractClosures
  rw [List.filterMap_append, deployed, created, List.nil_append]
  exact SortedMap.keys_nodup _

theorem moves_creates_apart {contractDb : ContractDB} (books : ContractBooks contractDb block)
    (kept : CreatesApart block)
    (moves : MovesBlock cryptoShorthash library store programs block move next) :
    CreatesApart next := by
  -- the contexts of those that have passed stay
  have still {tx : Tx} (running : (block.contexts tx).status = .running)
      (context : TransactionContext) : ∀ other ∈ block.books.order,
        Function.update block.contexts tx context other = block.contexts other := by
    intro other listed
    apply Function.update_of_ne
    rintro rfl
    rw [(books.passed other listed).1] at running
    cases running
  have called {tx : Tx} (running : (block.contexts tx).status = .running)
      (context : TransactionContext)
      (after : Books Tx (AddressAndKey × DeltaRewind) (AddressAndKey × StorageDelta))
      (order : after.order = block.books.order) :
      CreatesApart
        { block with
          contexts := Function.update block.contexts tx context
          books := after } := by
    refine ⟨kept.distinct, fun owner h member recorded => ?_⟩
    obtain ⟨other, listed, apart, creates⟩ := kept.others owner h member recorded
    refine ⟨other, order ▸ listed, apart, ?_⟩
    simp only [BlockExecution.creates, still running context other listed]
    exact creates
  cases block_move_cases moves with
  | went running status => exact called running _ _ rfl
  | returned running status => exact called running _ _ rfl
  | threw running status => exact called running _ _ rfl
  | @passed tx deploys creates proxy status phase updates =>
      have later : ∀ other ∈ block.books.order, other ∈ (block.books.decide tx).order :=
        fun other listed => List.mem_append_left _ listed
      have stranger : tx ∉ block.books.order := by
        intro listed
        rw [(books.passed tx listed).2] at phase
        cases phase
      constructor
      · intro owner
        by_cases own : owner = tx
        · subst own
          simp only [Function.update_self]
          exact closures_distinct updates
        · simp only [Function.update_of_ne own]
          exact kept.distinct owner
      · intro owner h member recorded
        by_cases own : owner = tx
        · subst own
          obtain ⟨maker, listed, creates⟩ := books.created h recorded
          refine ⟨maker, later maker listed, ?_, creates⟩
          rintro rfl
          exact stranger listed
        · simp only [Function.update_of_ne own] at member
          obtain ⟨other, listed, apart, creates⟩ := kept.others owner h member recorded
          exact ⟨other, later other listed, apart, creates⟩
  | @closed tx thread closure rest contractDb closures run =>
      have own : block.closures tx = closure :: rest := closures
      have distinct := kept.distinct tx
      rw [own] at distinct
      have fewer : (rest.filterMap ContractClosure.created?).Sublist
          ((closure :: rest).filterMap ContractClosure.created?) :=
        (List.sublist_cons_self closure rest).filterMap _
      constructor
      · intro owner
        by_cases same : owner = tx
        · subst same
          simp only [Function.update_self]
          exact distinct.sublist fewer
        · simp only [Function.update_of_ne same]
          exact kept.distinct owner
      · intro owner h member recorded
        have before : h ∈ (block.closures owner).filterMap ContractClosure.created? := by
          by_cases same : owner = tx
          · subst same
            simp only [Function.update_self] at member
            rw [own]
            exact fewer.subset member
          · simp only [Function.update_of_ne same] at member
            exact member
        obtain ⟨contract, found⟩ := Option.ne_none_iff_exists'.mp recorded
        rcases closure_run_created run found with earlier | ⟨source, rfl⟩
        · exact kept.others owner h before (earlier ▸ Option.some_ne_none contract)
        · -- the script was recorded just now, by another transaction than the owner
          have first : ContractClosure.create h contract source ∈ block.closures tx :=
            own ▸ List.mem_cons_self
          obtain ⟨listed, creates⟩ := books.closing tx _ first
          refine ⟨tx, listed, ?_, creates⟩
          rintro rfl
          simp only [Function.update_self] at member
          exact (List.nodup_cons.mp distinct).1 member
  | _ => exact ⟨kept.distinct, kept.others⟩

theorem run_creates_apart (clear : before.contractDb.uncommittedContracts = .empty)
    (run : Run (MovesBlock cryptoShorthash library store programs) (.start before) moves block) :
    CreatesApart block := by
  apply run_invariant CreatesApart _ creates_apart_start (run_between run)
  rintro block move next kept ⟨moves, ⟨_, earlier⟩, _⟩
  exact moves_creates_apart (run_contract_books clear earlier) kept moves

end Moves

end Scs
