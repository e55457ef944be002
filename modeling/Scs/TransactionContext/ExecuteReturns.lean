import Scs.StateDb.BlockStart
import Scs.StateDb.RespondingStore
import Scs.TransactionContext.BlockBalance
import Scs.TransactionContext.CallSafety
import Scs.TransactionContext.ContractBindings
import Scs.TransactionContext.SnapshotReads

/-!
# What stops the execution of a transaction

Within a block the next move of every transaction returns, but for four: the lookup
of a script without bytes, a delta on a key whose 8-bit count of open rewinds has no
room, a hash insertion on a thread that has allocated all its entries, and the record
of a script that the block has recorded.
-/

namespace Scs

set_option autoImplicit false

open Ledger Lockstep Runs TwoPhase

variable {Tx : Type*} {Database : Type}

inductive DueMove (block : BlockExecution Tx Database) (tx : Tx) : BlockMove Tx → Prop
  | call (running : (block.contexts tx).status = .running) : DueMove block tx (.call tx)
  | push {ids : CallIds} {key : AddressAndKey} {delta : StorageDelta}
      {rest : List (AddressAndKey × StorageDelta)}
      (returned : (block.contexts tx).status = .returned)
      (phase : block.books.phase tx = .pushing ((key, delta) :: rest)) :
      DueMove block tx (.push tx ids)
  | pass (returned : (block.contexts tx).status = .returned)
      (phase : block.books.phase tx = .pushing []) : DueMove block tx (.pass tx)
  | commit {position : Nat} {key : AddressAndKey} {rewind : DeltaRewind}
      (found : block.books.held[position]? = some (tx, key, rewind))
      (phase : block.books.phase tx = .committing) : DueMove block tx (.commit position)
  | close {thread : Fin tlcacheSize} {closure : ContractClosure} {rest : List ContractClosure}
      (closing : block.closures tx = closure :: rest) : DueMove block tx (.close tx thread)
  | destroy {position : Nat} {newId : UniqueId} {key : AddressAndKey} {rewind : DeltaRewind}
      (found : block.books.held[position]? = some (tx, key, rewind))
      (phase : block.books.phase tx = .aborting) : DueMove block tx (.destroy position newId)

structure BlockExecution.Finished (block : BlockExecution Tx Database) (tx : Tx) : Prop where
  phase : block.books.phase tx = .committing ∨ block.books.phase tx = .aborting
  held : ∀ ticket ∈ block.books.held, ticket.1 ≠ tx
  closures : block.closures tx = []

/-- One more rewind on the key leaves its 8-bit count below 256, or the count is
no longer in use. -/
def BlockExecution.HasRoom (block : BlockExecution Tx Database) (key : AddressAndKey) : Prop :=
  holderCount ↑(Rewinds.on key block.held) < 255 ∨ Decided (deltasOn key block.books.committed)

/-- The thread of the call has an entry left, or the call takes none: the delta is no
insertion, or its object refuses it before `try_insert`. -/
def BlockExecution.HasEntry (store : StateStore Database) (ids : CallIds) (key : AddressAndKey)
    (delta : StorageDelta) (block : BlockExecution Tx Database) : Prop :=
  store.takesIndex ids key delta block.globalContext.stateDb = true →
    block.allocated ids.thread < allocSize

/-- The transaction is not about to run a script that is committed without bytes. -/
def BlockExecution.FindsScript (programs : Tx → Program) (block : BlockExecution Tx Database)
    (tx : Tx) : Prop :=
  ∀ address, programs tx (block.contexts tx).results = .call (.getScript address) →
    (block.contexts tx).contractDbProxy.newDeployments.find address = none →
      block.globalContext.contractDb.addressesToContracts address ≠ some { base := none }

def HarmlessMove (store : StateStore Database) (programs : Tx → Program)
    (block : BlockExecution Tx Database) : BlockMove Tx → Prop
  | .call tx => block.FindsScript programs tx
  | .push tx ids => ∀ key delta rest, block.books.phase tx = .pushing ((key, delta) :: rest) →
      (delta.class? ≠ none → block.HasRoom key) ∧ block.HasEntry store ids key delta
  | .close tx _ => ∀ closure rest, block.closures tx = closure :: rest →
      closure.Unrecorded block.globalContext.contractDb
  | _ => True

section Moves

variable [DecidableEq Tx] {cryptoShorthash : CryptoShorthash} {library : ContractLibrary}
  {store : StateStore Database} {programs : Tx → Program}
  {block next : BlockExecution Tx Database} {move : BlockMove Tx}

def MovesHarmlessly (cryptoShorthash : CryptoShorthash) (library : ContractLibrary)
    (store : StateStore Database) (programs : Tx → Program) (block : BlockExecution Tx Database)
    (move : BlockMove Tx) (next : BlockExecution Tx Database) : Prop :=
  MovesBlock cryptoShorthash library store programs block move next ∧
    HarmlessMove store programs block move

/-! ## The count of open rewinds -/

def CountsFit (block : BlockExecution Tx Database) : Prop :=
  ∀ key, holderCount ↑(Rewinds.on key block.held) < 256 ∨
    Decided (deltasOn key block.books.committed)

theorem decided_cons {committed : Multiset StorageDelta} (delta : StorageDelta)
    (decided : Decided committed) : Decided (delta ::ₘ committed) := by
  obtain ⟨other, member, classed⟩ := decided
  exact ⟨other, Multiset.mem_cons_of_mem member, classed⟩

omit [DecidableEq Tx] in
theorem held_erased (block : BlockExecution Tx Database) (position : Nat) (other : AddressAndKey) :
    holderCount ↑(Rewinds.on other ((block.books.held.eraseIdx position).map Prod.snd)) ≤
      holderCount ↑(Rewinds.on other block.held) := by
  apply Multiset.countP_le_of_le
  rw [← List.eraseIdx_map]
  exact Multiset.coe_le.mpr ((List.eraseIdx_sublist _ _).filterMap _).subperm

theorem moves_counts_fit (view : ObjectStore cryptoShorthash store)
    (block : BlockExecution Tx Database) (move : BlockMove Tx)
    (next : BlockExecution Tx Database) (fits : CountsFit block)
    (moves : MovesHarmlessly cryptoShorthash library store programs block move next) :
    CountsFit next := by
  obtain ⟨moves, harmless⟩ := moves
  cases block_move_cases moves with
  | @accepted tx ids key delta rest rewind after status phase applied =>
      obtain ⟨changed, returned, _⟩ := view.push applied
      have own := try_add_delta_own returned
      intro other
      by_cases here : other = key
      · subst here
        have held : Rewinds.on other (({ block.withPush store ids other delta after with
            books := block.books.accept tx (other, rewind) rest } :
              BlockExecution Tx Database)).held = rewind :: Rewinds.on other block.held := by
          rw [BlockExecution.held, Books.accept, List.map_cons, Rewinds.on_self]
          rfl
        rw [held, ← Multiset.cons_coe, holder_count_cons]
        cases holds : rewind.holds with
        | false =>
            simp only [Bool.false_eq_true, if_false, add_zero]
            exact fits other
        | true =>
            obtain ⟨value, classed⟩ := (holds_iff rewind).mp holds
            rw [own] at classed
            obtain ⟨room, _⟩ := harmless other delta rest phase
            rcases room (classed ▸ Option.some_ne_none value) with few | decided
            · left
              rw [if_pos rfl]
              omega
            · exact .inr decided
      · have held : Rewinds.on other (({ block.withPush store ids key delta after with
            books := block.books.accept tx (key, rewind) rest } :
              BlockExecution Tx Database)).held = Rewinds.on other block.held := by
          rw [BlockExecution.held, Books.accept, List.map_cons, Rewinds.on_other other here]
          rfl
        rw [held]
        exact fits other
  | @committed position tx key rewind after found phase through =>
      intro other
      have fewer := held_erased block position other
      rcases fits other with few | decided
      · exact .inl (fewer.trans_lt few)
      · right
        simp only [Books.commitAt]
        by_cases here : other = key
        · subst here
          rw [deltas_on_self]
          exact decided_cons _ decided
        · rw [deltas_on_other other here]
          exact decided
  | @destroyed position newId tx key rewind after found phase through =>
      intro other
      have fewer := held_erased block position other
      rcases fits other with few | decided
      · exact .inl (fewer.trans_lt few)
      · exact .inr decided
  | _ => exact fits

/-! ## What the database keeps -/

/-- The database responds, and holds the object of every open rewind. -/
structure Standing {view : ObjectStore cryptoShorthash store} (respond : RespondingStore view)
    (block : BlockExecution Tx Database) : Prop where
  ready : respond.Ready block.globalContext.stateDb
  present : ∀ ticket ∈ block.books.held, respond.Present block.globalContext.stateDb ticket.2.1

theorem moves_standing {view : ObjectStore cryptoShorthash store}
    (respond : RespondingStore view) (block : BlockExecution Tx Database) (move : BlockMove Tx)
    (next : BlockExecution Tx Database) (standing : Standing respond block)
    (moves : MovesBlock cryptoShorthash library store programs block move next) :
    Standing respond next := by
  obtain ⟨ready, present⟩ := standing
  have erased {position : Nat} {after : Database}
      (kept : ∀ other, respond.Present block.globalContext.stateDb other →
        respond.Present after other) :
      ∀ ticket ∈ block.books.held.eraseIdx position, respond.Present after ticket.2.1 :=
    fun ticket member => kept _ (present ticket (List.mem_of_mem_eraseIdx member))
  cases block_move_cases moves with
  | @accepted tx ids key delta rest rewind after status phase applied =>
      obtain ⟨still, own, kept⟩ := respond.push_ready ready applied
      constructor
      · exact still
      · intro ticket member
        rcases List.mem_cons.mp member with rfl | earlier
        · exact own
        · exact kept _ (present ticket earlier)
  | rejected status phase applied =>
      obtain ⟨still, _, kept⟩ := respond.push_ready ready applied
      exact ⟨still, fun ticket member => kept _ (present ticket member)⟩
  | committed found phase through =>
      obtain ⟨still, kept⟩ := respond.through_ready ready through
      exact ⟨still, erased kept⟩
  | destroyed found phase through =>
      obtain ⟨still, kept⟩ := respond.through_ready ready through
      exact ⟨still, erased kept⟩
  | _ => exact ⟨ready, present⟩

end Moves

/-! ## Every delta is an implemented one -/

theorem get_deltas_implemented {applicator : ProxyApplicator} {delta : StorageDelta}
    (member : delta ∈ applicator.getDeltas) : delta.implemented = true := by
  unfold ProxyApplicator.getDeltas at member
  split at member
  · cases member
  · simp only [List.mem_append, Option.mem_toList, Option.map_eq_some_iff,
      List.mem_map] at member
    rcases member with (((((⟨_, _, rfl⟩ | ⟨_, _, rfl⟩) | member) | ⟨_, _, rfl⟩) | ⟨_, _, rfl⟩) |
      ⟨_, _, rfl⟩) | member
    · rfl
    · rfl
    · split_ifs at member
      · rw [List.mem_singleton.mp member]
        rfl
      · cases member
    · rfl
    · rfl
    · rfl
    · split_ifs at member
      · rw [List.mem_singleton.mp member]
        rfl
      · cases member

theorem proxy_deltas_implemented {proxy : StorageProxy} {key : AddressAndKey}
    {delta : StorageDelta} (member : (key, delta) ∈ proxy.deltas) :
    delta.implemented = true := by
  obtain ⟨applicator, _, pushed⟩ := StorageProxy.mem_deltas.mp member
  exact get_deltas_implemented pushed

/-! ## The next move of a transaction -/

section Due

variable [DecidableEq Tx] {cryptoShorthash : CryptoShorthash} {library : ContractLibrary}
  {store : StateStore Database} {view : SettlingStore cryptoShorthash store}
  {programs : Tx → Program} {before : GlobalContext Database} {moves : List (BlockMove Tx)}
  {block : BlockExecution Tx Database} {move : BlockMove Tx}

theorem harmless_run_moves
    (run : Run (MovesHarmlessly cryptoShorthash library store programs) (.start before) moves
      block) :
    Run (MovesBlock cryptoShorthash library store programs) (.start before) moves block :=
  run_mono (fun _ _ _ moves => moves.1) run

theorem run_views_seen (steady : SteadyStore store)
    (run : Run (MovesBlock cryptoShorthash library store programs) (.start before) moves block)
    (tx : Tx) : ViewsSeen (block.committedValues store) (block.contexts tx).storageProxy := by
  apply run_invariant (fun block : BlockExecution Tx Database =>
    ViewsSeen (block.committedValues store) (block.contexts tx).storageProxy) _ _ run
  · intro block move next seen moves
    have same : next.committedValues store = block.committedValues store :=
      congrArg Prod.fst (snapshot_frozen steady block move next moves)
    rw [same]
    cases own : move.isCallOf tx with
    | true =>
        rw [call_advances moves own]
        exact advance_seen seen
    | false =>
        rw [other_context_kept moves own]
        exact seen
  · exact views_seen_empty

/-- The next call of a transaction faults exactly when its program calls what does. -/
theorem advance_faults_iff {committed : CommittedValues} {contractDb : ContractDB}
    {program : Program} {context : TransactionContext} {fault : Fault}
    (running : context.status = .running) :
    (context.advance library committed contractDb program).status = .threw (.other fault) ↔
      ∃ next, program context.results = .call next ∧
        context.perform library committed contractDb next = .error (.other fault) := by
  unfold TransactionContext.advance
  rw [running]
  cases called : program context.results with
  | returns =>
      constructor
      · intro impossible
        cases impossible
      · rintro ⟨next, impossible, _⟩
        cases impossible
  | traps what =>
      constructor
      · intro impossible
        cases impossible
      · rintro ⟨next, impossible, _⟩
        cases impossible
  | call next =>
      cases performed : context.perform library committed contractDb next with
      | ok result =>
          have still := TransactionContext.perform_status performed
          rw [running] at still
          constructor
          · intro impossible
            simp only [performed, still] at impossible
            cases impossible
          · rintro ⟨other, same, impossible⟩
            cases same
            rw [performed] at impossible
            cases impossible
      | error thrown =>
          simp only [performed, ContextStatus.threw.injEq]
          constructor
          · intro same
            exact ⟨next, rfl, same ▸ performed⟩
          · rintro ⟨other, same, threw⟩
            cases same
            rw [performed] at threw
            exact Except.error.inj threw

/-- A call aborts the process on anything but a `HostError`. -/
theorem call_moves_iff {tx : Tx} (running : (block.contexts tx).status = .running) :
    (∃ next, MovesBlock cryptoShorthash library store programs block (.call tx) next) ↔
      ∀ fault, (block.advanced library store programs tx).status ≠ .threw (.other fault) := by
  constructor
  · rintro ⟨next, moves⟩ fault aborted
    cases block_move_cases moves with
    | went _ status =>
        rw [aborted] at status
        cases status
    | returned _ status =>
        rw [aborted] at status
        cases status
    | threw _ status =>
        rw [aborted] at status
        cases status
  · intro safe
    unfold MovesBlock BlockExecution.perform
    simp only [running]
    cases status : (block.advanced library store programs tx).status with
    | running => exact ⟨_, rfl⟩
    | returned => exact ⟨_, rfl⟩
    | threw thrown =>
        cases thrown with
        | hostError what => exact ⟨_, rfl⟩
        | other fault => exact absurd status (safe fault)

/-- A running transaction can be called on exactly off a committed script
without bytes. -/
theorem call_returns_iff {tx : Tx} (tidy : ∀ key, Tidy (block.committedValues store key))
    (seen : ViewsSeen (block.committedValues store) (block.contexts tx).storageProxy)
    (running : (block.contexts tx).status = .running) :
    (∃ next, MovesBlock cryptoShorthash library store programs block (.call tx) next) ↔
      block.FindsScript programs tx := by
  rw [call_moves_iff running]
  constructor
  · intro safe address called
    apply get_script_returns_iff.mp
    cases found : (block.contexts tx).contractDbProxy.getScript
        block.globalContext.contractDb address with
    | ok view => exact ⟨view, rfl⟩
    | error fault =>
        have faults : (block.contexts tx).perform library (block.committedValues store)
            block.globalContext.contractDb (.getScript address) = .error (.other fault) := by
          unfold TransactionContext.perform
          simp only [found]
        exact absurd ((advance_faults_iff running).mpr ⟨_, called, faults⟩) (safe fault)
  · intro finds fault aborted
    obtain ⟨next, called, faults⟩ := (advance_faults_iff running).mp aborted
    obtain ⟨address, same, threw⟩ := perform_throws tidy seen faults
    rw [same] at called
    obtain ⟨view, found⟩ := get_script_returns_iff.mpr (finds address called)
    rw [threw] at found
    cases found

theorem fits_not_full {held : Rewinds} {committed : Multiset StorageDelta}
    {key : AddressAndKey}
    (fits : holderCount ↑(Rewinds.on key held) < 256 ∨ Decided committed) :
    ¬ Full committed ↑(Rewinds.on key held) := by
  rintro ⟨many, undecided⟩
  rcases fits with few | decided
  · exact absurd few (not_lt.mpr many)
  · exact undecided decided

omit [DecidableEq Tx] in
theorem counts_fit_start (globalContext : GlobalContext Database) :
    CountsFit (.start globalContext : BlockExecution Tx Database) := by
  intro key
  left
  have nobody : holderCount 0 = 0 := Multiset.countP_zero _
  exact nobody.trans_lt (by decide)

theorem due_delta_implemented (balanced : BlockBalanced block) {tx : Tx} {key : AddressAndKey}
    {delta : StorageDelta} {rest : List (AddressAndKey × StorageDelta)}
    (returned : (block.contexts tx).status = .returned)
    (phase : block.books.phase tx = .pushing ((key, delta) :: rest)) :
    delta.implemented = true := by
  have member : (key, delta) ∈ (block.pushes tx : Multiset (AddressAndKey × StorageDelta)) := by
    rw [← balanced.balanced.pushing tx _ phase]
    exact Multiset.mem_add.mpr (.inr List.mem_cons_self)
  rw [BlockExecution.pushes, pushes_returned returned] at member
  exact proxy_deltas_implemented member

theorem due_move_returns (steady : SteadyStore store) (rested : Rested view before.stateDb)
    (respond : RespondingStore view.toObjectStore) (ready : respond.Ready before.stateDb)
    (clear : before.contractDb.uncommittedContracts = .empty)
    (run : Run (MovesHarmlessly cryptoShorthash library store programs) (.start before) moves
      block)
    {tx : Tx} (due : DueMove block tx move) (harmless : HarmlessMove store programs block move) :
    ∃ next, MovesBlock cryptoShorthash library store programs block move next := by
  have moved := harmless_run_moves run
  have standing : Standing respond block := by
    apply run_invariant (Standing respond) (moves_standing respond) _ moved
    exact ⟨ready, fun ticket impossible => by cases impossible⟩
  have fits : CountsFit block :=
    run_invariant CountsFit (moves_counts_fit view.toObjectStore) (counts_fit_start before) run
  choose openings base kempt start using rested.opened
  have kept : BlockKept view.toObjectStore openings block := run_block_kept openings start moved
  cases due with
  | call running =>
      refine (call_returns_iff ?_ (run_views_seen steady moved tx) running).mpr harmless
      intro key
      have tidy := (base key ▸ kempt key).toTidy
      rw [run_committed_values steady moved]
      exact tidy
  | @push ids key delta rest returned phase =>
      obtain ⟨agreement, accounts⟩ := kept key
      have implemented :=
        due_delta_implemented (run_balanced view.toObjectStore moved) returned phase
      obtain ⟨room, entry⟩ := harmless key delta rest phase
      obtain ⟨answer, changed, added⟩ :=
        push_returns accounts implemented room (fresh_serves : (ids.holding 0).Serves delta)
      -- off its last entry a thread answers as if it had allocated nothing
      have index : IndexUse (fun count => (view.objects block.globalContext.stateDb key).tryAddDelta
          cryptoShorthash (ids.holding count) delta) _ := try_add_delta_index_use
      rw [← respond.takes_index standing.ready] at index
      have issued := (index_use_answer index entry).trans added
      obtain ⟨after, applied⟩ := respond.push_returns standing.ready issued
      change store.tryApplyDelta (block.issued ids) key delta _ = _ at applied
      unfold MovesBlock BlockExecution.perform
      cases answer with
      | none => simp only [returned, phase, applied, Option.some.injEq, exists_eq']
      | some rewind => simp only [returned, phase, applied, Option.some.injEq, exists_eq']
  | pass returned phase =>
      have fresh := ((run_contract_books clear moved).deployable tx).uncommitted
      unfold MovesBlock BlockExecution.perform ContractDBProxy.pushUpdatesToDb
      simp only [returned, phase, fresh, Bool.false_eq_true, if_false, Option.some.injEq,
        exists_eq']
  | @commit position key rewind found phase =>
      obtain ⟨agreement, accounts⟩ := kept key
      have opened : (Rewinds.on key (view.world block).held : Multiset DeltaRewind) = _ :=
        on_erase_self (block_held_found found)
      rw [opened] at accounts
      obtain ⟨changed, committed, _⟩ := rewind_commit_spec accounts
      obtain ⟨after, through⟩ := respond.through_returns
        (standing.present _ (List.mem_of_getElem? found)) committed
      unfold MovesBlock BlockExecution.perform
      simp only [found, phase, through, Option.some.injEq, exists_eq']
  | @close thread closure rest closing =>
      obtain ⟨after, recorded⟩ : ∃ after, closure.run thread _ = .ok after :=
        closure_runs_iff.mpr (harmless closure rest closing)
      unfold MovesBlock BlockExecution.perform
      simp only [closing, recorded, Option.some.injEq, exists_eq']
  | @destroy position newId key rewind found phase =>
      obtain ⟨agreement, accounts⟩ := kept key
      have room := fits_not_full (fits key)
      have opened : (Rewinds.on key (view.world block).held : Multiset DeltaRewind) = _ :=
        on_erase_self (block_held_found found)
      rw [opened] at accounts
      rw [on_erase_self (block_held_found found)] at room
      obtain ⟨changed, destroyed⟩ := (destroy_returns_iff accounts newId).mpr fun _ => room
      obtain ⟨after, through⟩ := respond.through_returns
        (standing.present _ (List.mem_of_getElem? found)) destroyed
      unfold MovesBlock BlockExecution.perform
      simp only [found, phase, through, Option.some.injEq, exists_eq']

theorem push_keeps_entry (respond : RespondingStore view.toObjectStore)
    (ready : respond.Ready before.stateDb)
    (run : Run (MovesBlock cryptoShorthash library store programs) (.start before) moves block)
    {tx : Tx} {ids : CallIds} {key : AddressAndKey} {delta : StorageDelta}
    {rest : List (AddressAndKey × StorageDelta)}
    (phase : block.books.phase tx = .pushing ((key, delta) :: rest))
    {next : BlockExecution Tx Database}
    (moved : MovesBlock cryptoShorthash library store programs block (.push tx ids) next) :
    block.HasEntry store ids key delta := by
  have standing : Standing respond block := by
    apply run_invariant (Standing respond) (moves_standing respond) _ run
    exact ⟨ready, fun ticket impossible => by cases impossible⟩
  intro taken
  cases block_move_cases moved with
  | accepted status other applied =>
      rw [phase] at other
      cases other
      exact respond.push_entry standing.ready applied taken
  | rejected status other applied =>
      rw [phase] at other
      cases other
      exact respond.push_entry standing.ready applied taken

/-- A closure that waits can run exactly when the block has not recorded its script. -/
theorem close_returns_iff {tx : Tx} {thread : Fin tlcacheSize} {closure : ContractClosure}
    {rest : List ContractClosure}
    (closing : block.closures tx = closure :: rest) :
    (∃ next, MovesBlock cryptoShorthash library store programs block (.close tx thread) next) ↔
      closure.Unrecorded block.globalContext.contractDb := by
  rw [← closure_runs_iff]
  constructor
  · rintro ⟨next, moves⟩
    cases block_move_cases moves with
    | closed other run =>
        rw [closing] at other
        cases other
        exact ⟨_, run⟩
  · rintro ⟨after, recorded⟩
    unfold MovesBlock BlockExecution.perform
    simp only [closing, recorded, Option.some.injEq, exists_eq']

def ThrewAborts (block : BlockExecution Tx Database) : Prop :=
  ∀ tx thrown, (block.contexts tx).status = .threw thrown → block.books.phase tx = .aborting

theorem moves_threw_aborts (block : BlockExecution Tx Database) (move : BlockMove Tx)
    (next : BlockExecution Tx Database) (kept : ThrewAborts block)
    (moves : MovesBlock cryptoShorthash library store programs block move next) :
    ThrewAborts next := by
  have called {tx : Tx} {context : TransactionContext}
      {phase : Phase (AddressAndKey × StorageDelta)}
      (own : ∀ thrown, context.status = .threw thrown → phase = .aborting) :
      ∀ other thrown, (Function.update block.contexts tx context other).status = .threw thrown →
        Function.update block.books.phase tx phase other = .aborting := by
    intro other thrown threw
    by_cases same : other = tx
    · subst same
      rw [Function.update_self] at threw ⊢
      exact own thrown threw
    · rw [Function.update_of_ne same] at threw ⊢
      exact kept other thrown threw
  have pushed {tx : Tx} (status : (block.contexts tx).status = .returned)
      (phase : Phase (AddressAndKey × StorageDelta)) :
      ∀ other thrown, (block.contexts other).status = .threw thrown →
        Function.update block.books.phase tx phase other = .aborting := by
    intro other thrown threw
    have apart : other ≠ tx := by
      rintro rfl
      rw [status] at threw
      cases threw
    rw [Function.update_of_ne apart]
    exact kept other thrown threw
  cases block_move_cases moves with
  | @went tx running status =>
      have still : ∀ other thrown, (Function.update block.contexts tx
          (block.advanced library store programs tx) other).status = .threw thrown →
            Function.update block.books.phase tx (block.books.phase tx) other = .aborting := by
        apply called
        intro thrown threw
        rw [status] at threw
        cases threw
      rw [Function.update_eq_self] at still
      exact still
  | returned running status =>
      apply called
      intro thrown threw
      rw [status] at threw
      cases threw
  | threw running status => exact called fun _ _ => rfl
  | accepted status phase applied => exact pushed status _
  | rejected status phase applied => exact pushed status _
  | gaveUp status phase => exact pushed status _
  | passed status phase updates => exact pushed status _
  | _ => exact kept

/-- No transaction waits for ever: it is about to make a move, or its status has
been returned. -/
theorem due_or_finished
    (run : Run (MovesBlock cryptoShorthash library store programs) (.start before) moves block)
    (tx : Tx) : (∃ move, DueMove block tx move) ∨ block.Finished tx := by
  have aborts : ThrewAborts block := by
    apply run_invariant ThrewAborts moves_threw_aborts _ run
    intro other thrown impossible
    cases impossible
  have settled (phase : block.books.phase tx = .committing ∨ block.books.phase tx = .aborting)
      (due : ∀ (position : ℕ) (key : AddressAndKey) (rewind : DeltaRewind),
        block.books.held[position]? = some (tx, key, rewind) → ∃ move, DueMove block tx move) :
      (∃ move, DueMove block tx move) ∨ block.Finished tx := by
    by_cases held : ∃ ticket ∈ block.books.held, ticket.1 = tx
    · obtain ⟨⟨owner, key, rewind⟩, member, rfl⟩ := held
      obtain ⟨position, found⟩ := List.mem_iff_getElem?.mp member
      exact .inl (due position key rewind found)
    · cases closures : block.closures tx with
      | cons closure rest => exact .inl ⟨.close tx firstThread, .close closures⟩
      | nil =>
          right
          exact ⟨phase, fun ticket member own => held ⟨ticket, member, own⟩, closures⟩
  have aborting (phase : block.books.phase tx = .aborting) :
      (∃ move, DueMove block tx move) ∨ block.Finished tx :=
    settled (.inr phase) fun position _ _ found =>
      ⟨.destroy position CallIds.first.undo, .destroy found phase⟩
  cases status : (block.contexts tx).status with
  | running => exact .inl ⟨_, .call status⟩
  | threw thrown => exact aborting (aborts tx thrown status)
  | returned =>
      cases phase : block.books.phase tx with
      | pushing remaining =>
          cases remaining with
          | nil => exact .inl ⟨_, .pass status phase⟩
          | cons item rest => exact .inl ⟨.push tx .first, .push status phase⟩
      | committing =>
          exact settled (.inl phase) fun _ _ _ found => ⟨_, .commit found phase⟩
      | aborting => exact aborting phase

end Due

end Scs
