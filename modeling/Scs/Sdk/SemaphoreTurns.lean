import Scs.Sdk.Semaphore

/-!
# Transactions that acquire a semaphore in turn

When the transactions of a block run one after another and acquire once each, a
semaphore lets the first ones through and no others.
-/

namespace Scs

set_option autoImplicit false

open Ledger Lockstep Runs TwoPhase

/-! ## Turns -/

/-- The moves of one transaction, and of the thread that saves contracts. A rewind is
moved by whoever holds it. -/
inductive BlockMove.InTurn {Tx : Type*} (tx : Tx) : BlockMove Tx → Prop
  | call : InTurn tx (.call tx)
  | push (ids : CallIds) : InTurn tx (.push tx ids)
  | giveUp : InTurn tx (.giveUp tx)
  | pass : InTurn tx (.pass tx)
  | commit (position : Nat) : InTurn tx (.commit position)
  | close (thread : Fin tlcacheSize) : InTurn tx (.close tx thread)
  | destroy (position : Nat) (newId : UniqueId) : InTurn tx (.destroy position newId)
  | persist : InTurn tx .persist

inductive BlockMove.FailsOver {Tx Database : Type} (key : AddressAndKey) (programs : Tx → Program)
    (block : BlockExecution Tx Database) : BlockMove Tx → Prop
  | call {tx : Tx} {next : ProxyCall}
      (called : programs tx (block.contexts tx).results = .call next)
      (own : next.key? = some key) : FailsOver key programs block (.call tx)
  | push {tx : Tx} (ids : CallIds) {delta : StorageDelta}
      {rest : List (AddressAndKey × StorageDelta)}
      (phase : block.books.phase tx = .pushing ((key, delta) :: rest)) :
      FailsOver key programs block (.push tx ids)

/-- A move in the turn of a transaction, which fails over the key or not at all. Failures
for other reasons are no matter of the semaphore. -/
structure TurnMove (cryptoShorthash : CryptoShorthash) (library : ContractLibrary)
    {Tx Database : Type} [DecidableEq Tx] (store : StateStore Database) (programs : Tx → Program)
    (key : AddressAndKey) (tx : Tx) (block : BlockExecution Tx Database) (move : BlockMove Tx)
    (next : BlockExecution Tx Database) : Prop where
  moves : MovesBlock cryptoShorthash library store programs block move next
  own : move.InTurn tx
  fails : block.books.phase tx ≠ .aborting → next.books.phase tx = .aborting →
    move.FailsOver key programs block

inductive SerialTurns (cryptoShorthash : CryptoShorthash) (library : ContractLibrary)
    {Tx Database : Type} [DecidableEq Tx] (store : StateStore Database) (programs : Tx → Program)
    (key : AddressAndKey) (before : GlobalContext Database) :
    List Tx → BlockExecution Tx Database → Prop
  | start : SerialTurns cryptoShorthash library store programs key before [] (.start before)
  | turn {txs : List Tx} {tx : Tx} {block next : BlockExecution Tx Database}
      {moves : List (BlockMove Tx)}
      (earlier : SerialTurns cryptoShorthash library store programs key before txs block)
      (fresh : tx ∉ txs)
      (run : Run (TurnMove cryptoShorthash library store programs key tx) block moves next)
      (settled : next.books.phase tx = .committing ∨ next.books.phase tx = .aborting)
      (closed : next.books.held = []) :
      SerialTurns cryptoShorthash library store programs key before (txs ++ [tx]) next

/-- The program keeps to the semaphore, and acquires before it does anything else
with the key. -/
structure TakesTurn (kind : SemaphoreClass) (key : AddressAndKey) (count : UInt32)
    (program : Program) (results : List CallResult) : Prop where
  calls : program.CallsOn key (SemaphoreCall key count kind) results
  first : ∀ earlier, earlier <+: results →
    program earlier = .call (takeOne key (semaphoreCount count)) →
    ∀ call ∈ program.made earlier, call.key? ≠ some key

structure AcquiresOnce (kind : SemaphoreClass) (key : AddressAndKey) (count : UInt32)
    (program : Program) (context : TransactionContext) : Prop
    extends TakesTurn kind key count program context.results where
  once : context.status = .returned →
    program.acquisitions key (semaphoreCount count) context.results = 1

section Turns

variable {cryptoShorthash : CryptoShorthash} {library : ContractLibrary} {Tx Database : Type}
  [DecidableEq Tx] {store : StateStore Database} {view : SettlingStore cryptoShorthash store}
  {programs : Tx → Program} {key : AddressAndKey} {before : GlobalContext Database}
  {txs earlier : List Tx} {tx : Tx} {block next last : BlockExecution Tx Database}
  {move : BlockMove Tx} {moves : List (BlockMove Tx)} {kind : SemaphoreClass} {count : UInt32}

theorem turn_moves (run : Run (TurnMove cryptoShorthash library store programs key tx) block moves
    next) : Run (MovesBlock cryptoShorthash library store programs) block moves next :=
  run_mono (fun _ _ _ turn => turn.moves) run

theorem turns_run (turns : SerialTurns cryptoShorthash library store programs key before txs
    block) : ∃ moves, Run (MovesBlock cryptoShorthash library store programs) (.start before) moves
      block := by
  induction turns with
  | start => exact ⟨[], .nil _⟩
  | turn earlier fresh run settled closed induction =>
      obtain ⟨before, reached⟩ := induction
      exact ⟨_, run_append reached (turn_moves run)⟩

/-! ## What a run adds -/

theorem run_results
    (run : Run (MovesBlock cryptoShorthash library store programs) block moves next) (tx : Tx) :
    (block.contexts tx).results <+: (next.contexts tx).results := by
  apply run_related (fun block next : BlockExecution Tx Database =>
    (block.contexts tx).results <+: (next.contexts tx).results) _ _ _ run
  · exact fun _ => List.prefix_refl _
  · exact fun _ _ _ => List.IsPrefix.trans
  · intro block move next moves
    cases own : move.isCallOf tx with
    | true =>
        rw [call_advances moves own]
        exact advance_results _ _ _ _ _
    | false =>
        rw [other_context_kept moves own]

theorem run_order
    (run : Run (MovesBlock cryptoShorthash library store programs) block moves next) :
    block.books.order <+: next.books.order := by
  apply run_related (fun block next : BlockExecution Tx Database =>
    block.books.order <+: next.books.order) _ _ _ run
  · exact fun _ => List.prefix_refl _
  · exact fun _ _ _ => List.IsPrefix.trans
  · intro block move next moves
    cases block_move_cases moves with
    | passed status phase updates => exact List.prefix_append _ _
    | _ => exact List.prefix_refl _

/-! ## Nothing fails while there is room -/

theorem acquisitions_le_one {program : Program} {results : List CallResult}
    (first : ∀ earlier, earlier <+: results →
      program earlier = .call (takeOne key (semaphoreCount count)) →
      ∀ call ∈ program.made earlier, call.key? ≠ some key) :
    program.acquisitions key (semaphoreCount count) results ≤ 1 := by
  induction results using List.reverseRecOn with
  | nil => exact Nat.zero_le 1
  | append_singleton results result induction =>
      have before := induction fun earlier within => first earlier
        (within.trans (List.prefix_append _ _))
      cases step : program results with
      | call next =>
          rw [acquisitions_snoc program results result step]
          split_ifs with takes
          · rw [takes_iff.mp takes] at step
            have nothing : program.acquisitions key (semaphoreCount count) results = 0 := by
              apply List.countP_eq_zero.mpr
              intro call member taken
              exact first results (List.prefix_append _ _) step call member (takes_key taken)
            omega
          · exact before
      | returns =>
          rw [Program.acquisitions, Program.made_snoc, step]
          exact (congrArg (List.countP _) (List.append_nil _)).trans_le before
      | traps what =>
          rw [Program.acquisitions, Program.made_snoc, step]
          exact (congrArg (List.countP _) (List.append_nil _)).trans_le before

theorem try_apply_returns {committed : CommittedValues} {proxy : StorageProxy}
    {delta : StorageDelta} {applicator : ProxyApplicator} (what : String)
    (accepted : (proxy.localOf committed key).tryApply delta = .ok (true, applicator)) :
    ∃ after, proxy.tryApply committed key delta what = .ok after := by
  unfold StorageProxy.tryApply
  simp only [StorageProxy.get_local_eq, accepted]
  exact ⟨_, rfl⟩

theorem semaphore_call_returns {committed : CommittedValues} {contractDb : ContractDB}
    {program : Program} {context : TransactionContext} {next : ProxyCall}
    (kept : CountedContext committed key (semaphoreCount count) program context)
    (admits : Admits (committed key) .nonnegativeInt64) (room : 0 < count.toNat)
    (uses : SemaphoreCall key count kind next)
    (first : next = takeOne key (semaphoreCount count) →
      ∀ call ∈ program.made context.results, call.key? ≠ some key) :
    ∃ result after, context.perform library committed contractDb next = .ok (result, after) := by
  have positive : 0 < (semaphoreCount count).toInt := by
    rw [semaphore_count_eq]
    omega
  have acquires (fresh : ∀ call ∈ program.made context.results, call.key? ≠ some key) :
      ∃ result after, context.perform library committed contractDb
        (takeOne key (semaphoreCount count)) = .ok (result, after) := by
    obtain ⟨applicator, accepted⟩ := take_one_accepted admits positive
    rw [← kept.fresh fresh] at accepted
    obtain ⟨storageProxy, returned⟩ := try_apply_returns
      "failed to apply nonnegative_int64_set_add" accepted
    exact ⟨_, _, congrArg context.written returned⟩
  cases uses with
  | acquire => exact acquires (first rfl)
  | acquireTransient => exact acquires (first rfl)
  | destroy =>
      obtain ⟨storageProxy, returned⟩ := try_apply_returns "failed to apply delete_last"
        (show (context.storageProxy.localOf committed key).tryApply makeDeleteLast =
          .ok (true, _) from if_pos rfl)
      exact ⟨_, _, congrArg context.written returned⟩

omit [DecidableEq Tx] in
theorem acquired_le_length
    (single : ∀ tx ∈ block.books.order, (programs tx).acquisitions key (semaphoreCount count)
      (block.contexts tx).results ≤ 1) :
    block.acquired key (semaphoreCount count) programs ≤ block.books.order.length := by
  unfold BlockExecution.acquired
  generalize block.books.order = order at single
  induction order with
  | nil => exact Nat.le_refl 0
  | cons tx rest induction =>
      have own := single tx List.mem_cons_self
      have others := induction fun other member => single other (List.mem_cons_of_mem tx member)
      rw [List.map_cons, List.sum_cons, List.length_cons]
      omega

def TakeTurns (kind : SemaphoreClass) (key : AddressAndKey) (count : UInt32)
    (programs : Tx → Program) (txs : List Tx) (block : BlockExecution Tx Database) : Prop :=
  ∀ tx ∈ txs, TakesTurn kind key count (programs tx) (block.contexts tx).results

theorem turn_live (view : ObjectStore cryptoShorthash store) (key : AddressAndKey)
    (run : Run (MovesBlock cryptoShorthash library store programs) (.start before) moves block)
    (own : ∀ entry ∈ block.books.held, entry.1 = tx)
    {deltas : List (AddressAndKey × StorageDelta)}
    (phase : block.books.phase tx = .pushing deltas) :
    live ↑(Rewinds.on key block.held) (deltasOn key block.books.committed) =
      deltasOn key (heldItems ticketItem block.books.held) +
        deltasOn key (promised block.pushes block.books.order) := by
  have books := (run_balanced view run).balanced
  have stranger := undecided_not_listed books phase
  have settled := books.settled
  rw [owned_none ticketItem fun entry member inside => stranger (own entry member ▸ inside),
    add_zero] at settled
  have held : live ↑(Rewinds.on key block.held) (deltasOn key block.books.committed) =
      deltasOn key (heldItems ticketItem block.books.held + block.books.committed) :=
    books_live key block.books
  rw [held, deltas_on_add, settled]

theorem turn_pushes (view : ObjectStore cryptoShorthash store) (committed : CommittedValues)
    (run : Run (MovesBlock cryptoShorthash library store programs) (.start before) moves block)
    (own : ∀ entry ∈ block.books.held, entry.1 = tx)
    (status : (block.contexts tx).status = .returned) {delta : StorageDelta}
    {rest : List (AddressAndKey × StorageDelta)}
    (phase : block.books.phase tx = .pushing ((key, delta) :: rest)) :
    deltasOn key (heldItems ticketItem block.books.held) + delta ::ₘ deltasOn key ↑rest =
      ↑((block.contexts tx).storageProxy.localOf committed key).getDeltas := by
  have books := (run_balanced view run).balanced
  have mine : owned ticketItem [tx] block.books.held = heldItems ticketItem block.books.held :=
    owned_all ticketItem fun entry member => List.mem_singleton.mpr (own entry member)
  have pushes := congrArg (deltasOn key) (books.pushing tx _ phase)
  rw [mine, deltas_on_add, returned_pushes committed key status, ← Multiset.cons_coe,
    deltas_on_self]
    at pushes
  exact pushes

theorem turn_affordable (view : ObjectStore cryptoShorthash store) (steady : SteadyStore store)
    (run : Run (MovesBlock cryptoShorthash library store programs) (.start before) moves block)
    (take : TakeTurns kind key count programs (tx :: block.books.order) block)
    (admits : Admits (store.getCommittedValue key before.stateDb) .nonnegativeInt64)
    (own : ∀ entry ∈ block.books.held, entry.1 = tx)
    (room : block.books.order.length < count.toNat)
    (status : (block.contexts tx).status = .returned) {delta : StorageDelta}
    {rest : List (AddressAndKey × StorageDelta)}
    (phase : block.books.phase tx = .pushing ((key, delta) :: rest)) {opening : Opening}
    {agreement : Agreement} {object : RevertableObject}
    (base : opening.base = store.getCommittedValue key before.stateDb)
    (accounts : Accounts cryptoShorthash opening ↑(Rewinds.on key block.held)
      (deltasOn key block.books.committed) agreement object) :
    slotsTaken delta = 0 ∧
      Affordable opening (live ↑(Rewinds.on key block.held) (deltasOn key block.books.committed))
        (deltasOn key block.books.committed) delta := by
  have counts : CountsDown key (semaphoreCount count) programs block := fun other listed =>
    semaphore_calls_counted (take other (List.mem_cons_of_mem tx listed)).calls
  have context := counted_context steady run
    (semaphore_calls_counted (take tx List.mem_cons_self).calls)
  have pushes := turn_pushes view (fun key => store.getCommittedValue key before.stateDb) run own
    status phase
  have lives := turn_live view key run own phase
  have own_counted : ∀ other ∈ deltasOn key (heldItems ticketItem block.books.held) +
      delta ::ₘ deltasOn key ↑rest, CountedDelta (semaphoreCount count) other := by
    rw [pushes]
    exact counted_deltas context.view
  have counted : ∀ other ∈
      live ↑(Rewinds.on key block.held) (deltasOn key block.books.committed),
      CountedDelta (semaphoreCount count) other := by
    intro other member
    rw [lives] at member
    rcases Multiset.mem_add.mp member with held | earlier
    · exact own_counted other (Multiset.mem_add.mpr (.inl held))
    · exact promised_counted steady run counts other earlier
  have now := own_counted delta (Multiset.mem_add.mpr (.inr (Multiset.mem_cons_self _ _)))
  have compatible : Compatible opening
      (live ↑(Rewinds.on key block.held) (deltasOn key block.books.committed)) delta := by
    refine ⟨?_, ?_, ?_⟩
    · cases now <;> rfl
    · intro value classed required requires
      rw [counted_class now classed]
      rw [← base] at admits
      exact (admits required requires).symm
    · intro value classed other member otherValue otherClassed
      rw [counted_class now classed, counted_class (counted other member) otherClassed]
  cases now with
  | deletes =>
      exact ⟨rfl, affordable_of_weightless accounts.solvent compatible rfl rfl rfl rfl⟩
  | @takes sum nonpositive =>
      have taken := congrArg (total StorageDelta.withdrawal) pushes
      rw [total_add, total_cons, counted_withdrawals context.view] at taken
      have live_total := congrArg (total StorageDelta.withdrawal) lives
      rw [total_add, promised_withdrawals steady run counts] at live_total
      have before := acquired_le_length fun other listed =>
        acquisitions_le_one (take other (List.mem_cons_of_mem tx listed)).first
      have once := acquisitions_le_one (take tx List.mem_cons_self).first
      have amount : (StorageDelta.withdrawal
          (.nonnegativeInt64SetAdd { setValue := semaphoreCount count, delta := sum }) : ℤ) =
          -sum.toInt := by
        simp only [StorageDelta.withdrawal]
        omega
      refine ⟨rfl, affordable_withdrawal accounts.solvent compatible ?_⟩
      rw [live_total]
      have whole := semaphore_count_eq count
      simp only
      omega

theorem takes_turn_prefix {program : Program} {results more : List CallResult}
    (takes : TakesTurn kind key count program more) (earlier : results <+: more) :
    TakesTurn kind key count program results where
  calls := Program.calls_on_prefix takes.calls earlier
  first before within := takes.first before (within.trans earlier)

theorem take_turns_earlier (take : TakeTurns kind key count programs txs last)
    (later : Run (MovesBlock cryptoShorthash library store programs) block moves last) :
    TakeTurns kind key count programs txs block :=
  fun tx listed => takes_turn_prefix (take tx listed) (run_results later tx)

/-- In the turn of a transaction only its own phase changes and only it holds
rewinds, and while there is room nothing refuses it. -/
structure TurnKept (tx : Tx) (start block : BlockExecution Tx Database) (count : UInt32) :
    Prop where
  own : ∀ entry ∈ block.books.held, entry.1 = tx
  order : block.books.order = start.books.order ∨
    block.books.order = start.books.order ++ [tx]
  others : ∀ other, other ≠ tx → block.books.phase other = start.books.phase other
  unrefused : start.books.order.length < count.toNat → block.books.phase tx ≠ .aborting

theorem turn_call_unthrown (steady : SteadyStore store)
    (reached : Run (MovesBlock cryptoShorthash library store programs) (.start before) moves block)
    (takes : TakesTurn kind key count (programs tx) (block.contexts tx).results)
    (admits : Admits (store.getCommittedValue key before.stateDb) .nonnegativeInt64)
    (room : 0 < count.toNat) {call : ProxyCall}
    (called : programs tx (block.contexts tx).results = .call call) (own : call.key? = some key)
    (running : (block.contexts tx).status = .running) :
    (block.advanced library store programs tx).status = .running := by
  have context := counted_context steady reached (semaphore_calls_counted takes.calls)
  have uses := takes.calls _ (List.prefix_refl _) call called own
  have returns : ∃ result after, (block.contexts tx).perform library
      (fun key => store.getCommittedValue key before.stateDb) block.globalContext.contractDb call =
        .ok (result, after) :=
    semaphore_call_returns context admits room uses fun same =>
      takes.first _ (List.prefix_refl _) (same ▸ called)
  obtain ⟨result, after, returned⟩ := returns
  rw [BlockExecution.advanced, run_committed_values steady reached, TransactionContext.advance,
    running]
  simp only [called, returned]
  exact (TransactionContext.perform_status returned).trans running

theorem turn_unrefused (rested : Rested view before.stateDb) (steady : SteadyStore store)
    {start : BlockExecution Tx Database} (kept : TurnKept tx start block count)
    (turn : TurnMove cryptoShorthash library store programs key tx block move next)
    (reached : Run (MovesBlock cryptoShorthash library store programs) (.start before) moves block)
    (take : TakeTurns kind key count programs (tx :: block.books.order) block)
    (admits : Admits (store.getCommittedValue key before.stateDb) .nonnegativeInt64)
    (room : start.books.order.length < count.toNat) : next.books.phase tx ≠ .aborting := by
  intro refused
  have before_phase := kept.unrefused room
  obtain ⟨moves, own, fails⟩ := turn
  have books := (run_balanced view.toObjectStore reached).balanced
  cases fails before_phase refused with
  | @call caller call called own_key =>
      cases own
      have unthrown := turn_call_unthrown steady reached (take tx List.mem_cons_self) admits
        (by omega) called own_key
      cases block_move_cases moves with
      | went running status => exact before_phase refused
      | returned running status =>
          simp only [Books.begin, Function.update_self] at refused
          cases refused
      | threw running status =>
          rw [unthrown running] at status
          cases status
  | @push pusher ids delta rest phase =>
      cases own
      have stranger := undecided_not_listed books phase
      have same : block.books.order = start.books.order := by
        rcases kept.order with same | more
        · exact same
        · rw [more] at stranger
          exact absurd (List.mem_append_right _ (List.mem_singleton_self _)) stranger
      cases block_move_cases moves with
      | accepted status again applied =>
          simp only [Books.accept, Function.update_self] at refused
          cases refused
      | rejected status again applied =>
          rw [phase] at again
          cases again
          obtain ⟨opening, agreement, base, kempt, accounts⟩ := block_accounts rested reached key
          obtain ⟨unslotted, affordable⟩ := turn_affordable view.toObjectStore steady reached
            take admits kept.own (same ▸ room) status phase base accounts
          obtain ⟨changed, returned, _⟩ := view.push applied
          have outcome := push_outcome accounts delta (block.issued ids)
          rw [returned] at outcome
          cases outcome with
          | rejected rejected reason =>
              rcases reason with unaffordable | ⟨slots, _⟩
              · exact unaffordable affordable
              · omega

theorem turn_kept (rested : Rested view before.stateDb) (steady : SteadyStore store)
    {start : BlockExecution Tx Database} (kept : TurnKept tx start block count)
    (turn : TurnMove cryptoShorthash library store programs key tx block move next)
    (reached : Run (MovesBlock cryptoShorthash library store programs) (.start before) moves block)
    (take : TakeTurns kind key count programs (tx :: block.books.order) block)
    (admits : Admits (store.getCommittedValue key before.stateDb) .nonnegativeInt64) :
    TurnKept tx start next count := by
  have unrefused := turn_unrefused rested steady kept turn reached take admits
  have books := (run_balanced view.toObjectStore reached).balanced
  obtain ⟨moves, own, fails⟩ := turn
  have rephased {phase : Phase (AddressAndKey × StorageDelta)} (other : Tx) (apart : other ≠ tx) :
      Function.update block.books.phase tx phase other = start.books.phase other := by
    rw [Function.update_of_ne apart]
    exact kept.others other apart
  have erased {position : Nat} : ∀ entry ∈ block.books.held.eraseIdx position, entry.1 = tx :=
    fun entry member => kept.own entry (List.mem_of_mem_eraseIdx member)
  cases block_move_cases moves with
  | went running status => exact ⟨kept.own, kept.order, kept.others, unrefused⟩
  | returned running status =>
      cases own
      exact ⟨kept.own, kept.order, rephased, unrefused⟩
  | threw running status =>
      cases own
      exact ⟨kept.own, kept.order, rephased, unrefused⟩
  | accepted status phase applied =>
      cases own
      refine ⟨?_, kept.order, rephased, unrefused⟩
      intro entry member
      rcases List.mem_cons.mp member with rfl | earlier
      · rfl
      · exact kept.own entry earlier
  | rejected status phase applied =>
      cases own
      exact ⟨kept.own, kept.order, rephased, unrefused⟩
  | gaveUp status phase =>
      cases own
      exact ⟨kept.own, kept.order, rephased, unrefused⟩
  | passed status phase updates =>
      cases own
      refine ⟨kept.own, ?_, rephased, unrefused⟩
      have stranger := undecided_not_listed books phase
      rcases kept.order with same | more
      · exact .inr (congrArg (· ++ [tx]) same)
      · rw [more] at stranger
        exact absurd (List.mem_append_right _ (List.mem_singleton_self _)) stranger
  | committed found phase through => exact ⟨erased, kept.order, kept.others, unrefused⟩
  | closed closures run => exact ⟨kept.own, kept.order, kept.others, unrefused⟩
  | persisted => exact ⟨kept.own, kept.order, kept.others, unrefused⟩
  | destroyed found phase through => exact ⟨erased, kept.order, kept.others, unrefused⟩

theorem turn_run_kept (rested : Rested view before.stateDb) (steady : SteadyStore store)
    {start : BlockExecution Tx Database} {reaching later : List (BlockMove Tx)}
    (reached : Run (MovesBlock cryptoShorthash library store programs) (.start before) reaching
      start)
    (closed : start.books.held = []) (fresh : start.books.phase tx = .pushing [])
    (run : Run (TurnMove cryptoShorthash library store programs key tx) start moves next)
    (ends : Run (MovesBlock cryptoShorthash library store programs) next later last)
    (take : TakeTurns kind key count programs (tx :: start.books.order) last)
    (admits : Admits (store.getCommittedValue key before.stateDb) .nonnegativeInt64) :
    TurnKept tx start next count := by
  apply run_invariant (fun block => TurnKept tx start block count) _ _ (run_between run)
  · rintro block move after kept ⟨turn, ⟨earlier, first⟩, ⟨rest, second⟩⟩
    have onward := run_append (.cons turn.moves (turn_moves second)) ends
    have here : TakeTurns kind key count programs (tx :: block.books.order) block := by
      intro other listed
      apply take_turns_earlier take onward
      rcases kept.order with same | more
      · exact same ▸ listed
      · rw [more, List.mem_cons, List.mem_append, List.mem_singleton] at listed
        rw [List.mem_cons]
        tauto
    exact turn_kept rested steady kept turn (run_append reached (turn_moves first)) here admits
  · constructor
    · rw [closed]
      intro entry impossible
      cases impossible
    · exact .inl rfl
    · exact fun other apart => rfl
    · rw [fresh]
      intro _ impossible
      cases impossible

structure TurnsKept (txs : List Tx) (count : ℕ) (block : BlockExecution Tx Database) : Prop where
  order : block.books.order = txs.take count
  closed : block.books.held = []
  fresh : ∀ tx ∉ txs, block.books.phase tx = .pushing []

theorem turns_kept (rested : Rested view before.stateDb) (steady : SteadyStore store)
    (turns : SerialTurns cryptoShorthash library store programs key before txs block)
    (ends : Run (MovesBlock cryptoShorthash library store programs) block moves last)
    (take : TakeTurns kind key count programs txs last)
    (admits : Admits (store.getCommittedValue key before.stateDb) .nonnegativeInt64)
    (bounded : last.books.order.length ≤ count.toNat) : TurnsKept txs count.toNat block := by
  induction turns generalizing moves with
  | start => exact ⟨List.take_nil.symm, rfl, fun tx _ => rfl⟩
  | @turn txs tx block next turnMoves earlier fresh run settled closed induction =>
      obtain ⟨order, empty, idle⟩ := induction (run_append (turn_moves run) ends)
        fun other listed => take other (List.mem_append_left _ listed)
      obtain ⟨reaching, reached⟩ := turns_run earlier
      have taking : TakeTurns kind key count programs (tx :: block.books.order) last := by
        intro other listed
        apply take
        rcases List.mem_cons.mp listed with rfl | passed
        · exact List.mem_append_right _ (List.mem_singleton_self _)
        · rw [order] at passed
          exact List.mem_append_left _ (List.mem_of_mem_take passed)
      have kept := turn_run_kept rested steady reached empty (idle tx fresh) run ends taking admits
      have listed := (run_balanced view.toObjectStore
        (run_append reached (turn_moves run))).balanced.listed tx
      refine ⟨?_, closed, ?_⟩
      · have counted := congrArg List.length order
        rw [List.length_take] at counted
        by_cases room : block.books.order.length < count.toNat
        · have short : txs.length < count.toNat := by omega
          rw [List.take_of_length_le short.le] at order
          have passed := listed.mpr (settled.resolve_right (kept.unrefused room))
          rw [List.take_of_length_le (by rw [List.length_append]; exact short)]
          rcases kept.order with same | more
          · rw [same, order] at passed
            exact absurd passed fresh
          · rw [more, order]
        · have full : count.toNat ≤ txs.length := by omega
          rw [List.take_append_of_le_length full, ← order]
          rcases kept.order with same | more
          · exact same
          · have within := (run_order ends).length_le
            rw [more, List.length_append, List.length_singleton] at within
            omega
      · intro other absent
        rw [List.mem_append, List.mem_singleton, not_or] at absent
        rw [kept.others other absent.2]
        exact idle other absent.1

omit [DecidableEq Tx] in
theorem acquired_once
    (single : ∀ tx ∈ block.books.order, (programs tx).acquisitions key (semaphoreCount count)
      (block.contexts tx).results = 1) :
    block.acquired key (semaphoreCount count) programs = block.books.order.length := by
  unfold BlockExecution.acquired
  rw [List.map_congr_left single, List.map_const', List.sum_replicate_nat, mul_one]

theorem turns_order (turns : SerialTurns cryptoShorthash library store programs key before txs
    block) : block.books.order ⊆ txs := by
  induction turns with
  | start => exact List.Subset.refl _
  | @turn txs tx block next moves earlier fresh run settled closed induction =>
      apply run_invariant (fun block : BlockExecution Tx Database =>
        block.books.order ⊆ txs ++ [tx]) _ (List.subset_append_of_subset_left _ induction) run
      intro block move next kept turn
      obtain ⟨moves, own, _⟩ := turn
      cases block_move_cases moves with
      | passed status phase updates =>
          cases own
          exact List.append_subset.mpr ⟨kept, List.subset_append_right _ _⟩
      | _ => exact kept

/-- Transactions that acquire once each, in turn: the first ones pass. -/
theorem turns_in_order (rested : Rested view before.stateDb) (steady : SteadyStore store)
    (turns : SerialTurns cryptoShorthash library store programs key before txs last)
    (once : ∀ tx ∈ txs, AcquiresOnce kind key count (programs tx) (last.contexts tx))
    (admits : Admits (store.getCommittedValue key before.stateDb) .nonnegativeInt64) :
    last.books.order = txs.take count.toNat := by
  obtain ⟨moves, run⟩ := turns_run turns
  have listed := turns_order turns
  have counts : CountsDown key (semaphoreCount count) programs last :=
    fun tx passed => semaphore_calls_counted (once tx (listed passed)).calls
  have covered := acquired_covered rested steady run counts
  have returned := order_returned run
  rw [acquired_once fun tx passed => (once tx (listed passed)).once (returned tx passed),
    semaphore_count_eq] at covered
  have bounded : last.books.order.length ≤ count.toNat := by omega
  exact (turns_kept rested steady turns (.nil last) (fun tx member => (once tx member).toTakesTurn)
    admits bounded).order

end Turns

/-! ## Any number of blocks -/

/-- What a semaphore does in the next block, whatever the blocks before it did. -/
structure SemaphoreHolds (cryptoShorthash : CryptoShorthash) (library : ContractLibrary) (Tx : Type)
    {Database : Type} [DecidableEq Tx] (store : StateStore Database) (kind : SemaphoreClass)
    (key : AddressAndKey) (count : UInt32) (before : GlobalContext Database) : Prop where
  bounded : ∀ block : ClosedBlock cryptoShorthash library Tx store before,
    UsesSemaphore kind key count block.programs block.last →
    block.last.acquired key (semaphoreCount count) block.programs ≤ count.toNat
  leaves : ∀ block : ClosedBlock cryptoShorthash library Tx store before,
    UsesSemaphore kind key count block.programs block.last →
    0 < block.last.acquired key (semaphoreCount count) block.programs →
    ∀ (newKey : HashKey) (keys : List AddressAndKey) (after : Database),
      keys.Perm block.last.modifiedKeys →
      store.commitModifications newKey keys block.last.globalContext.stateDb = .ok after →
      kind.Leaves count (block.last.acquired key (semaphoreCount count) block.programs)
        (store.getCommittedValue key after)
  serial : ∀ (programs : Tx → Program) (txs : List Tx) (last : BlockExecution Tx Database),
    SerialTurns cryptoShorthash library store programs key before txs last →
    (∀ tx ∈ txs, AcquiresOnce kind key count (programs tx) (last.contexts tx)) →
    last.books.order = txs.take count.toNat

/-- After any chain of blocks, a semaphore on a key that holds nothing bounds every
one of the blocks that use it. -/
def SemaphoreBounds (cryptoShorthash : CryptoShorthash) (library : ContractLibrary) (Tx : Type)
    {Database : Type} [DecidableEq Tx] (store : StateStore Database)
    (genesis : GlobalContext Database) : Prop :=
  ∀ start, Relation.ReflTransGen (EndsBlock cryptoShorthash library Tx store) genesis start →
    ∀ (kind : SemaphoreClass) (key : AddressAndKey) (count : UInt32) (taken : ℕ)
      (before : GlobalContext Database), store.getCommittedValue key start.stateDb = none →
      CountedChain cryptoShorthash library Tx store key (semaphoreCount count)
        (fun _ block => UsesSemaphore kind key count block.programs block.last) start taken before →
      SemaphoreHolds cryptoShorthash library Tx store kind key count before

theorem semaphore_bounds {cryptoShorthash : CryptoShorthash} {library : ContractLibrary}
    {Tx Database : Type} [DecidableEq Tx] {store : StateStore Database}
    {genesis : GlobalContext Database} (view : SettlingStore cryptoShorthash store)
    (steady : SteadyStore store) (rested : Rested view genesis.stateDb) :
    SemaphoreBounds cryptoShorthash library Tx store genesis := by
  intro start earlier kind key count taken before absent chain
  have preserved := chain_preserves
    (fun _ value => Admits value .nonnegativeInt64) (chain_rested rested earlier)
    (by rw [absent]; intro required impossible; cases impossible)
    (fun _ _ block _ _ _ rested uses logged returned admits => finished_admits rested steady
      block.run block.quiescent (semaphore_counts uses) admits logged returned) chain
  obtain ⟨rested, admits⟩ := preserved
  constructor
  · exact fun block uses => acquired_le rested steady block.run uses
  · exact fun block uses acquires _ _ _ logged returned =>
      semaphore_leaves rested steady block.run block.quiescent uses acquires logged returned
  · exact fun programs txs last turns once => turns_in_order rested steady turns once admits

section Checked

variable {Tx Database : Type} [DecidableEq Tx]

def BlockMove.checkTurn (tx : Tx) : BlockMove Tx → Bool
  | .call other => other = tx
  | .push other _ => other = tx
  | .giveUp other => other = tx
  | .pass other => other = tx
  | .commit _ => true
  | .close other _ => other = tx
  | .destroy _ _ => true
  | .persist => true

def BlockMove.checkKey (key : AddressAndKey) (programs : Tx → Program)
    (block : BlockExecution Tx Database) : BlockMove Tx → Bool
  | .call tx =>
      match (programs tx (block.contexts tx).results).call? with
      | some next => next.key? = some key
      | none => false
  | .push tx _ =>
      match block.books.phase tx with
      | .pushing ((other, _) :: _) => other = key
      | _ => false
  | _ => false

def BlockExecution.aborts (tx : Tx) (block : BlockExecution Tx Database) : Bool :=
  match block.books.phase tx with
  | .aborting => true
  | _ => false

def BlockExecution.performTurn (cryptoShorthash : CryptoShorthash) (library : ContractLibrary)
    (store : StateStore Database) (programs : Tx → Program) (key : AddressAndKey) (tx : Tx) :
    List (BlockMove Tx) → BlockExecution Tx Database → Option (BlockExecution Tx Database)
  | [], block => some block
  | move :: moves, block => do
      let next ← block.perform cryptoShorthash library store programs move
      if move.checkTurn tx &&
        (!next.aborts tx || block.aborts tx || move.checkKey key programs block)
      then performTurn cryptoShorthash library store programs key tx moves next
      else none

def BlockExecution.settles (tx : Tx) (block : BlockExecution Tx Database) : Bool :=
  match block.books.phase tx with
  | .pushing _ => false
  | _ => true

def BlockExecution.takeTurn (cryptoShorthash : CryptoShorthash) (library : ContractLibrary)
    (store : StateStore Database) (programs : Tx → Program) (key : AddressAndKey) (tx : Tx)
    (moves : List (BlockMove Tx)) (block : BlockExecution Tx Database) :
    Option (BlockExecution Tx Database) := do
  let next ← block.performTurn cryptoShorthash library store programs key tx moves
  if next.settles tx && next.books.held.isEmpty then some next else none

variable {cryptoShorthash : CryptoShorthash} {library : ContractLibrary}
  {store : StateStore Database} {programs : Tx → Program} {key : AddressAndKey} {tx : Tx}
  {txs : List Tx} {before : GlobalContext Database} {block next : BlockExecution Tx Database}
  {move : BlockMove Tx} {moves : List (BlockMove Tx)}

theorem check_turn_sound (checked : move.checkTurn tx = true) : move.InTurn tx := by
  cases move with
  | commit position => exact .commit position
  | destroy position newId => exact .destroy position newId
  | call other => cases of_decide_eq_true checked; exact .call
  | push other ids => cases of_decide_eq_true checked; exact .push ids
  | giveUp other => cases of_decide_eq_true checked; exact .giveUp
  | pass other => cases of_decide_eq_true checked; exact .pass
  | close other thread => cases of_decide_eq_true checked; exact .close thread
  | persist => exact .persist

omit [DecidableEq Tx] in
theorem check_key_sound (checked : move.checkKey key programs block = true) :
    move.FailsOver key programs block := by
  cases move with
  | call tx =>
      unfold BlockMove.checkKey at checked
      simp only at checked
      cases step : programs tx (block.contexts tx).results with
      | call next =>
          rw [step] at checked
          exact .call step (of_decide_eq_true checked)
      | returns =>
          rw [step] at checked
          cases checked
      | traps what =>
          rw [step] at checked
          cases checked
  | push tx ids =>
      unfold BlockMove.checkKey at checked
      simp only at checked
      split at checked
      · rename_i phase
        cases of_decide_eq_true checked
        exact .push ids phase
      · cases checked
  | _ => cases checked

theorem perform_turn_run
    (performed : block.performTurn cryptoShorthash library store programs key tx moves =
      some next) :
    Run (TurnMove cryptoShorthash library store programs key tx) block moves next := by
  induction moves generalizing block with
  | nil =>
      cases performed
      exact .nil _
  | cons move rest induction =>
      obtain ⟨middle, first, later⟩ := Option.bind_eq_some_iff.mp performed
      split_ifs at later with checked
      rw [Bool.and_eq_true, Bool.or_eq_true, Bool.or_eq_true] at checked
      obtain ⟨own, fails⟩ := checked
      refine .cons ⟨first, check_turn_sound own, ?_⟩ (induction later)
      intro running refused
      rcases fails with (unrefused | stopped) | exhausted
      · rw [BlockExecution.aborts, refused] at unrefused
        cases unrefused
      · unfold BlockExecution.aborts at stopped
        split at stopped
        · rename_i aborting
          exact absurd aborting running
        · cases stopped
      · exact check_key_sound exhausted

theorem take_turn_serial
    (earlier : SerialTurns cryptoShorthash library store programs key before txs block)
    (fresh : tx ∉ txs)
    (taken : block.takeTurn cryptoShorthash library store programs key tx moves = some next) :
    SerialTurns cryptoShorthash library store programs key before (txs ++ [tx]) next := by
  obtain ⟨last, performed, rest⟩ := Option.bind_eq_some_iff.mp taken
  split_ifs at rest with ended
  cases rest
  rw [Bool.and_eq_true, List.isEmpty_iff] at ended
  refine .turn earlier fresh (perform_turn_run performed) ?_ ended.2
  have settles := ended.1
  unfold BlockExecution.settles at settles
  cases phase : next.books.phase tx with
  | pushing remaining =>
      rw [phase] at settles
      cases settles
  | committing => exact .inl rfl
  | aborting => exact .inr rfl

end Checked

def acquireOnly : Bool → Program
  | _, [] => .call (Semaphore.acquire 7 1)
  | _, _ => .returns

theorem acquire_only_turn (tx : Bool) (results : List CallResult) :
    TakesTurn .semaphore 7 1 (acquireOnly tx) results where
  calls earlier _ next called _ := by
    cases earlier with
    | nil =>
        cases called
        exact .acquire
    | cons result rest => cases called
  first earlier _ called call member := by
    cases earlier with
    | nil => cases member
    | cons result rest => cases called

end Scs
