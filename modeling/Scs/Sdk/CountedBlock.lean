import Scs.Sdk.CountedKey
import Scs.StateDb.BlockStart
import Scs.StorageProxy.ObjectHistory
import Scs.TransactionContext.BlockBalance

/-!
# A counted key over a block

The transactions of a block that have passed have together taken no more than
the count from the key, and the key settles to what they have left of it.
-/

namespace Scs

set_option autoImplicit false

open Ledger Lockstep Runs TwoPhase

/-! ## The deltas of a proxy on one key -/

section Proxy

variable {committed : CommittedValues} {key : AddressAndKey}

theorem deltas_on_same (key : AddressAndKey) (deltas : List StorageDelta) :
    deltasOn key ↑(deltas.map fun delta => (key, delta)) = deltas := by
  induction deltas with
  | nil => rfl
  | cons delta rest induction =>
      rw [List.map_cons, ← Multiset.cons_coe, deltas_on_self, induction, Multiset.cons_coe]

theorem deltas_on_apart {other : AddressAndKey} (different : key ≠ other)
    (deltas : List StorageDelta) :
    deltasOn key ↑(deltas.map fun delta => (other, delta)) = 0 := by
  induction deltas with
  | nil => rfl
  | cons delta rest induction =>
      rw [List.map_cons, ← Multiset.cons_coe, deltas_on_other key different, induction]

theorem deltas_on_entries (key : AddressAndKey)
    {entries : List (AddressAndKey × ProxyApplicator)} (sorted : SortedMap.Sorted entries) :
    deltasOn key ↑(entries.flatMap fun entry => entry.2.getDeltas.map fun delta =>
        (entry.1, delta)) =
      match SortedMap.findEntry key entries with
      | some applicator => ↑applicator.getDeltas
      | none => 0 := by
  induction entries with
  | nil => rfl
  | cons entry rest induction =>
      obtain ⟨other, applicator⟩ := entry
      obtain ⟨least, ordered⟩ := List.pairwise_cons.mp sorted
      have step : SortedMap.findEntry key ((other, applicator) :: rest) =
          if key = other then some applicator else SortedMap.findEntry key rest := rfl
      rw [List.flatMap_cons, ← Multiset.coe_add, deltas_on_add, induction ordered, step]
      split_ifs with same
      · subst same
        have absent : SortedMap.findEntry key rest = none := by
          cases found : SortedMap.findEntry key rest with
          | none => rfl
          | some later =>
              have inside := (SortedMap.find_entry_iff ordered).mp found
              exact absurd (least _ inside) Std.lt_irrefl
        rw [absent, deltas_on_same, add_zero]
      · rw [deltas_on_apart same, zero_add]

theorem deltas_on_proxy (committed : CommittedValues) (key : AddressAndKey)
    (proxy : StorageProxy) :
    deltasOn key ↑proxy.deltas = ↑(proxy.localOf committed key).getDeltas := by
  rw [StorageProxy.deltas, deltas_on_entries key proxy.cache.sorted, StorageProxy.localOf,
    SortedMap.find]
  cases SortedMap.findEntry key proxy.cache.entries with
  | some applicator => rfl
  | none =>
      have idle : CountedView 0 0 (.onBase (committed key)) := counted_view_start _
      rw [Option.getD_none, get_deltas_counted idle]
      rfl

end Proxy

/-! ## A block at any point -/

section Block

variable {cryptoShorthash : CryptoShorthash} {library : ContractLibrary} {Tx Database : Type}
  [DecidableEq Tx] {store : StateStore Database} {view : SettlingStore cryptoShorthash store}
  {programs : Tx → Program} {before : GlobalContext Database} {moves : List (BlockMove Tx)}
  {block : BlockExecution Tx Database} {key : AddressAndKey} {count : Int64}

/-- Every call that a passed transaction has made on the key is one of a counted
key. -/
def CountsDown (key : AddressAndKey) (count : Int64) (programs : Tx → Program)
    (block : BlockExecution Tx Database) : Prop :=
  ∀ tx ∈ block.books.order,
    (programs tx).CallsOn key (CountedCall key count) (block.contexts tx).results

/-- What the transactions that have passed have taken from the count. -/
def BlockExecution.acquired (key : AddressAndKey) (count : Int64) (programs : Tx → Program)
    (block : BlockExecution Tx Database) : ℕ :=
  (block.books.order.map fun tx =>
    (programs tx).acquisitions key count (block.contexts tx).results).sum

theorem counted_context (steady : SteadyStore store)
    (run : Run (MovesBlock cryptoShorthash library store programs) (.start before) moves block)
    {tx : Tx} (calls : (programs tx).CallsOn key (CountedCall key count)
      (block.contexts tx).results) :
    CountedContext (fun key => store.getCommittedValue key before.stateDb) key count
      (programs tx) (block.contexts tx) := by
  refine context_invariant steady run tx
    (fun context => (programs tx).CallsOn key (CountedCall key count) context.results →
      CountedContext (fun key => store.getCommittedValue key before.stateDb) key count
        (programs tx) context) ?_ ?_ calls
  · exact fun _ => counted_context_start
  · exact fun context => advance_counted

omit [DecidableEq Tx] in
theorem returned_pushes (committed : CommittedValues) (key : AddressAndKey) {tx : Tx}
    (status : (block.contexts tx).status = .returned) :
    deltasOn key ↑(block.pushes tx) =
      ↑((block.contexts tx).storageProxy.localOf committed key).getDeltas := by
  rw [BlockExecution.pushes, pushes_returned status]
  exact deltas_on_proxy _ key _

theorem passed_pushes
    (run : Run (MovesBlock cryptoShorthash library store programs) (.start before) moves block)
    (key : AddressAndKey) {tx : Tx} (listed : tx ∈ block.books.order) :
    deltasOn key ↑(block.pushes tx) = ↑((block.contexts tx).storageProxy.localOf
      (fun key => store.getCommittedValue key before.stateDb) key).getDeltas :=
  returned_pushes _ key (order_returned run tx listed)

theorem promised_withdrawals (steady : SteadyStore store)
    (run : Run (MovesBlock cryptoShorthash library store programs) (.start before) moves block)
    (counts : CountsDown key count programs block) :
    total StorageDelta.withdrawal (deltasOn key (promised block.pushes block.books.order)) =
      block.acquired key count programs := by
  have own (tx : Tx) (listed : tx ∈ block.books.order) :
      total StorageDelta.withdrawal (deltasOn key ↑(block.pushes tx)) =
        (programs tx).acquisitions key count (block.contexts tx).results := by
    rw [passed_pushes run key listed]
    exact counted_withdrawals (counted_context steady run (counts tx listed)).view
  unfold BlockExecution.acquired promised
  generalize block.books.order = order at own
  induction order with
  | nil => rfl
  | cons tx rest induction =>
      rw [List.map_cons, List.sum_cons, List.map_cons, List.sum_cons, deltas_on_add, total_add,
        own tx List.mem_cons_self,
        induction fun other member => own other (List.mem_cons_of_mem tx member)]

theorem promised_counted (steady : SteadyStore store)
    (run : Run (MovesBlock cryptoShorthash library store programs) (.start before) moves block)
    (counts : CountsDown key count programs block) :
    ∀ delta ∈ deltasOn key (promised block.pushes block.books.order), CountedDelta count delta := by
  intro delta member
  rw [mem_deltas_on, mem_promised] at member
  obtain ⟨tx, listed, pushed⟩ := member
  have inside := (mem_deltas_on _).mpr (Multiset.mem_coe.mpr pushed)
  rw [passed_pushes run key listed] at inside
  exact counted_deltas (counted_context steady run (counts tx listed)).view delta inside

theorem promised_deleted (steady : SteadyStore store)
    (run : Run (MovesBlock cryptoShorthash library store programs) (.start before) moves block)
    (counts : CountsDown key count programs block) :
    StorageDelta.deleteLast ∈ deltasOn key (promised block.pushes block.books.order) ↔
      ∃ tx ∈ block.books.order,
        .deleteObjectLast key ∈ (programs tx).made (block.contexts tx).results := by
  rw [mem_deltas_on, mem_promised]
  apply exists_congr
  intro tx
  apply and_congr_right
  intro listed
  have context := counted_context steady run (counts tx listed)
  have pushed : StorageDelta.deleteLast ∈ deltasOn key ↑(block.pushes tx) ↔
      (key, .deleteLast) ∈ (↑(block.pushes tx) : Multiset (AddressAndKey × StorageDelta)) :=
    mem_deltas_on ↑(block.pushes tx)
  rw [passed_pushes run key listed, Multiset.mem_coe, Multiset.mem_coe] at pushed
  rw [← pushed, deleted_pushed context.view, context.deleted]

theorem promised_live (view : ObjectStore cryptoShorthash store)
    (run : Run (MovesBlock cryptoShorthash library store programs) (.start before) moves block)
    (key : AddressAndKey) :
    deltasOn key (promised block.pushes block.books.order) ≤
      live ↑(Rewinds.on key block.held) (deltasOn key block.books.committed) := by
  have settled := (run_balanced view run).balanced.settled
  have held : live ↑(Rewinds.on key block.held) (deltasOn key block.books.committed) =
      deltasOn key (heldItems ticketItem block.books.held + block.books.committed) :=
    books_live key block.books
  rw [held, ← settled, add_comm]
  exact deltas_on_mono key (Multiset.add_le_add_right (owned_le _ _ _))

/-- The passed transactions of a block have never taken more than the count. Whoever takes
is charged when its delta is pushed, before it passes. -/
theorem acquired_covered (rested : Rested view before.stateDb) (steady : SteadyStore store)
    (run : Run (MovesBlock cryptoShorthash library store programs) (.start before) moves block)
    (counts : CountsDown key count programs block) :
    block.acquired key count programs = 0 ∨
      (block.acquired key count programs : ℤ) ≤ count.toInt := by
  obtain ⟨opening, agreement, base, kempt, accounts⟩ := block_accounts rested run key
  have within := promised_live view.toObjectStore run key
  rw [← promised_withdrawals steady run counts]
  rcases withdrawals_zero_or (deltasOn key (promised block.pushes block.books.order)) with
    zero | ⟨setAdd, member, negative⟩
  · exact .inl zero
  · have bound := accounts.solvent.overdraft setAdd (Multiset.mem_of_le within member) negative
    have less := total_mono StorageDelta.withdrawal within
    cases promised_counted steady run counts _ member with
    | takes =>
        simp only at bound
        omega

/-! ## What the block leaves -/

section Settle

variable {opening : Opening} {committed : Multiset StorageDelta} {agreement : Agreement}
  {object : RevertableObject} {result : Option StorageObject}

theorem counted_class {delta : StorageDelta} (counted : CountedDelta count delta)
    {value : StorageDeltaClass} (classed : delta.class? = some value) :
    value = .nonnegativeInt64 count := by
  cases counted with
  | takes => exact (Option.some.inj classed).symm
  | deletes => cases classed

theorem settle_counted (accounts : Accounts cryptoShorthash opening 0 committed agreement object)
    (counted : ∀ delta ∈ committed, CountedDelta count delta)
    (admits : Admits opening.base .nonnegativeInt64)
    (settled : settle opening agreement.value? committed = .ok result) :
    Admits result .nonnegativeInt64 := by
  obtain ⟨start, made, rest⟩ := bind_ok_iff.mp settled
  intro required requires
  cases start with
  | none =>
      cases rest
      cases requires
  | some agreed =>
      simp only at rest
      split_ifs at rest
      · cases rest
        cases requires
      · obtain ⟨last, finished, same⟩ := bind_ok_iff.mp rest
        cases same
        have typed := agreed_object_type made
        rw [← settle_body_type finished] at typed
        cases requires
        cases valued : agreement.value? with
        | none =>
            rw [valued] at typed
            exact admits _ typed.symm
        | some value =>
            obtain ⟨delta, member, classed⟩ := (agreed_value_iff accounts value).mp valued
            rw [valued, counted_class (counted delta member) classed] at typed
            exact Option.some.inj typed

end Settle

section Finished

variable {newKey : HashKey} {keys : List AddressAndKey} {after : Database}

theorem closed_deltas
    (run : Run (MovesBlock cryptoShorthash library store programs) (.start before) moves block)
    (view : ObjectStore cryptoShorthash store) (quiescent : block.Quiescent) (key : AddressAndKey) :
    deltasOn key block.books.committed =
      deltasOn key (promised block.pushes block.books.order) := by
  rw [quiescent_committed view run quiescent]

theorem finished_admits (rested : Rested view before.stateDb) (steady : SteadyStore store)
    (run : Run (MovesBlock cryptoShorthash library store programs) (.start before) moves block)
    (quiescent : block.Quiescent) (counts : CountsDown key count programs block)
    (admits : Admits (store.getCommittedValue key before.stateDb) .nonnegativeInt64)
    (logged : keys.Perm block.modifiedKeys)
    (returned : store.commitModifications newKey keys block.globalContext.stateDb = .ok after) :
    Admits (store.getCommittedValue key after) .nonnegativeInt64 := by
  obtain ⟨_, opening, agreement, base, accounts⟩ :=
    quiescent_closed rested run quiescent key
  have counted := promised_counted steady run counts
  rw [← closed_deltas run view.toObjectStore quiescent] at counted
  rcases commit_settles rested run quiescent logged returned key with ⟨_, settled⟩ | ⟨_, same⟩
  · rw [commit_round_settles accounts] at settled
    rw [← base] at admits
    exact settle_counted accounts counted admits settled
  · rw [same]
    exact admits

theorem acquired_set_add (steady : SteadyStore store)
    (run : Run (MovesBlock cryptoShorthash library store programs) (.start before) moves block)
    (counts : CountsDown key count programs block)
    (acquires : 0 < block.acquired key count programs) :
    ∃ sum, StorageDelta.nonnegativeInt64SetAdd { setValue := count, delta := sum } ∈
      deltasOn key (promised block.pushes block.books.order) := by
  rw [← promised_withdrawals steady run counts] at acquires
  rcases withdrawals_zero_or (deltasOn key (promised block.pushes block.books.order)) with
    zero | ⟨setAdd, member, _⟩
  · omega
  · cases promised_counted steady run counts _ member
    exact ⟨_, member⟩

/-- A counted key that was not deleted holds what was left of the count. -/
theorem finished_remaining (rested : Rested view before.stateDb) (steady : SteadyStore store)
    (run : Run (MovesBlock cryptoShorthash library store programs) (.start before) moves block)
    (quiescent : block.Quiescent) (counts : CountsDown key count programs block)
    (acquires : 0 < block.acquired key count programs)
    (kept : StorageDelta.deleteLast ∉ deltasOn key (promised block.pushes block.books.order))
    (logged : keys.Perm block.modifiedKeys)
    (returned : store.commitModifications newKey keys block.globalContext.stateDb = .ok after) :
    ∃ value : Int64, store.getCommittedValue key after =
        some { body := .nonnegativeInt64 value, escrowedFee := 0 } ∧
      value.toInt = count.toInt - block.acquired key count programs := by
  obtain ⟨sum, member⟩ := acquired_set_add steady run counts acquires
  have counted := promised_counted steady run counts
  have withdrawn := promised_withdrawals steady run counts
  rw [← closed_deltas run view.toObjectStore quiescent] at member counted kept withdrawn
  obtain ⟨_, opening, agreement, base, accounts⟩ := quiescent_closed rested run quiescent key
  obtain ⟨changed, round, stored⟩ := commit_round_int64 accounts member kept
  have deposited : total StorageDelta.deposit (deltasOn key block.books.committed) = 0 := by
    apply total_eq_zero
    intro delta inside
    cases counted delta inside with
    | takes nonpositive =>
        simp only [StorageDelta.deposit]
        omega
    | deletes => rfl
  have covered : total StorageDelta.withdrawal (deltasOn key block.books.committed) = 0 ∨
      (total StorageDelta.withdrawal (deltasOn key block.books.committed) : ℤ) ≤ count.toInt :=
    set_value_covers accounts member
  have held : total StorageDelta.deposit (deltasOn key block.books.committed) < 2 ^ 128 := by
    rw [deposited]
    decide
  have exactly := settle_int64_exact covered held
  rw [amount_total_eq, deposited, withdrawn] at exactly
  have highest := count.toInt_lt
  refine ⟨settleInt64 count (deltasOn key block.books.committed), ?_, by omega⟩
  rcases commit_settles rested run quiescent logged returned key with ⟨_, settled⟩ | ⟨unlogged, _⟩
  · rw [round] at settled
    exact (Except.ok.inj settled).symm.trans stored
  · rw [unlogged_untouched run unlogged] at member
    exact absurd member (Multiset.notMem_zero _)

theorem finished_deleted (rested : Rested view before.stateDb)
    (run : Run (MovesBlock cryptoShorthash library store programs) (.start before) moves block)
    (quiescent : block.Quiescent)
    (deleted : StorageDelta.deleteLast ∈ deltasOn key (promised block.pushes block.books.order))
    (logged : keys.Perm block.modifiedKeys)
    (returned : store.commitModifications newKey keys block.globalContext.stateDb = .ok after) :
    store.getCommittedValue key after = none := by
  rw [← closed_deltas run view.toObjectStore quiescent] at deleted
  obtain ⟨_, opening, agreement, base, accounts⟩ := quiescent_closed rested run quiescent key
  rcases commit_settles rested run quiescent logged returned key with ⟨_, settled⟩ | ⟨unlogged, _⟩
  · rw [commit_round_settles accounts] at settled
    obtain ⟨start, made, rest⟩ := bind_ok_iff.mp settled
    cases start with
    | none => exact (Except.ok.inj rest).symm
    | some agreed =>
        simp only [if_pos deleted] at rest
        exact (Except.ok.inj rest).symm
  · rw [unlogged_untouched run unlogged] at deleted
    exact absurd deleted (Multiset.notMem_zero _)

theorem finished_present (rested : Rested view before.stateDb)
    (run : Run (MovesBlock cryptoShorthash library store programs) (.start before) moves block)
    (quiescent : block.Quiescent)
    (kept : StorageDelta.deleteLast ∉ deltasOn key (promised block.pushes block.books.order))
    (present : store.getCommittedValue key before.stateDb ≠ none)
    (logged : keys.Perm block.modifiedKeys)
    (returned : store.commitModifications newKey keys block.globalContext.stateDb = .ok after) :
    store.getCommittedValue key after ≠ none := by
  rw [← closed_deltas run view.toObjectStore quiescent] at kept
  obtain ⟨_, opening, agreement, base, accounts⟩ := quiescent_closed rested run quiescent key
  obtain ⟨stored, held⟩ := Option.ne_none_iff_exists'.mp present
  rcases commit_settles rested run quiescent logged returned key with ⟨_, settled⟩ | ⟨_, same⟩
  · rw [commit_round_settles accounts] at settled
    have solvent := accounts.solvent
    rw [live_none] at solvent
    obtain ⟨last, left, _⟩ :=
      settle_keeps_type solvent accounts kept settled (base.trans held)
    rw [left]
    exact Option.some_ne_none _
  · rw [same]
    exact present

end Finished

end Block

/-! ## Blocks in a row -/

structure ClosedBlock (cryptoShorthash : CryptoShorthash) (library : ContractLibrary) (Tx : Type)
    {Database : Type} [DecidableEq Tx] (store : StateStore Database)
    (before : GlobalContext Database) where
  programs : Tx → Program
  moves : List (BlockMove Tx)
  last : BlockExecution Tx Database
  run : Run (MovesBlock cryptoShorthash library store programs) (.start before) moves last
  quiescent : last.Quiescent

/-- Guarded blocks, committed or undone. The number is what the committed ones have
taken from the key. -/
inductive CountedChain (cryptoShorthash : CryptoShorthash) (library : ContractLibrary) (Tx : Type)
    {Database : Type} [DecidableEq Tx] (store : StateStore Database) (key : AddressAndKey)
    (count : Int64)
    (guard : ∀ before, ClosedBlock cryptoShorthash library Tx store before → Prop)
    (start : GlobalContext Database) : ℕ → GlobalContext Database → Prop
  | start : CountedChain cryptoShorthash library Tx store key count guard start 0 start
  | finished {taken : ℕ} {before : GlobalContext Database} {newKey : HashKey}
      {keys : List AddressAndKey} {stateDb : Database} {contractDb : ContractDB}
      {thread : Fin tlcacheSize} {timestamp : UInt32}
      (earlier : CountedChain cryptoShorthash library Tx store key count guard start taken before)
      (block : ClosedBlock cryptoShorthash library Tx store before) (guarded : guard before block)
      (logged : keys.Perm block.last.modifiedKeys)
      (contracts : block.last.globalContext.contractDb.commit thread timestamp = .ok contractDb)
      (modifications : store.commitModifications newKey keys block.last.globalContext.stateDb =
        .ok stateDb) :
      CountedChain cryptoShorthash library Tx store key count guard start
        (taken + block.last.acquired key count block.programs)
        { stateDb := stateDb, contractDb := contractDb }
  | undone {taken : ℕ} {before : GlobalContext Database} {newKey : HashKey}
      {keys : List AddressAndKey} {stateDb : Database}
      (earlier : CountedChain cryptoShorthash library Tx store key count guard start taken before)
      (block : ClosedBlock cryptoShorthash library Tx store before)
      (logged : keys.Perm block.last.modifiedKeys)
      (modifications : store.rewindModifications newKey keys block.last.globalContext.stateDb =
        .ok stateDb) :
      CountedChain cryptoShorthash library Tx store key count guard start taken
        { stateDb := stateDb, contractDb := block.last.globalContext.contractDb.rewind }

section Chain

variable {cryptoShorthash : CryptoShorthash} {library : ContractLibrary} {Tx Database : Type}
  [DecidableEq Tx] {store : StateStore Database} {view : SettlingStore cryptoShorthash store}
  {key : AddressAndKey} {count : Int64} {taken : ℕ} {start last : GlobalContext Database}
  {guard : ∀ before, ClosedBlock cryptoShorthash library Tx store before → Prop}

/-- What the blocks of a chain preserve about the key: a committed block in its own
way, an undone one because it leaves the value as it was. -/
theorem chain_preserves (holds : ℕ → Option StorageObject → Prop)
    (rested : Rested view start.stateDb)
    (initial : holds 0 (store.getCommittedValue key start.stateDb))
    (kept : ∀ (taken : ℕ) (before : GlobalContext Database)
      (block : ClosedBlock cryptoShorthash library Tx store before) (newKey : HashKey)
      (keys : List AddressAndKey) (after : Database), Rested view before.stateDb →
      guard before block → keys.Perm block.last.modifiedKeys →
      store.commitModifications newKey keys block.last.globalContext.stateDb = .ok after →
      holds taken (store.getCommittedValue key before.stateDb) →
      holds (taken + block.last.acquired key count block.programs)
        (store.getCommittedValue key after))
    (chain : CountedChain cryptoShorthash library Tx store key count guard start taken last) :
    Rested view last.stateDb ∧ holds taken (store.getCommittedValue key last.stateDb) := by
  induction chain with
  | start => exact ⟨rested, initial⟩
  | finished earlier block guarded logged contracts modifications induction =>
      obtain ⟨before, held⟩ := induction
      exact ⟨commit_rested before block.run block.quiescent logged modifications,
        kept _ _ block _ _ _ before guarded logged modifications held⟩
  | undone earlier block logged modifications induction =>
      obtain ⟨before, held⟩ := induction
      obtain ⟨again, values⟩ :=
        rewind_rested before block.run block.quiescent logged modifications
      refine ⟨again, ?_⟩
      rw [values key]
      exact held

end Chain

end Scs
