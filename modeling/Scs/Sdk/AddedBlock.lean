import Mathlib.Algebra.Order.BigOperators.Group.Finset
import Scs.Sdk.AddedKey
import Scs.Sdk.ContractCalls

/-!
# Added keys over a block

A block leaves on a key no more than was there and what its passed transactions
have added. It leaves exactly that as long as the keys of a pool, all of which are
added to, cannot hold more than an `INT64_MAX` together.
-/

namespace Scs

set_option autoImplicit false

open Ledger Lockstep Runs TwoPhase Words

/-! ## A transaction at any point -/

/-- A program touches these keys through `int64_add` and `int64_get` only. -/
def AddsOn (keys : Finset AddressAndKey) (program : Program) (results : List CallResult) : Prop :=
  ∀ key ∈ keys, program.CallsOn key (AddedCall key) results

/-- What the keys hold and what some calls have added to them stays below `2^63`, after
each of the calls. -/
def PoolFits (keys : Finset AddressAndKey) (values : AddressAndKey → Int64)
    (calls : List ProxyCall) : Prop :=
  ∀ earlier, earlier <+: calls →
    ∑ key ∈ keys, (values key).toInt + ∑ key ∈ keys, addedTo key earlier < 2 ^ 63

theorem adds_on_earlier {keys : Finset AddressAndKey} {program : Program}
    {results more : List CallResult} (calls : AddsOn keys program more)
    (earlier : results <+: more) : AddsOn keys program results :=
  fun key member => Program.calls_on_prefix (calls key member) earlier

theorem pool_fits_earlier {keys : Finset AddressAndKey} {values : AddressAndKey → Int64}
    {calls more : List ProxyCall} (fits : PoolFits keys values more) (earlier : calls <+: more) :
    PoolFits keys values calls :=
  fun first before => fits first (before.trans earlier)

/-- One of some amounts, if none of the others is negative. -/
theorem pool_member_le {keys : Finset AddressAndKey} (amounts : AddressAndKey → ℤ)
    {key : AddressAndKey} (member : key ∈ keys)
    (others : ∀ other ∈ keys, other ≠ key → 0 ≤ amounts other) :
    amounts key ≤ ∑ other ∈ keys, amounts other := by
  rw [← Finset.add_sum_erase keys amounts member]
  have rest : 0 ≤ ∑ other ∈ keys.erase key, amounts other := by
    apply Finset.sum_nonneg
    intro other inside
    obtain ⟨different, inside⟩ := Finset.mem_erase.mp inside
    exact others other inside different
  omega

section Context

variable {library : ContractLibrary} {committed : CommittedValues} {contractDb : ContractDB}
  {keys : Finset AddressAndKey} {values : AddressAndKey → Int64} {program : Program}
  {context : TransactionContext} {key : AddressAndKey}

/-- The keys of a pool hold these values, none of which is negative. -/
structure PoolHolds (keys : Finset AddressAndKey) (values : AddressAndKey → Int64)
    (committed : CommittedValues) : Prop where
  held : ∀ key ∈ keys, heldInt64 (committed key) = some (values key)
  nonnegative : ∀ key ∈ keys, 0 ≤ (values key).toInt

structure AddedSum (committed : CommittedValues) (key : AddressAndKey) (value : Int64)
    (calls : List ProxyCall) (context : TransactionContext) (fits : Prop) (sum : Int64) :
    Prop where
  view : AddedView (committed key) value sum (context.storageProxy.localOf committed key)
  covered : 0 ≤ value.toInt + sum.toInt
  upper : sum.toInt ≤ addedTo key calls
  exactly : fits → sum.toInt = addedTo key calls

def AddedContext (committed : CommittedValues) (keys : Finset AddressAndKey)
    (values : AddressAndKey → Int64) (program : Program) (context : TransactionContext) : Prop :=
  ∀ key ∈ keys, ∃ sum, AddedSum committed key (values key) (program.made context.results) context
    (PoolFits keys values (program.made context.results)) sum

theorem added_context_start (pool : PoolHolds keys values committed) :
    AddedContext committed keys values program .start := by
  intro key member
  refine ⟨0, .untouched, ?_, le_refl _, fun _ => rfl⟩
  exact (pool.nonnegative key member).trans_eq (add_zero _).symm

/-- The amounts fit one by one because they fit together and none of the others is
overdrawn. -/
theorem pool_next_fits (before : AddedContext committed keys values program context)
    (pool : PoolHolds keys values committed) {next : ProxyCall}
    (fits : PoolFits keys values (program.made context.results ++ [next]))
    (member : key ∈ keys) (own : next.key? = some key) :
    addedTo key (program.made context.results) + next.adds key < 2 ^ 63 := by
  have total := fits _ (List.prefix_refl _)
  have earlier := pool_fits_earlier fits (List.prefix_append _ _)
  have snoc (other : AddressAndKey) : addedTo other (program.made context.results ++ [next]) =
      addedTo other (program.made context.results) + next.adds other := by
    rw [added_to_append, added_to_cons, added_to_nil, add_zero]
  have bound : (values key).toInt + addedTo key (program.made context.results ++ [next]) ≤
      ∑ other ∈ keys, ((values other).toInt +
        addedTo other (program.made context.results ++ [next])) := by
    apply pool_member_le (fun other => (values other).toInt +
      addedTo other (program.made context.results ++ [next])) member
    intro other inside different
    obtain ⟨sum, accounted⟩ := before other inside
    have apart : next.key? ≠ some other := by
      rw [own]
      exact fun same => different (Option.some.inj same).symm
    have covered := accounted.covered
    rw [snoc, adds_elsewhere apart, add_zero, ← accounted.exactly earlier]
    exact covered
  rw [Finset.sum_add_distrib, snoc] at bound
  have nonnegative := pool.nonnegative key member
  omega

theorem advance_added (pool : PoolHolds keys values committed)
    (kept : AddsOn keys program context.results →
      AddedContext committed keys values program context)
    (calls : AddsOn keys program (context.advance library committed contractDb program).results) :
    AddedContext committed keys values program
      (context.advance library committed contractDb program) := by
  have before := kept (adds_on_earlier calls (advance_results _ _ _ _ _))
  generalize advanced : context.advance library committed contractDb program = final at calls
  have cases : TransactionContext.AdvanceCases library committed contractDb program context
      (context.advance library committed contractDb program) :=
    TransactionContext.advance_cases program context
  rw [advanced] at cases
  cases cases with
  | stopped status => exact before
  | returned status ended =>
      intro key member
      obtain ⟨sum, view, covered, upper, exactly⟩ := before key member
      exact ⟨sum, view, covered, upper, exactly⟩
  | threw status =>
      intro key member
      obtain ⟨sum, view, covered, upper, exactly⟩ := before key member
      exact ⟨sum, view, covered, upper, exactly⟩
  | @performed next result after status called returned =>
      have made : program.made (context.results ++ [result]) =
          program.made context.results ++ [next] := by
        rw [Program.made_snoc, called]
        rfl
      intro key member
      obtain ⟨sum, accounted⟩ := before key member
      have snoc : addedTo key (program.made context.results ++ [next]) =
          addedTo key (program.made context.results) + next.adds key := by
        rw [added_to_append, added_to_cons, added_to_nil, add_zero]
      have shorter (fits : PoolFits keys values (program.made context.results ++ [next])) :
          PoolFits keys values (program.made context.results) :=
        pool_fits_earlier fits (List.prefix_append _ _)
      by_cases own : next.key? = some key
      · have call := calls key member _ (List.prefix_append _ _) next called own
        obtain ⟨merged, view, upper, exactly, covered⟩ := added_call_merges
          (pool.held key member) (pool.nonnegative key member) accounted.view accounted.covered
          call returned
        have earlier := accounted.upper
        refine ⟨merged, view, covered, ?_, ?_⟩
        · rw [made, snoc]
          omega
        · intro fits
          rw [made] at fits
          have same := accounted.exactly (shorter fits)
          have room := pool_next_fits before pool fits member own
          rw [made, snoc, exactly (by omega), same]
      · have same := perform_elsewhere own returned
        have idle := adds_elsewhere own
        refine ⟨sum, ?_, accounted.covered, ?_, ?_⟩
        · exact same ▸ accounted.view
        · rw [made, snoc, idle, add_zero]
          exact accounted.upper
        · intro fits
          rw [made] at fits
          rw [made, snoc, idle, add_zero]
          exact accounted.exactly (shorter fits)

end Context

/-! ## What the passed transactions push -/

section Block

variable {cryptoShorthash : CryptoShorthash} {library : ContractLibrary} {Tx Database : Type}
  [DecidableEq Tx] {store : StateStore Database} {view : SettlingStore cryptoShorthash store}
  {programs : Tx → Program} {before : GlobalContext Database} {moves : List (BlockMove Tx)}
  {block : BlockExecution Tx Database} {keys : Finset AddressAndKey}
  {values : AddressAndKey → Int64} {key : AddressAndKey}

def BlockExecution.madeBy (programs : Tx → Program) (block : BlockExecution Tx Database)
    (tx : Tx) : List ProxyCall :=
  (programs tx).made (block.contexts tx).results

def BlockExecution.added (key : AddressAndKey) (programs : Tx → Program)
    (block : BlockExecution Tx Database) : ℤ :=
  (block.books.order.map fun tx => addedTo key (block.madeBy programs tx)).sum

def AddsInBlock (keys : Finset AddressAndKey) (programs : Tx → Program)
    (block : BlockExecution Tx Database) : Prop :=
  ∀ tx ∈ block.books.order, AddsOn keys (programs tx) (block.contexts tx).results

theorem added_context (steady : SteadyStore store)
    (run : Run (MovesBlock cryptoShorthash library store programs) (.start before) moves block)
    (pool : PoolHolds keys values fun key => store.getCommittedValue key before.stateDb) {tx : Tx}
    (calls : AddsOn keys (programs tx) (block.contexts tx).results) :
    AddedContext (fun key => store.getCommittedValue key before.stateDb) keys values
      (programs tx) (block.contexts tx) := by
  refine context_invariant steady run tx
    (fun context => AddsOn keys (programs tx) context.results →
      AddedContext (fun key => store.getCommittedValue key before.stateDb) keys values
        (programs tx) context) ?_ ?_ calls
  · exact fun _ => added_context_start pool
  · exact fun context => advance_added pool

def AddedDelta (value : Int64) (delta : StorageDelta) : Prop :=
  ∃ sum, delta = .nonnegativeInt64SetAdd { setValue := value, delta := sum }

theorem added_deltas_shape {value sum : Int64} {deltas : List StorageDelta}
    (pushed : AddedDeltas value sum deltas) :
    (∀ delta ∈ deltas, AddedDelta value delta) ∧ amountTotal ↑deltas = sum.toInt := by
  cases pushed with
  | untouched nothing =>
      subst nothing
      constructor
      · intro delta impossible
        cases impossible
      · rfl
  | added =>
      constructor
      · intro delta member
        exact ⟨sum, List.mem_singleton.mp member⟩
      · rw [Multiset.coe_singleton, amountTotal, Multiset.map_singleton, Multiset.sum_singleton]
        rfl

structure PushesAdded (key : AddressAndKey) (value : Int64) (calls : List ProxyCall) (fits : Prop)
    (pushes : Multiset (AddressAndKey × StorageDelta)) : Prop where
  shape : ∀ delta ∈ deltasOn key pushes, AddedDelta value delta
  upper : amountTotal (deltasOn key pushes) ≤ addedTo key calls
  exactly : fits → amountTotal (deltasOn key pushes) = addedTo key calls

theorem passed_pushes_added (steady : SteadyStore store)
    (run : Run (MovesBlock cryptoShorthash library store programs) (.start before) moves block)
    (pool : PoolHolds keys values fun key => store.getCommittedValue key before.stateDb)
    (adds : AddsInBlock keys programs block) (member : key ∈ keys) {tx : Tx}
    (listed : tx ∈ block.books.order) :
    PushesAdded key (values key) (block.madeBy programs tx)
      (PoolFits keys values (block.madeBy programs tx)) ↑(block.pushes tx) := by
  obtain ⟨sum, accounted⟩ := added_context steady run pool (adds tx listed) key member
  obtain ⟨shape, amounts⟩ := added_deltas_shape (get_deltas_added accounted.view)
  have pushed := passed_pushes run key listed
  constructor
  · rw [pushed]
    exact shape
  · rw [pushed, amounts]
    exact accounted.upper
  · intro fits
    rw [pushed, amounts]
    exact accounted.exactly fits

theorem amount_total_add (left right : Multiset StorageDelta) :
    amountTotal (left + right) = amountTotal left + amountTotal right := by
  unfold amountTotal
  rw [Multiset.map_add, Multiset.sum_add]

/-- What all the passed transactions together push on a key of the pool. -/
theorem promised_added (steady : SteadyStore store)
    (run : Run (MovesBlock cryptoShorthash library store programs) (.start before) moves block)
    (pool : PoolHolds keys values fun key => store.getCommittedValue key before.stateDb)
    (adds : AddsInBlock keys programs block) (member : key ∈ keys) :
    (∀ delta ∈ deltasOn key (promised block.pushes block.books.order),
      AddedDelta (values key) delta) ∧
      amountTotal (deltasOn key (promised block.pushes block.books.order)) ≤
        block.added key programs ∧
      ((∀ tx ∈ block.books.order, PoolFits keys values (block.madeBy programs tx)) →
        amountTotal (deltasOn key (promised block.pushes block.books.order)) =
          block.added key programs) := by
  have own (tx : Tx) (listed : tx ∈ block.books.order) :=
    passed_pushes_added steady run pool adds member listed
  unfold BlockExecution.added promised
  generalize block.books.order = order at own
  induction order with
  | nil =>
      refine ⟨?_, le_refl _, fun _ => rfl⟩
      intro delta impossible
      cases impossible
  | cons tx rest induction =>
      obtain ⟨shape, upper, exactly⟩ :=
        induction fun other inside => own other (List.mem_cons_of_mem tx inside)
      have first := own tx List.mem_cons_self
      rw [List.map_cons, List.sum_cons, List.map_cons, List.sum_cons, deltas_on_add,
        amount_total_add]
      refine ⟨?_, add_le_add first.upper upper, ?_⟩
      · intro delta inside
        rcases Multiset.mem_add.mp inside with here | there
        · exact first.shape delta here
        · exact shape delta there
      · intro fits
        rw [first.exactly (fits tx List.mem_cons_self),
          exactly fun other inside => fits other (List.mem_cons_of_mem tx inside)]

end Block

/-! ## What the block leaves -/

section Settle

variable {cryptoShorthash : CryptoShorthash} {opening : Opening}
  {committed : Multiset StorageDelta} {agreement : Agreement} {object : RevertableObject}
  {value : Int64} {result : Option StorageObject}

/-- Withdrawals never exceed the value that all the set-adds agree on. The block is admitted
by the set value and not by what is deposited in it. -/
theorem added_covered (accounts : Accounts cryptoShorthash opening 0 committed agreement object)
    (shape : ∀ delta ∈ committed, AddedDelta value delta) :
    total StorageDelta.withdrawal committed = 0 ∨
      (total StorageDelta.withdrawal committed : ℤ) ≤ value.toInt := by
  rcases withdrawals_zero_or committed with zero | ⟨setAdd, member, _⟩
  · exact .inl zero
  · have covered := set_value_covers accounts member
    obtain ⟨sum, same⟩ := shape _ member
    cases same
    exact covered

theorem settle_added (accounts : Accounts cryptoShorthash opening 0 committed agreement object)
    (shape : ∀ delta ∈ committed, AddedDelta value delta)
    (held : heldInt64 opening.base = some value)
    (settled : settle opening agreement.value? committed = .ok result) :
    heldInt64 result = some (settleInt64 value committed) := by
  have kept : StorageDelta.deleteLast ∉ committed := by
    intro impossible
    obtain ⟨sum, same⟩ := shape _ impossible
    cases same
  by_cases idle : committed = 0
  · subst idle
    have unset : agreement.value? = none := by
      cases valued : agreement.value? with
      | none => rfl
      | some agreed =>
          obtain ⟨delta, impossible, _⟩ := (agreed_value_iff accounts agreed).mp valued
          exact absurd impossible (Multiset.notMem_zero _)
    rw [unset] at settled
    obtain ⟨base, made, rest⟩ := bind_ok_iff.mp settled
    cases made
    generalize opening.base = base at held rest
    cases base with
    | none =>
        cases rest
        cases held
        rfl
    | some stored =>
        obtain ⟨body, escrowedFee⟩ := stored
        cases body with
        | nonnegativeInt64 stored =>
            cases held
            simp only [if_neg kept] at rest
            cases rest
            rfl
        | _ => cases held
  · obtain ⟨delta, member⟩ := Multiset.exists_mem_of_ne_zero idle
    obtain ⟨sum, rfl⟩ := shape delta member
    obtain ⟨changed, round, stored⟩ := commit_round_int64 accounts member kept
    have settles := commit_round_settles accounts
    rw [settled, round] at settles
    cases settles
    rw [stored]
    rfl

/-- The settled value: never negative, never more than the exact one, and exactly that
where it fits. -/
theorem settle_added_bounds (nonnegative : 0 ≤ value.toInt)
    (covered : total StorageDelta.withdrawal committed = 0 ∨
      (total StorageDelta.withdrawal committed : ℤ) ≤ value.toInt) :
    0 ≤ (settleInt64 value committed).toInt ∧
      (settleInt64 value committed).toInt ≤ value.toInt + amountTotal committed ∧
      (value.toInt + amountTotal committed < 2 ^ 63 →
        (settleInt64 value committed).toInt = value.toInt + amountTotal committed) := by
  have highest := value.toInt_lt
  have sum := amount_total_eq committed
  have wrapped : total StorageDelta.deposit committed % 2 ^ 128 ≤
      total StorageDelta.deposit committed := Nat.mod_le _ _
  have bounds : 0 ≤ (settleInt64 value committed).toInt ∧
      (settleInt64 value committed).toInt ≤ value.toInt + amountTotal committed := by
    unfold settleInt64
    simp only
    split_ifs with saturated
    · have top : Int64.maxValue.toInt = 2 ^ 63 - 1 := rfl
      rw [top]
      omega
    · rw [Int64.toInt_ofInt_of_le (by omega) (by omega)]
      omega
  refine ⟨bounds.1, bounds.2, ?_⟩
  intro fits
  rw [settle_int64_exact covered (by omega)]
  omega

end Settle

section Finished

variable {cryptoShorthash : CryptoShorthash} {library : ContractLibrary} {Tx Database : Type}
  [DecidableEq Tx] {store : StateStore Database} {view : SettlingStore cryptoShorthash store}
  {programs : Tx → Program} {before : GlobalContext Database} {moves : List (BlockMove Tx)}
  {block : BlockExecution Tx Database} {keys : Finset AddressAndKey}
  {values : AddressAndKey → Int64} {key : AddressAndKey} {newKey : HashKey}
  {logged : List AddressAndKey} {after : Database}

structure LeavesAdded (value : Int64) (added : ℤ) (fits : Prop) (left : Int64) : Prop where
  nonnegative : 0 ≤ left.toInt
  upper : left.toInt ≤ value.toInt + added
  covered : fits → 0 ≤ value.toInt + added
  exactly : fits → value.toInt + added < 2 ^ 63 → left.toInt = value.toInt + added

theorem finished_added (rested : Rested view before.stateDb) (steady : SteadyStore store)
    (run : Run (MovesBlock cryptoShorthash library store programs) (.start before) moves block)
    (quiescent : block.Quiescent)
    (pool : PoolHolds keys values fun key => store.getCommittedValue key before.stateDb)
    (adds : AddsInBlock keys programs block) (permuted : logged.Perm block.modifiedKeys)
    (returned : store.commitModifications newKey logged block.globalContext.stateDb = .ok after)
    (member : key ∈ keys) :
    ∃ left, heldInt64 (store.getCommittedValue key after) = some left ∧
      LeavesAdded (values key) (block.added key programs)
        (∀ tx ∈ block.books.order, PoolFits keys values (block.madeBy programs tx)) left := by
  obtain ⟨shape, upper, exactly⟩ := promised_added steady run pool adds member
  rw [← closed_deltas run view.toObjectStore quiescent] at shape upper exactly
  obtain ⟨_, opening, agreement, base, accounts⟩ := quiescent_closed rested run quiescent key
  have held : heldInt64 opening.base = some (values key) := base ▸ pool.held key member
  have covered := added_covered accounts shape
  have nonnegative := pool.nonnegative key member
  obtain ⟨positive, most, settles⟩ := settle_added_bounds nonnegative covered
  refine ⟨settleInt64 (values key) (deltasOn key block.books.committed), ?_, positive,
    by omega, ?_, ?_⟩
  · rcases commit_settles rested run quiescent permuted returned key with
      ⟨_, settled⟩ | ⟨unlogged, same⟩
    · rw [commit_round_settles accounts] at settled
      exact settle_added accounts shape held settled
    · have idle := unlogged_untouched run unlogged
      rw [same, pool.held key member, idle]
      have unchanged := settles
      rw [idle] at unchanged
      have highest := (values key).toInt_lt
      have nothing : amountTotal 0 = 0 := rfl
      rw [nothing, add_zero] at unchanged
      exact congrArg some (Int64.toInt_inj.mp (unchanged highest)).symm
  · intro fits
    have sum := amount_total_eq (deltasOn key block.books.committed)
    rw [exactly fits] at sum
    omega
  · intro fits room
    rw [← exactly fits] at room ⊢
    exact settles room

end Finished

/-! ## A pool over a block -/

def addedToAll (keys : Finset AddressAndKey) (calls : List ProxyCall) : ℤ :=
  ∑ key ∈ keys, addedTo key calls

/-- At no point have the calls added more to the pool than at their end. -/
def PoolGrows (keys : Finset AddressAndKey) (calls : List ProxyCall) : Prop :=
  ∀ earlier, earlier <+: calls → addedToAll keys earlier ≤ addedToAll keys calls

theorem pool_grows_nonnegative {keys : Finset AddressAndKey} {calls : List ProxyCall}
    (grows : PoolGrows keys calls) : 0 ≤ addedToAll keys calls := by
  have nothing : addedToAll keys [] = 0 := Finset.sum_const_zero
  rw [← nothing]
  exact grows [] List.nil_prefix

theorem pool_grows_nil {keys : Finset AddressAndKey} : PoolGrows keys [] := by
  intro earlier before
  rw [List.prefix_nil.mp before]

theorem pool_grows_cons {keys : Finset AddressAndKey} {call : ProxyCall} {rest : List ProxyCall}
    (nonnegative : 0 ≤ addedToAll keys (call :: rest)) (grows : PoolGrows keys rest) :
    PoolGrows keys (call :: rest) := by
  intro earlier before
  rcases List.prefix_cons_iff.mp before with rfl | ⟨tail, rfl, shorter⟩
  · have nothing : addedToAll keys [] = 0 := Finset.sum_const_zero
    rw [nothing]
    exact nonnegative
  · have less := grows tail shorter
    simp only [addedToAll, added_to_cons, Finset.sum_add_distrib] at less ⊢
    omega

theorem added_to_all_append (keys : Finset AddressAndKey) (earlier later : List ProxyCall) :
    addedToAll keys (earlier ++ later) = addedToAll keys earlier + addedToAll keys later := by
  simp only [addedToAll, added_to_append, Finset.sum_add_distrib]

theorem pool_grows_append {keys : Finset AddressAndKey} {earlier later : List ProxyCall}
    (first : PoolGrows keys earlier) (second : PoolGrows keys later) :
    PoolGrows keys (earlier ++ later) := by
  intro start before
  have more := pool_grows_nonnegative second
  rw [added_to_all_append]
  rcases List.prefix_or_prefix_of_prefix before (List.prefix_append earlier later) with
    within | ⟨tail, rfl⟩
  · have less := first start within
    omega
  · have less := second tail ((List.prefix_append_right_inj earlier).mp before)
    rw [added_to_all_append]
    omega

/-! ### The keys of one contract -/

section CallsAt

variable {self : Address} {key : AddressAndKey} {keys : Finset AddressAndKey}
  {calls : List ProxyCall}

theorem added_to_calls_at (own : key.extractLsb' 256 256 = self) (calls : List ProxyCall) :
    addedTo key (callsAt self calls) = addedTo key calls := by
  induction calls with
  | nil => rfl
  | cons call rest induction =>
      by_cases here : call.contract? = some self
      · have kept : callsAt self (call :: rest) = call :: callsAt self rest :=
          List.filter_cons_of_pos (decide_eq_true here)
        rw [kept, added_to_cons, added_to_cons, induction]
      · have elsewhere : call.key? ≠ some key := by
          intro same
          rw [ProxyCall.contract?, same, Option.map_some, own] at here
          exact here rfl
        have dropped : callsAt self (call :: rest) = callsAt self rest :=
          List.filter_cons_of_neg (by rwa [decide_eq_true_eq])
        rw [dropped, added_to_cons, adds_elsewhere elsewhere, zero_add, induction]

theorem pool_grows_calls_at (own : ∀ key ∈ keys, key.extractLsb' 256 256 = self)
    (grows : PoolGrows keys (callsAt self calls)) : PoolGrows keys calls := by
  have same (some : List ProxyCall) : addedToAll keys (callsAt self some) = addedToAll keys some :=
    Finset.sum_congr rfl fun key member => added_to_calls_at (own key member) some
  intro earlier before
  rw [← same earlier, ← same calls]
  exact grows _ (before.filter _)

end CallsAt

def GrowsInBlock {Tx Database : Type} (keys : Finset AddressAndKey) (programs : Tx → Program)
    (block : BlockExecution Tx Database) : Prop :=
  ∀ tx ∈ block.books.order, PoolGrows keys (block.madeBy programs tx)

section Pool

variable {Tx Database : Type} {programs : Tx → Program} {block : BlockExecution Tx Database}
  {keys : Finset AddressAndKey} {values left : AddressAndKey → Int64}

theorem added_to_pool :
    ∑ key ∈ keys, block.added key programs =
      (block.books.order.map fun tx => addedToAll keys (block.madeBy programs tx)).sum := by
  unfold BlockExecution.added
  induction block.books.order with
  | nil => exact Finset.sum_const_zero
  | cons tx rest induction =>
      simp only [List.map_cons, List.sum_cons, Finset.sum_add_distrib, induction]
      rfl

theorem pool_added_nonnegative (grows : GrowsInBlock keys programs block) :
    0 ≤ ∑ key ∈ keys, block.added key programs := by
  rw [added_to_pool]
  apply List.sum_nonneg
  intro amount member
  obtain ⟨tx, listed, rfl⟩ := List.mem_map.mp member
  exact pool_grows_nonnegative (grows tx listed)

theorem pool_block_fits (grows : GrowsInBlock keys programs block)
    (room : ∑ key ∈ keys, (values key).toInt + ∑ key ∈ keys, block.added key programs < 2 ^ 63) :
    ∀ tx ∈ block.books.order, PoolFits keys values (block.madeBy programs tx) := by
  intro tx listed earlier before
  have nonnegative : ∀ amount ∈ block.books.order.map fun tx =>
      addedToAll keys (block.madeBy programs tx), 0 ≤ amount := by
    intro amount member
    obtain ⟨other, inside, rfl⟩ := List.mem_map.mp member
    exact pool_grows_nonnegative (grows other inside)
  have one := List.single_le_sum nonnegative _ (List.mem_map_of_mem listed)
  rw [← added_to_pool] at one
  have within := (grows tx listed earlier before).trans one
  unfold addedToAll at within
  omega

/-- Keys that together hold less than `2^63` settle exactly. -/
theorem pool_leaves_exactly (grows : GrowsInBlock keys programs block)
    (room : ∑ key ∈ keys, (values key).toInt + ∑ key ∈ keys, block.added key programs < 2 ^ 63)
    (leaves : ∀ key ∈ keys, LeavesAdded (values key) (block.added key programs)
      (∀ tx ∈ block.books.order, PoolFits keys values (block.madeBy programs tx)) (left key)) :
    ∀ key ∈ keys, (left key).toInt = (values key).toInt + block.added key programs := by
  intro key member
  have fits := pool_block_fits grows room
  apply (leaves key member).exactly fits
  have most := pool_member_le
    (fun other => (values other).toInt + block.added other programs) member
    fun other inside _ => (leaves other inside).covered fits
  rw [Finset.sum_add_distrib] at most
  exact most.trans_lt room

end Pool

/-! ## Blocks in a row -/

/-- Guarded blocks, committed or undone, and what the committed ones have added to each
key. -/
inductive AddedChain (cryptoShorthash : CryptoShorthash) (library : ContractLibrary) (Tx : Type)
    {Database : Type} [DecidableEq Tx] (store : StateStore Database)
    (guard : ∀ before, ClosedBlock cryptoShorthash library Tx store before → Prop)
    (start : GlobalContext Database) : (AddressAndKey → ℤ) → GlobalContext Database → Prop
  | start : AddedChain cryptoShorthash library Tx store guard start (fun _ => 0) start
  | finished {added : AddressAndKey → ℤ} {before : GlobalContext Database} {newKey : HashKey}
      {logged : List AddressAndKey} {stateDb : Database} {contractDb : ContractDB}
      {thread : Fin tlcacheSize} {timestamp : UInt32}
      (earlier : AddedChain cryptoShorthash library Tx store guard start added before)
      (block : ClosedBlock cryptoShorthash library Tx store before) (guarded : guard before block)
      (permuted : logged.Perm block.last.modifiedKeys)
      (contracts : block.last.globalContext.contractDb.commit thread timestamp = .ok contractDb)
      (modifications : store.commitModifications newKey logged block.last.globalContext.stateDb =
        .ok stateDb) :
      AddedChain cryptoShorthash library Tx store guard start
        (fun key => added key + block.last.added key block.programs)
        { stateDb := stateDb, contractDb := contractDb }
  | undone {added : AddressAndKey → ℤ} {before : GlobalContext Database} {newKey : HashKey}
      {logged : List AddressAndKey} {stateDb : Database}
      (earlier : AddedChain cryptoShorthash library Tx store guard start added before)
      (block : ClosedBlock cryptoShorthash library Tx store before)
      (permuted : logged.Perm block.last.modifiedKeys)
      (modifications : store.rewindModifications newKey logged block.last.globalContext.stateDb =
        .ok stateDb) :
      AddedChain cryptoShorthash library Tx store guard start added
        { stateDb := stateDb, contractDb := block.last.globalContext.contractDb.rewind }

section Chain

variable {cryptoShorthash : CryptoShorthash} {library : ContractLibrary} {Tx Database : Type}
  [DecidableEq Tx] {store : StateStore Database} {view : SettlingStore cryptoShorthash store}
  {keys : Finset AddressAndKey} {values left : AddressAndKey → Int64}
  {added : AddressAndKey → ℤ} {start last : GlobalContext Database}
  {guard : ∀ before, ClosedBlock cryptoShorthash library Tx store before → Prop}

/-- What a chain leaves on the keys of a pool, one by one and together. -/
structure PoolLeft (keys : Finset AddressAndKey) (values : AddressAndKey → Int64)
    (added : AddressAndKey → ℤ) (grows : Prop) (committed : CommittedValues)
    (left : AddressAndKey → Int64) : Prop extends PoolHolds keys left committed where
  upper : ∀ key ∈ keys, (left key).toInt ≤ (values key).toInt + added key
  exactly : grows → ∑ key ∈ keys, (values key).toInt + ∑ key ∈ keys, added key < 2 ^ 63 →
    ∀ key ∈ keys, (left key).toInt = (values key).toInt + added key

def ChainGrows (keys : Finset AddressAndKey)
    (guard : ∀ before, ClosedBlock cryptoShorthash library Tx store before → Prop) : Prop :=
  ∀ before block, guard before block → GrowsInBlock keys block.programs block.last

theorem pool_left_finished {before : GlobalContext Database} {newKey : HashKey}
    {logged : List AddressAndKey} {after : Database} (rested : Rested view before.stateDb)
    (steady : SteadyStore store)
    (block : ClosedBlock cryptoShorthash library Tx store before) (guarded : guard before block)
    (adds : AddsInBlock keys block.programs block.last)
    (permuted : logged.Perm block.last.modifiedKeys)
    (modifications : store.commitModifications newKey logged block.last.globalContext.stateDb =
      .ok after)
    (earlier : PoolLeft keys values added (ChainGrows keys guard)
      (fun key => store.getCommittedValue key before.stateDb) left) :
    ∃ next, PoolLeft keys values (fun key => added key + block.last.added key block.programs)
      (ChainGrows keys guard) (fun key => store.getCommittedValue key after) next := by
  have settles (key : AddressAndKey) (member : key ∈ keys) :=
    finished_added rested steady block.run block.quiescent earlier.toPoolHolds adds permuted
      modifications member
  choose! next held leaves using settles
  refine ⟨next, ⟨held, fun key member => (leaves key member).nonnegative⟩, ?_, ?_⟩
  · intro key member
    have before := earlier.upper key member
    have now := (leaves key member).upper
    omega
  · intro grows room key member
    have growing := grows before block guarded
    have more := pool_added_nonnegative growing
    rw [Finset.sum_add_distrib] at room
    have exactly := earlier.exactly grows (by omega)
    have total : ∑ key ∈ keys, (left key).toInt =
        ∑ key ∈ keys, (values key).toInt + ∑ key ∈ keys, added key := by
      rw [← Finset.sum_add_distrib]
      exact Finset.sum_congr rfl exactly
    rw [pool_leaves_exactly growing (by omega) leaves key member, exactly key member, add_assoc]

theorem chain_added (rested : Rested view start.stateDb) (steady : SteadyStore store)
    (pool : PoolHolds keys values fun key => store.getCommittedValue key start.stateDb)
    (adds : ∀ before block, guard before block → AddsInBlock keys block.programs block.last)
    (chain : AddedChain cryptoShorthash library Tx store guard start added last) :
    Rested view last.stateDb ∧ ∃ left, PoolLeft keys values added (ChainGrows keys guard)
      (fun key => store.getCommittedValue key last.stateDb) left := by
  induction chain with
  | start =>
      refine ⟨rested, values, pool, ?_, ?_⟩
      · exact fun key _ => (add_zero _).ge
      · exact fun _ _ key _ => (add_zero _).symm
  | finished earlier block guarded permuted contracts modifications induction =>
      obtain ⟨before, left, accounted⟩ := induction
      exact ⟨commit_rested before block.run block.quiescent permuted modifications,
        pool_left_finished before steady block guarded (adds _ block guarded) permuted
          modifications accounted⟩
  | undone earlier block permuted modifications induction =>
      obtain ⟨before, left, accounted⟩ := induction
      obtain ⟨again, values⟩ :=
        rewind_rested before block.run block.quiescent permuted modifications
      refine ⟨again, left, ⟨?_, accounted.nonnegative⟩, accounted.upper, accounted.exactly⟩
      intro key member
      rw [values key]
      exact accounted.held key member

end Chain

end Scs
