import Scs.StateDb.BlockStart
import Scs.TransactionContext.BlockBalance
import Scs.TransactionContext.ContractBindings

/-!
# Two runs in which the same transactions commit

What a block logs, commits and records is determined by the state it starts from
and by the transactions that have passed: neither the order in which they passed
nor those that failed leave a trace.
-/

namespace Scs

set_option autoImplicit false

open Ledger Lockstep Runs TwoPhase

section Run

variable {cryptoShorthash : CryptoShorthash} {library : ContractLibrary} {Tx : Type*}
  {Database : Type} [DecidableEq Tx] {store : StateStore Database} {programs : Tx → Program}
  {globalContext : GlobalContext Database} {moves : List (BlockMove Tx)}
  {block next : BlockExecution Tx Database} {move : BlockMove Tx}

/-! ## What a run records of those that have passed -/

theorem run_order_nodup (view : ObjectStore cryptoShorthash store)
    (run : Run (MovesBlock cryptoShorthash library store programs) (.start globalContext) moves
      block) : block.books.order.Nodup := by
  have kept : BlockBalanced block ∧ block.books.order.Nodup := by
    apply run_invariant
      (fun block : BlockExecution Tx Database => BlockBalanced block ∧ block.books.order.Nodup)
      _ _ run
    · intro block move next ⟨balanced, distinct⟩ moves
      refine ⟨moves_balanced view block move next balanced moves, ?_⟩
      cases block_move_cases moves with
      | @passed tx deploys creates proxy status phase updates =>
          have stranger : tx ∉ block.books.order := by
            rw [balanced.balanced.listed, phase]
            intro impossible
            cases impossible
          exact distinct.append (List.nodup_singleton tx) (List.disjoint_singleton.mpr stranger)
      | _ => exact distinct
    · exact ⟨block_balanced_start globalContext, List.nodup_nil⟩
  exact kept.2

/-- Every logged key is one that a passed transaction has looked at. -/
def LoggedByPassed (block : BlockExecution Tx Database) : Prop :=
  ∀ key ∈ block.modifiedKeys, ∃ tx ∈ block.books.order,
    key ∈ (block.contexts tx).storageProxy.loggedKeys

theorem moves_logged_by_passed
    (returned : ∀ tx ∈ block.books.order, (block.contexts tx).status = .returned)
    (logged : LoggedByPassed block)
    (moves : MovesBlock cryptoShorthash library store programs block move next) :
    LoggedByPassed next := by
  have called {caller : Tx} {context : TransactionContext}
      (running : (block.contexts caller).status = .running) :
      ∀ key ∈ block.modifiedKeys, ∃ tx ∈ block.books.order,
        key ∈ (Function.update block.contexts caller context tx).storageProxy.loggedKeys := by
    intro key member
    obtain ⟨tx, listed, cached⟩ := logged key member
    have apart : tx ≠ caller := by
      rintro rfl
      rw [returned tx listed] at running
      cases running
    refine ⟨tx, listed, ?_⟩
    rw [Function.update_of_ne apart]
    exact cached
  cases block_move_cases moves with
  | went running status => exact called running
  | returned running status => exact called running
  | threw running status => exact called running
  | @passed tx deploys creates proxy status phase updates =>
      intro key member
      rcases List.mem_union_iff.mp member with earlier | own
      · obtain ⟨other, listed, cached⟩ := logged key earlier
        exact ⟨other, List.mem_append_left _ listed, cached⟩
      · exact ⟨tx, List.mem_append_right _ (List.mem_singleton_self tx), own⟩
  | _ => exact logged

theorem run_logged_by_passed
    (run : Run (MovesBlock cryptoShorthash library store programs) (.start globalContext) moves
      block) : LoggedByPassed block := by
  apply run_invariant LoggedByPassed _ _ (run_between run)
  · rintro block move next logged ⟨moves, ⟨before, earlier⟩, _⟩
    exact moves_logged_by_passed (order_returned earlier) logged moves
  · intro key member
    exact absurd member List.not_mem_nil

theorem mem_modified_keys (view : ObjectStore cryptoShorthash store)
    (run : Run (MovesBlock cryptoShorthash library store programs) (.start globalContext) moves
      block) (key : AddressAndKey) :
    key ∈ block.modifiedKeys ↔ ∃ tx ∈ block.books.order,
      key ∈ (block.contexts tx).storageProxy.loggedKeys := by
  constructor
  · exact run_logged_by_passed run key
  · rintro ⟨tx, listed, cached⟩
    have committing := ((run_balanced view run).balanced.listed tx).mp listed
    exact ((run_logged run).passed tx committing).2 key cached

/-! ## The scripts that a run records -/

def ContractClosure.Makes (proxy : ContractDBProxy) : ContractClosure → Prop
  | .deploy _ _ => True
  | .create h contract source => proxy.newContracts.find h = some (contract, source)

/-- Recorded scripts are those that passed transactions have made, and of two that
have made the script of one hash, one still waits to record it. -/
structure CreatedOnce (block : BlockExecution Tx Database) : Prop where
  waiting : ∀ tx, ∀ closure ∈ block.closures tx,
    closure.Makes (block.contexts tx).contractDbProxy
  recorded : ∀ h contract,
    block.globalContext.contractDb.uncommittedContracts.newContracts.find h = some contract →
      ∃ tx ∈ block.books.order, ∃ source,
        (block.contexts tx).contractDbProxy.newContracts.find h = some (contract, source)
  once : ∀ tx ∈ block.books.order, ∀ other ∈ block.books.order, tx ≠ other → ∀ h,
    block.creates tx h → block.creates other h →
      ∃ contract source, .create h contract source ∈ block.closures tx ∨
        .create h contract source ∈ block.closures other

omit [DecidableEq Tx] in
theorem created_once_start (clear : globalContext.contractDb.uncommittedContracts = .empty) :
    CreatedOnce (.start globalContext : BlockExecution Tx Database) where
  waiting tx closure member := absurd member List.not_mem_nil
  recorded h contract found := by
    simp only [BlockExecution.start, clear] at found
    cases found
  once tx member := absurd member List.not_mem_nil

omit [DecidableEq Tx] in
theorem CreatedOnce.elsewhere (created : CreatedOnce block) (stateDb : Database)
    (allocated : Fin tlcacheSize → ℕ) (modifiedKeys pushedKeys : List AddressAndKey)
    {contexts : Tx → TransactionContext}
    {after : Books Tx (AddressAndKey × DeltaRewind) (AddressAndKey × StorageDelta)}
    (order : after.order = block.books.order)
    (passed : ∀ tx ∈ block.books.order, contexts tx = block.contexts tx)
    (closing : ∀ tx, block.closures tx ≠ [] → tx ∈ block.books.order) :
    CreatedOnce
      { block with
        globalContext := { block.globalContext with stateDb := stateDb }
        allocated := allocated
        modifiedKeys := modifiedKeys
        pushedKeys := pushedKeys
        contexts := contexts
        books := after } where
  waiting tx closure member := by
    simp only [passed tx (closing tx (List.ne_nil_of_mem member))]
    exact created.waiting tx closure member
  recorded h contract found := by
    obtain ⟨tx, listed, source, made⟩ := created.recorded h contract found
    refine ⟨tx, order ▸ listed, source, ?_⟩
    simp only [passed tx listed]
    exact made
  once tx listed other otherListed apart h creates otherCreates := by
    simp only [order] at listed otherListed
    simp only [BlockExecution.creates, passed tx listed] at creates
    simp only [BlockExecution.creates, passed other otherListed] at otherCreates
    exact created.once tx listed other otherListed apart h creates otherCreates

theorem pass_created_once {tx : Tx} (created : CreatedOnce block)
    (stranger : tx ∉ block.books.order) {deploys : List (Address × Hash)}
    {creates : List (Hash × MeteredContract × Contract)} {pushed : ContractDBProxy}
    (updates : (block.contexts tx).contractDbProxy.pushUpdatesToDb = .ok (deploys, creates, pushed))
    (modifiedKeys : List AddressAndKey) :
    CreatedOnce
      { block with
        modifiedKeys := modifiedKeys
        books := block.books.decide tx
        closures := Function.update block.closures tx (contractClosures deploys creates) } := by
  have own := (mem_contract_closures updates).2.2
  have makes : ∀ closure ∈ contractClosures deploys creates,
      closure.Makes (block.contexts tx).contractDbProxy := by
    unfold ContractDBProxy.pushUpdatesToDb at updates
    split_ifs at updates
    cases updates
    intro closure member
    rcases List.mem_append.mp member with deployed | made
    · obtain ⟨entry, _, rfl⟩ := List.mem_map.mp deployed
      trivial
    · obtain ⟨entry, inside, rfl⟩ := List.mem_map.mp made
      exact SortedMap.mem_entries_iff.mp inside
  have apart : ∀ other ∈ block.books.order, other ≠ tx := by
    rintro other member rfl
    exact stranger member
  constructor
  · intro other closure member
    by_cases same : other = tx
    · subst same
      simp only [Function.update_self] at member
      exact makes closure member
    · simp only [Function.update_of_ne same] at member
      exact created.waiting other closure member
  · intro h contract found
    obtain ⟨other, listed, source, made⟩ := created.recorded h contract found
    exact ⟨other, List.mem_append_left _ listed, source, made⟩
  · intro first listed second otherListed different h creates otherCreates
    rcases List.mem_append.mp listed with earlier | last
    · rcases List.mem_append.mp otherListed with otherEarlier | otherLast
      · simp only [Function.update_of_ne (apart first earlier),
          Function.update_of_ne (apart second otherEarlier)]
        exact created.once first earlier second otherEarlier different h creates otherCreates
      · obtain rfl := List.mem_singleton.mp otherLast
        obtain ⟨contract, source, waits⟩ := own h otherCreates
        refine ⟨contract, source, .inr ?_⟩
        simp only [Function.update_self]
        exact waits
    · obtain rfl := List.mem_singleton.mp last
      obtain ⟨contract, source, waits⟩ := own h creates
      refine ⟨contract, source, .inl ?_⟩
      simp only [Function.update_self]
      exact waits

omit [DecidableEq Tx] in
theorem made_creates {tx : Tx} {h : Hash} {made : MeteredContract × Contract}
    (found : (block.contexts tx).contractDbProxy.newContracts.find h = some made) :
    block.creates tx h := by
  rw [BlockExecution.creates, found]
  exact Option.some_ne_none made

theorem closure_run_created {thread : Fin tlcacheSize} {closure : ContractClosure}
    {contractDb after : ContractDB} (run : closure.run thread contractDb = .ok after) {h : Hash}
    {contract : MeteredContract}
    (found : after.uncommittedContracts.newContracts.find h = some contract) :
    contractDb.uncommittedContracts.newContracts.find h = some contract ∨
      ∃ source, closure = .create h contract source := by
  cases closure with
  | deploy deployAddress contractHash =>
      cases run
      exact .inl found
  | create newHash newContract source =>
      obtain ⟨contracts, added, same⟩ := bind_ok_iff.mp run
      cases same
      obtain ⟨_, rfl⟩ := UncommittedContracts.add_new_contract_ok_iff.mp added
      by_cases same : h = newHash
      · subst same
        simp only [SortedMap.find_assign_self, Option.some.injEq] at found
        exact .inr ⟨source, by rw [found]⟩
      · simp only [SortedMap.find_assign_other same] at found
        exact .inl found

theorem close_created_once {before : ContractDB} {tx : Tx} (books : ContractBooks before block)
    (created : CreatedOnce block) {closure : ContractClosure} {rest : List ContractClosure}
    (closures : block.closures tx = closure :: rest) {thread : Fin tlcacheSize}
    {contractDb : ContractDB}
    (run : closure.run thread block.globalContext.contractDb = .ok contractDb) :
    CreatedOnce
      { block with
        globalContext := { block.globalContext with contractDb := contractDb }
        closures := Function.update block.closures tx rest } := by
  have first : closure ∈ block.closures tx := closures ▸ List.mem_cons_self
  have left (other : Tx) (waiting : ContractClosure) (member : waiting ∈ block.closures other) :
      waiting ∈ Function.update block.closures tx rest other ∨ other = tx ∧ waiting = closure := by
    by_cases same : other = tx
    · subst same
      rw [closures] at member
      rw [Function.update_self]
      exact (List.mem_cons.mp member).symm.imp_right fun own => ⟨rfl, own⟩
    · rw [Function.update_of_ne same]
      exact .inl member
  -- whoever else has made the script still waits, or the record would have thrown
  have waits {other : Tx} (listed : other ∈ block.books.order) (apart : other ≠ tx) {h : Hash}
      (creates : block.creates other h) {contract : MeteredContract} {source : Contract}
      (own : closure = .create h contract source) :
      ∃ contract source,
        .create h contract source ∈ Function.update block.closures tx rest other := by
    subst own
    obtain ⟨contracts, added, _⟩ := bind_ok_iff.mp run
    obtain ⟨unrecorded, _⟩ := UncommittedContracts.add_new_contract_ok_iff.mp added
    rw [Function.update_of_ne apart]
    exact (books.creating other listed h creates).resolve_right fun found => found unrecorded
  constructor
  · intro other waiting member
    by_cases same : other = tx
    · subst same
      simp only [Function.update_self] at member
      exact created.waiting other waiting (closures ▸ List.mem_cons_of_mem _ member)
    · simp only [Function.update_of_ne same] at member
      exact created.waiting other waiting member
  · intro h contract found
    rcases closure_run_created run found with earlier | ⟨source, rfl⟩
    · exact created.recorded h contract earlier
    · exact ⟨tx, (books.closing tx _ first).1, source, created.waiting tx _ first⟩
  · intro other listed another otherListed apart h creates otherCreates
    obtain ⟨contract, source, waiting⟩ :=
      created.once other listed another otherListed apart h creates otherCreates
    rcases waiting with waiting | waiting
    · rcases left other _ waiting with still | ⟨rfl, own⟩
      · exact ⟨contract, source, .inl still⟩
      · obtain ⟨second, another, later⟩ :=
          waits otherListed (Ne.symm apart) otherCreates own.symm
        exact ⟨second, another, .inr later⟩
    · rcases left another _ waiting with still | ⟨rfl, own⟩
      · exact ⟨contract, source, .inr still⟩
      · obtain ⟨second, another, later⟩ := waits listed apart creates own.symm
        exact ⟨second, another, .inl later⟩

theorem moves_created_once {before : ContractDB} (books : ContractBooks before block)
    (created : CreatedOnce block)
    (moves : MovesBlock cryptoShorthash library store programs block move next) :
    CreatedOnce next := by
  have closing (tx : Tx) (waits : block.closures tx ≠ []) : tx ∈ block.books.order := by
    obtain ⟨closure, member⟩ := List.exists_mem_of_ne_nil _ waits
    exact (books.closing tx closure member).1
  have still {tx : Tx} (running : (block.contexts tx).status = .running) :
      ∀ other ∈ block.books.order,
        Function.update block.contexts tx (block.advanced library store programs tx) other =
          block.contexts other := by
    intro other listed
    apply Function.update_of_ne
    rintro rfl
    rw [(books.passed other listed).1] at running
    cases running
  cases block_move_cases moves with
  | went running status =>
      apply created.elsewhere
      · rfl
      · exact still running
      · exact closing
  | returned running status =>
      apply created.elsewhere
      · rfl
      · exact still running
      · exact closing
  | threw running status =>
      apply created.elsewhere
      · rfl
      · exact still running
      · exact closing
  | @passed tx deploys creates proxy status phase updates =>
      apply pass_created_once created _ updates
      intro member
      rw [(books.passed tx member).2] at phase
      cases phase
  | closed closures run => exact close_created_once books created closures run
  | persisted => exact ⟨created.waiting, created.recorded, created.once⟩
  | _ =>
      apply created.elsewhere
      · rfl
      · exact fun _ _ => rfl
      · exact closing

theorem run_created_once (clear : globalContext.contractDb.uncommittedContracts = .empty)
    (run : Run (MovesBlock cryptoShorthash library store programs) (.start globalContext) moves
      block) : CreatedOnce block := by
  apply run_invariant CreatedOnce _ (created_once_start clear) (run_between run)
  rintro block move next created ⟨moves, ⟨before, earlier⟩, _⟩
  exact moves_created_once (run_contract_books clear earlier) created moves

end Run

/-! ## Two runs -/

/-- Two runs of a block that have come to rest, with the same transactions past the
threshold. -/
structure SameCommits (cryptoShorthash : CryptoShorthash) (library : ContractLibrary)
    {Tx : Type*} {Database : Type} [DecidableEq Tx] (store : StateStore Database)
    (programs : Tx → Program) (before : GlobalContext Database)
    (left right : BlockExecution Tx Database) : Prop where
  leftRun : ∃ moves, Run (MovesBlock cryptoShorthash library store programs) (.start before) moves
    left
  rightRun : ∃ moves, Run (MovesBlock cryptoShorthash library store programs) (.start before) moves
    right
  leftQuiescent : left.Quiescent
  rightQuiescent : right.Quiescent
  order : left.books.order.Perm right.books.order

/-- Blocks at rest whose passed transactions deploy alike have recorded the same
deployments, if those on one address agree. -/
theorem deployments_alike {Tx : Type*} {LeftDb RightDb : Type} {leftBefore rightBefore : ContractDB}
    {left : BlockExecution Tx LeftDb} {right : BlockExecution Tx RightDb}
    (leftBooks : ContractBooks leftBefore left) (rightBooks : ContractBooks rightBefore right)
    (leftClosed : ∀ tx, left.closures tx = []) (rightClosed : ∀ tx, right.closures tx = [])
    (order : ∀ tx, tx ∈ left.books.order ↔ tx ∈ right.books.order)
    (shown : ∀ tx ∈ left.books.order, ∀ addr, right.deploys tx addr = left.deploys tx addr)
    (agreed : ∀ tx ∈ left.books.order, ∀ other ∈ left.books.order, ∀ addr h otherHash,
      left.deploys tx addr = some h → left.deploys other addr = some otherHash → h = otherHash)
    (addr : Address) :
    left.globalContext.contractDb.uncommittedContracts.newDeployments.find addr =
      right.globalContext.contractDb.uncommittedContracts.newDeployments.find addr := by
  cases found : left.globalContext.contractDb.uncommittedContracts.newDeployments.find addr with
  | some h =>
      obtain ⟨tx, listed, deploys⟩ := leftBooks.deployed addr h found
      obtain ⟨other, recorded⟩ := recorded_deployment rightBooks rightClosed
        ((order tx).mp listed) ((shown tx listed addr).trans deploys)
      obtain ⟨deployer, deployerListed, otherDeploys⟩ := rightBooks.deployed addr other recorded
      have deployerHere := (order deployer).mpr deployerListed
      rw [shown deployer deployerHere] at otherDeploys
      rw [recorded, agreed tx listed deployer deployerHere addr h other deploys otherDeploys]
  | none =>
      cases recorded :
          right.globalContext.contractDb.uncommittedContracts.newDeployments.find addr with
      | none => rfl
      | some h =>
          obtain ⟨tx, listed, deploys⟩ := rightBooks.deployed addr h recorded
          have listedHere := (order tx).mpr listed
          rw [shown tx listedHere] at deploys
          obtain ⟨first, there⟩ := recorded_deployment leftBooks leftClosed listedHere deploys
          rw [found] at there
          cases there

section Two

variable {cryptoShorthash : CryptoShorthash} {library : ContractLibrary} {Tx : Type*}
  {Database : Type} [DecidableEq Tx] {store : StateStore Database} {programs : Tx → Program}
  {before : GlobalContext Database} {left right : BlockExecution Tx Database}

namespace SameCommits

theorem symm (same : SameCommits cryptoShorthash library store programs before left right) :
    SameCommits cryptoShorthash library store programs before right left where
  leftRun := same.rightRun
  rightRun := same.leftRun
  leftQuiescent := same.rightQuiescent
  rightQuiescent := same.leftQuiescent
  order := same.order.symm

variable (same : SameCommits cryptoShorthash library store programs before left right)

include same

theorem contexts (steady : SteadyStore store) {tx : Tx} (listed : tx ∈ left.books.order) :
    left.contexts tx = right.contexts tx := by
  obtain ⟨_, leftRun⟩ := same.leftRun
  obtain ⟨_, rightRun⟩ := same.rightRun
  have reads : SameReads tx left right := run_same_reads steady rfl leftRun rightRun
  have leftReturned := order_returned leftRun tx listed
  have rightReturned := order_returned rightRun tx (same.order.mem_iff.mp listed)
  apply reads.stopped
  · rw [leftReturned]
    exact ContextStatus.noConfusion
  · rw [rightReturned]
    exact ContextStatus.noConfusion

theorem deltas (view : ObjectStore cryptoShorthash store) (steady : SteadyStore store) :
    left.books.committed = right.books.committed := by
  obtain ⟨_, leftRun⟩ := same.leftRun
  obtain ⟨_, rightRun⟩ := same.rightRun
  rw [quiescent_committed view leftRun same.leftQuiescent,
    quiescent_committed view rightRun same.rightQuiescent]
  apply promised_perm same.order
  intro tx listed
  exact congrArg TransactionContext.pushes (same.contexts steady listed)

theorem modified (view : ObjectStore cryptoShorthash store) (steady : SteadyStore store)
    (key : AddressAndKey) : key ∈ left.modifiedKeys ↔ key ∈ right.modifiedKeys := by
  obtain ⟨_, leftRun⟩ := same.leftRun
  obtain ⟨_, rightRun⟩ := same.rightRun
  rw [mem_modified_keys view leftRun, mem_modified_keys view rightRun]
  apply exists_congr
  intro tx
  rw [← same.order.mem_iff]
  apply and_congr_right
  intro listed
  rw [same.contexts steady listed]

theorem values {view : SettlingStore cryptoShorthash store} (rested : Rested view before.stateDb)
    (steady : SteadyStore store) {leftKey rightKey : HashKey}
    {leftKeys rightKeys : List AddressAndKey} {leftDb rightDb : Database}
    (leftLogged : leftKeys.Perm left.modifiedKeys) (rightLogged : rightKeys.Perm right.modifiedKeys)
    (leftReturned : store.commitModifications leftKey leftKeys left.globalContext.stateDb =
      .ok leftDb)
    (rightReturned : store.commitModifications rightKey rightKeys right.globalContext.stateDb =
      .ok rightDb) (key : AddressAndKey) :
    store.getCommittedValue key leftDb = store.getCommittedValue key rightDb := by
  obtain ⟨_, leftRun⟩ := same.leftRun
  obtain ⟨_, rightRun⟩ := same.rightRun
  choose openings base kempt start using rested.opened
  have leftKept : BlockKept view.toObjectStore openings left :=
    run_block_kept openings start leftRun
  have rightKept : BlockKept view.toObjectStore openings right :=
    run_block_kept openings start rightRun
  have logged := same.modified view.toObjectStore steady key
  rcases commit_settles rested leftRun same.leftQuiescent leftLogged leftReturned key with
    ⟨leftListed, leftSettled⟩ | ⟨leftUnlogged, leftKeeps⟩
  · rcases commit_settles rested rightRun same.rightQuiescent rightLogged rightReturned key with
      ⟨_, rightSettled⟩ | ⟨rightUnlogged, _⟩
    · obtain ⟨leftAgreement, leftAccounts⟩ := leftKept key
      obtain ⟨rightAgreement, rightAccounts⟩ := rightKept key
      have leftClosed : left.held = [] := List.map_eq_nil_iff.mpr same.leftQuiescent.1
      have rightClosed : right.held = [] := List.map_eq_nil_iff.mpr same.rightQuiescent.1
      simp only [ObjectStore.world, leftClosed] at leftAccounts
      simp only [ObjectStore.world, rightClosed] at rightAccounts
      rw [same.deltas view.toObjectStore steady] at leftAccounts
      have settled := settle_unique leftAccounts rightAccounts
      rw [leftSettled, rightSettled] at settled
      exact Except.ok.inj settled
    · exact absurd (logged.mp leftListed) rightUnlogged
  · rcases commit_settles rested rightRun same.rightQuiescent rightLogged rightReturned key with
      ⟨rightListed, _⟩ | ⟨_, rightKeeps⟩
    · exact absurd (logged.mpr rightListed) leftUnlogged
    · rw [leftKeeps, rightKeeps]

theorem scripts (steady : SteadyStore store)
    (clear : before.contractDb.uncommittedContracts = .empty) (h : Hash) :
    left.globalContext.contractDb.uncommittedContracts.newContracts.find h =
      right.globalContext.contractDb.uncommittedContracts.newContracts.find h := by
  have covers {first second : BlockExecution Tx Database} {h : Hash} {contract : MeteredContract}
      (same : SameCommits cryptoShorthash library store programs before first second)
      (found : first.globalContext.contractDb.uncommittedContracts.newContracts.find h =
        some contract) :
      second.globalContext.contractDb.uncommittedContracts.newContracts.find h =
        some contract := by
    obtain ⟨_, firstRun⟩ := same.leftRun
    obtain ⟨_, secondRun⟩ := same.rightRun
    have books := run_contract_books clear secondRun
    have created := run_created_once clear secondRun
    obtain ⟨tx, listed, source, made⟩ := (run_created_once clear firstRun).recorded h contract found
    have context := same.contexts steady listed
    rw [context] at made
    have listedThere := same.order.mem_iff.mp listed
    have creates := made_creates made
    obtain ⟨other, recorded⟩ := Option.ne_none_iff_exists'.mp
      (recorded_creation books same.rightQuiescent.2 listedThere creates)
    obtain ⟨maker, makerListed, makerSource, otherMade⟩ := created.recorded h other recorded
    have one : maker = tx := by
      by_contra apart
      obtain ⟨_, _, waiting⟩ :=
        created.once maker makerListed tx listedThere apart h (made_creates otherMade) creates
      rw [same.rightQuiescent.2, same.rightQuiescent.2] at waiting
      exact waiting.elim List.not_mem_nil List.not_mem_nil
    subst one
    rw [made] at otherMade
    cases otherMade
    exact recorded
  cases found : left.globalContext.contractDb.uncommittedContracts.newContracts.find h with
  | some contract => exact (covers same found).symm
  | none =>
      cases there : right.globalContext.contractDb.uncommittedContracts.newContracts.find h with
      | none => rfl
      | some contract =>
          rw [covers same.symm there] at found
          cases found

theorem script (steady : SteadyStore store)
    (clear : before.contractDb.uncommittedContracts = .empty) (h : Hash) :
    left.globalContext.contractDb.script h = right.globalContext.contractDb.script h := by
  obtain ⟨_, leftRun⟩ := same.leftRun
  obtain ⟨_, rightRun⟩ := same.rightRun
  rw [ContractDB.script, ContractDB.script, same.scripts steady clear,
    (run_contract_books clear leftRun).scripts, (run_contract_books clear rightRun).scripts]

theorem deployments (steady : SteadyStore store)
    (clear : before.contractDb.uncommittedContracts = .empty)
    (agreed : ∀ tx ∈ left.books.order, ∀ other ∈ left.books.order, ∀ addr h otherHash,
      left.deploys tx addr = some h → left.deploys other addr = some otherHash → h = otherHash)
    (addr : Address) :
    left.globalContext.contractDb.uncommittedContracts.newDeployments.find addr =
      right.globalContext.contractDb.uncommittedContracts.newDeployments.find addr := by
  obtain ⟨_, leftRun⟩ := same.leftRun
  obtain ⟨_, rightRun⟩ := same.rightRun
  apply deployments_alike (run_contract_books clear leftRun) (run_contract_books clear rightRun)
    same.leftQuiescent.2 same.rightQuiescent.2 (fun tx => same.order.mem_iff) _ agreed
  intro tx listed addr
  rw [BlockExecution.deploys, BlockExecution.deploys, same.contexts steady listed]

/-- The committed contracts do not tell the runs apart. -/
theorem addresses (steady : SteadyStore store)
    (clear : before.contractDb.uncommittedContracts = .empty)
    (agreed : ∀ tx ∈ left.books.order, ∀ other ∈ left.books.order, ∀ addr h otherHash,
      left.deploys tx addr = some h → left.deploys other addr = some otherHash → h = otherHash)
    {leftDb rightDb : ContractDB} {leftThread rightThread : Fin tlcacheSize}
    {leftTimestamp rightTimestamp : UInt32}
    (leftReturned :
      left.globalContext.contractDb.commit leftThread leftTimestamp = .ok leftDb)
    (rightReturned :
      right.globalContext.contractDb.commit rightThread rightTimestamp = .ok rightDb) :
    leftDb.addressesToContracts = rightDb.addressesToContracts := by
  obtain ⟨_, leftRun⟩ := same.leftRun
  obtain ⟨_, rightRun⟩ := same.rightRun
  have leftSpec := ContractDB.commit_spec leftReturned
  have rightSpec := ContractDB.commit_spec rightReturned
  funext addr
  have pending := same.deployments steady clear agreed addr
  cases found : left.globalContext.contractDb.uncommittedContracts.newDeployments.find addr with
  | none =>
      rw [found] at pending
      rw [leftSpec.kept addr found, rightSpec.kept addr pending.symm,
        (run_contract_books clear leftRun).addresses, (run_contract_books clear rightRun).addresses]
  | some h =>
      rw [found] at pending
      rw [(leftSpec.bound addr h found).2, (rightSpec.bound addr h pending.symm).2,
        same.script steady clear]

end SameCommits

end Two

end Scs
