import Mathlib.Logic.Relation
import Scs.ContractDb.ContractCommit
import Scs.TransactionContext.SnapshotReads

/-!
# The addresses that contracts are bound to

A block records the creations and the deployments of its successful
transactions, and its end commits them. The proxies check a deployment against
the committed scripts and those of their own transaction only.
-/

namespace Scs

set_option autoImplicit false

open Lockstep Runs TwoPhase

/-! ## The contracts of one transaction -/

/-- Nothing is pushed yet, and every deployment names a script that is committed or
created by the same transaction. -/
structure Deployable (contractDb : ContractDB) (proxy : ContractDBProxy) : Prop where
  uncommitted : proxy.isCommitted = false
  known : ∀ addr h, proxy.newDeployments.find addr = some h →
    proxy.checkContractExists contractDb h = true

section Proxy

variable {library : ContractLibrary} {contractDb : ContractDB} {proxy : ContractDBProxy}

theorem deployable_empty : Deployable contractDb .empty where
  uncommitted := rfl
  known _ _ impossible := by cases impossible

theorem deployable_elsewhere {other : ContractDB} (frozen : other.snapshot = contractDb.snapshot)
    (deployable : Deployable other proxy) : Deployable contractDb proxy where
  uncommitted := deployable.uncommitted
  known addr h deployed := by
    have scripts := congrArg ContractDB.hashesToContracts frozen
    have same : other.checkCommittedContractExists h =
        contractDb.checkCommittedContractExists h :=
      congrArg (fun hashes : SortedMap Hash MeteredContract => (hashes.find h).isSome) scripts
    have known := deployable.known addr h deployed
    unfold ContractDBProxy.checkContractExists at known ⊢
    rw [← same]
    exact known

theorem create_contract_deployable (deployable : Deployable contractDb proxy)
    (contract : Contract) : Deployable contractDb (proxy.createContract library contract).2 where
  uncommitted := deployable.uncommitted
  known addr h deployed := by
    have known := deployable.known addr h deployed
    unfold ContractDBProxy.checkContractExists at known ⊢
    rw [Bool.or_eq_true] at known ⊢
    apply known.imp_right
    intro own
    unfold ContractDBProxy.createContract
    by_cases same : h = library.hashXdr contract
    · rw [same]
      simp only [SortedMap.find_assign_self, Option.isSome_some]
    · simp only [SortedMap.find_assign_other same]
      exact own

theorem deploy_contract_deployable (deployable : Deployable contractDb proxy)
    (senderAddress : Address) (contractHash : Hash) (nonce : UInt64) :
    Deployable contractDb
      (proxy.deployContract library contractDb senderAddress contractHash nonce).2 := by
  unfold ContractDBProxy.deployContract
  simp only
  split_ifs with unknown taken
  · exact deployable
  · exact deployable
  · refine ⟨deployable.uncommitted, ?_⟩
    intro addr h deployed
    by_cases same : addr = ContractDBProxy.computeContractDeployAddress library senderAddress
        contractHash nonce
    · subst same
      rw [SortedMap.find_assign_self] at deployed
      cases deployed
      have known : proxy.checkContractExists contractDb contractHash = true := by
        simpa using unknown
      exact known
    · rw [SortedMap.find_assign_other same] at deployed
      exact deployable.known addr h deployed

/-- No call of a transaction deploys a script that does not exist. -/
theorem advance_deployable {committed : CommittedValues} {program : Program}
    {context : TransactionContext} (deployable : Deployable contractDb context.contractDbProxy) :
    Deployable contractDb
      (context.advance library committed contractDb program).contractDbProxy := by
  have written {storageProxy : Except Thrown StorageProxy} {result : CallResult}
      {after : TransactionContext} (returned : context.written storageProxy = .ok (result, after)) :
      Deployable contractDb after.contractDbProxy := by
    cases storageProxy with
    | error thrown => cases returned
    | ok storageProxy =>
        cases returned
        exact deployable
  have performed {next : ProxyCall} {result : CallResult} {after : TransactionContext}
      (returned : context.perform library committed contractDb next = .ok (result, after)) :
      Deployable contractDb after.contractDbProxy := by
    cases next with
    | get key =>
        cases returned
        exact deployable
    | getScript address =>
        unfold TransactionContext.perform at returned
        simp only at returned
        split at returned
        · cases returned
          exact deployable
        · cases returned
    | createContract contract =>
        cases returned
        exact create_contract_deployable deployable contract
    | deployContract senderAddress contractHash nonce =>
        cases returned
        exact deploy_contract_deployable deployable senderAddress contractHash nonce
    | _ => exact written returned
  unfold TransactionContext.advance
  split
  · split
    · exact deployable
    · exact deployable
    · split
      · rename_i returned
        have kept := performed returned
        exact kept
      · exact deployable
  · exact deployable

end Proxy

/-! ## The contracts of a block -/

section Block

variable {cryptoShorthash : CryptoShorthash} {library : ContractLibrary} {Tx : Type*}
  {Database : Type} [DecidableEq Tx] {store : StateStore Database} {programs : Tx → Program}
  {before : ContractDB} {block next : BlockExecution Tx Database} {tx : Tx}

def BlockExecution.deploys (block : BlockExecution Tx Database) (tx : Tx) (addr : Address) :
    Option Hash :=
  (block.contexts tx).contractDbProxy.newDeployments.find addr

def BlockExecution.creates (block : BlockExecution Tx Database) (tx : Tx) (h : Hash) : Prop :=
  (block.contexts tx).contractDbProxy.newContracts.find h ≠ none

/-- A closure carries out what its transaction has created or deployed. -/
def ContractClosure.OfProxy (proxy : ContractDBProxy) : ContractClosure → Prop
  | .deploy addr h => proxy.newDeployments.find addr = some h
  | .create h _ _ => proxy.newContracts.find h ≠ none

/-- What the successful transactions create and deploy is recorded or waits in a
closure, and nothing else is. -/
structure ContractBooks (before : ContractDB) (block : BlockExecution Tx Database) : Prop where
  frozen : block.globalContext.contractDb.snapshot = before.snapshot
  deployable : ∀ tx, Deployable before (block.contexts tx).contractDbProxy
  passed : ∀ tx ∈ block.books.order, (block.contexts tx).status = .returned ∧
    block.books.phase tx = .committing
  closing : ∀ tx, ∀ closure ∈ block.closures tx, tx ∈ block.books.order ∧
    closure.OfProxy (block.contexts tx).contractDbProxy
  deploying : ∀ tx ∈ block.books.order, ∀ addr h, block.deploys tx addr = some h →
    .deploy addr h ∈ block.closures tx ∨
      block.globalContext.contractDb.uncommittedContracts.newDeployments.find addr ≠ none
  creating : ∀ tx ∈ block.books.order, ∀ h, block.creates tx h →
    (∃ contract unmetered, .create h contract unmetered ∈ block.closures tx) ∨
      block.globalContext.contractDb.uncommittedContracts.newContracts.find h ≠ none
  deployed : ∀ addr h,
    block.globalContext.contractDb.uncommittedContracts.newDeployments.find addr = some h →
      ∃ tx ∈ block.books.order, block.deploys tx addr = some h
  created : ∀ h,
    block.globalContext.contractDb.uncommittedContracts.newContracts.find h ≠ none →
      ∃ tx ∈ block.books.order, block.creates tx h

omit [DecidableEq Tx] in
theorem contract_books_start {globalContext : GlobalContext Database}
    (clear : globalContext.contractDb.uncommittedContracts = .empty) :
    ContractBooks globalContext.contractDb
      (.start globalContext : BlockExecution Tx Database) where
  frozen := rfl
  deployable _ := deployable_empty
  passed tx member := absurd member List.not_mem_nil
  closing tx closure member := absurd member List.not_mem_nil
  deploying tx member := absurd member List.not_mem_nil
  creating tx member := absurd member List.not_mem_nil
  deployed addr h found := by
    simp only [BlockExecution.start, clear] at found
    cases found
  created h found := by
    simp only [BlockExecution.start, clear] at found
    exact absurd rfl found

omit [DecidableEq Tx] in
theorem ContractBooks.scripts (books : ContractBooks before block) (h : Hash) :
    block.globalContext.contractDb.hashesToContracts.find h =
      before.hashesToContracts.find h := by
  have same := congrArg ContractDB.hashesToContracts books.frozen
  exact congrArg (SortedMap.find h) same

omit [DecidableEq Tx] in
theorem ContractBooks.addresses (books : ContractBooks before block) (addr : Address) :
    block.globalContext.contractDb.addressesToContracts addr =
      before.addressesToContracts addr := by
  have same := congrArg ContractDB.addressesToContracts books.frozen
  exact congrFun same addr

omit [DecidableEq Tx] in
/-- The books see neither the state database nor a transaction that has not passed. -/
theorem ContractBooks.elsewhere (books : ContractBooks before block) (stateDb : Database)
    (allocated : Fin tlcacheSize → ℕ) (modifiedKeys pushedKeys : List AddressAndKey)
    {contexts : Tx → TransactionContext}
    (deployable : ∀ tx, Deployable before (contexts tx).contractDbProxy)
    {after : Books Tx (AddressAndKey × DeltaRewind) (AddressAndKey × StorageDelta)}
    (order : after.order = block.books.order)
    (apart : ∀ tx ∈ block.books.order, contexts tx = block.contexts tx ∧
      after.phase tx = block.books.phase tx) :
    ContractBooks before
      { block with
        globalContext := { block.globalContext with stateDb := stateDb }
        allocated := allocated
        modifiedKeys := modifiedKeys
        pushedKeys := pushedKeys
        contexts := contexts
        books := after } where
  frozen := books.frozen
  deployable := deployable
  passed tx member := by
    simp only [order] at member
    obtain ⟨context, phase⟩ := apart tx member
    simp only [context, phase]
    exact books.passed tx member
  closing tx closure member := by
    obtain ⟨listed, own⟩ := books.closing tx closure member
    obtain ⟨context, _⟩ := apart tx listed
    simp only [context, order]
    exact ⟨listed, own⟩
  deploying tx member addr h deploys := by
    simp only [order] at member
    obtain ⟨context, _⟩ := apart tx member
    simp only [BlockExecution.deploys, context] at deploys
    exact books.deploying tx member addr h deploys
  creating tx member h creates := by
    simp only [order] at member
    obtain ⟨context, _⟩ := apart tx member
    simp only [BlockExecution.creates, context] at creates
    exact books.creating tx member h creates
  deployed addr h found := by
    obtain ⟨tx, member, deploys⟩ := books.deployed addr h found
    obtain ⟨context, _⟩ := apart tx member
    refine ⟨tx, order ▸ member, ?_⟩
    simp only [BlockExecution.deploys, context]
    exact deploys
  created h found := by
    obtain ⟨tx, member, creates⟩ := books.created h found
    obtain ⟨context, _⟩ := apart tx member
    refine ⟨tx, order ▸ member, ?_⟩
    simp only [BlockExecution.creates, context]
    exact creates

theorem mem_contract_closures {proxy : ContractDBProxy} {deploys : List (Address × Hash)}
    {creates : List (Hash × MeteredContract × Contract)} {pushed : ContractDBProxy}
    (updates : proxy.pushUpdatesToDb = .ok (deploys, creates, pushed)) :
    (∀ closure ∈ contractClosures deploys creates, closure.OfProxy proxy) ∧
      (∀ addr h, proxy.newDeployments.find addr = some h →
        .deploy addr h ∈ contractClosures deploys creates) ∧
      ∀ h, proxy.newContracts.find h ≠ none →
        ∃ contract unmetered, .create h contract unmetered ∈
          contractClosures deploys creates := by
  unfold ContractDBProxy.pushUpdatesToDb at updates
  split_ifs at updates
  cases updates
  refine ⟨?_, ?_, ?_⟩
  · intro closure member
    rcases List.mem_append.mp member with deployed | created
    · obtain ⟨entry, inside, rfl⟩ := List.mem_map.mp deployed
      exact SortedMap.mem_entries_iff.mp inside
    · obtain ⟨entry, inside, rfl⟩ := List.mem_map.mp created
      have found : proxy.newContracts.find entry.1 = some entry.2 :=
        SortedMap.mem_entries_iff.mp inside
      simp only [ContractClosure.OfProxy, found]
      exact Option.some_ne_none entry.2
  · intro addr h deployed
    apply List.mem_append_left
    exact List.mem_map.mpr ⟨(addr, h), SortedMap.mem_entries_iff.mpr deployed, rfl⟩
  · intro h created
    obtain ⟨contract, found⟩ := Option.ne_none_iff_exists'.mp created
    refine ⟨contract.1, contract.2, List.mem_append_right _ ?_⟩
    exact List.mem_map.mpr ⟨(h, contract), SortedMap.mem_entries_iff.mpr found, rfl⟩

theorem pass_contract_books (books : ContractBooks before block)
    (status : (block.contexts tx).status = .returned)
    (phase : block.books.phase tx = .pushing []) {deploys : List (Address × Hash)}
    {creates : List (Hash × MeteredContract × Contract)} {pushed : ContractDBProxy}
    (updates : (block.contexts tx).contractDbProxy.pushUpdatesToDb = .ok (deploys, creates, pushed))
    (modifiedKeys : List AddressAndKey) :
    ContractBooks before
      { block with
        modifiedKeys := modifiedKeys
        books := block.books.decide tx
        closures := Function.update block.closures tx (contractClosures deploys creates) } := by
  obtain ⟨own, deploying, creating⟩ := mem_contract_closures updates
  have stranger : tx ∉ block.books.order := by
    intro member
    rw [(books.passed tx member).2] at phase
    cases phase
  have apart : ∀ other ∈ block.books.order, other ≠ tx := by
    rintro other member rfl
    exact stranger member
  refine
    { frozen := books.frozen
      deployable := books.deployable
      passed := ?_
      closing := ?_
      deploying := ?_
      creating := ?_
      deployed := ?_
      created := ?_ }
  · intro other member
    rcases List.mem_append.mp member with earlier | last
    · simp only [Books.decide, Function.update_of_ne (apart other earlier)]
      exact books.passed other earlier
    · obtain rfl := List.mem_singleton.mp last
      simp only [Books.decide, Function.update_self]
      exact ⟨status, trivial⟩
  · intro other closure member
    by_cases same : other = tx
    · subst same
      simp only [Function.update_self] at member
      exact ⟨List.mem_append_right _ (List.mem_singleton_self _), own closure member⟩
    · simp only [Function.update_of_ne same] at member
      obtain ⟨listed, mine⟩ := books.closing other closure member
      exact ⟨List.mem_append_left _ listed, mine⟩
  · intro other member addr h deploys
    rcases List.mem_append.mp member with earlier | last
    · simp only [Function.update_of_ne (apart other earlier)]
      exact books.deploying other earlier addr h deploys
    · obtain rfl := List.mem_singleton.mp last
      simp only [Function.update_self]
      exact .inl (deploying addr h deploys)
  · intro other member h creates
    rcases List.mem_append.mp member with earlier | last
    · simp only [Function.update_of_ne (apart other earlier)]
      exact books.creating other earlier h creates
    · obtain rfl := List.mem_singleton.mp last
      simp only [Function.update_self]
      exact .inl (creating h creates)
  · intro addr h found
    obtain ⟨other, member, deploys⟩ := books.deployed addr h found
    exact ⟨other, List.mem_append_left _ member, deploys⟩
  · intro h found
    obtain ⟨other, member, creates⟩ := books.created h found
    exact ⟨other, List.mem_append_left _ member, creates⟩

structure Recorded (closure : ContractClosure) (contractDb after : ContractDB) : Prop where
  deployment : ∀ addr, after.uncommittedContracts.newDeployments.find addr ≠ none ↔
    contractDb.uncommittedContracts.newDeployments.find addr ≠ none ∨
      ∃ h, closure = .deploy addr h
  deployed : ∀ addr h, after.uncommittedContracts.newDeployments.find addr = some h →
    contractDb.uncommittedContracts.newDeployments.find addr = some h ∨ closure = .deploy addr h
  created : ∀ h, after.uncommittedContracts.newContracts.find h ≠ none ↔
    contractDb.uncommittedContracts.newContracts.find h ≠ none ∨
      ∃ contract unmetered, closure = .create h contract unmetered

theorem closure_run_records {thread : Fin tlcacheSize} {closure : ContractClosure}
    {contractDb after : ContractDB} (run : closure.run thread contractDb = .ok after) :
    Recorded closure contractDb after := by
  cases closure with
  | deploy deployAddress contractHash =>
      cases run
      have others (addr : Address) (different : addr ≠ deployAddress) :
          (contractDb.deployContractToAddress deployAddress
            contractHash).uncommittedContracts.newDeployments.find addr =
              contractDb.uncommittedContracts.newDeployments.find addr :=
        SortedMap.emplace_find_other different
      have own : (contractDb.deployContractToAddress deployAddress
          contractHash).uncommittedContracts.newDeployments.find deployAddress = some
            ((contractDb.uncommittedContracts.newDeployments.find deployAddress).getD
              contractHash) := SortedMap.emplace_find_self
      refine ⟨?_, ?_, ?_⟩
      · intro addr
        by_cases same : addr = deployAddress
        · subst same
          rw [own]
          exact ⟨fun _ => .inr ⟨contractHash, rfl⟩, fun _ => Option.some_ne_none _⟩
        · rw [others addr same]
          constructor
          · exact .inl
          · rintro (found | ⟨h, ⟨⟩⟩)
            · exact found
            · exact absurd rfl same
      · intro addr h found
        by_cases same : addr = deployAddress
        · subst same
          rw [own] at found
          cases earlier : contractDb.uncommittedContracts.newDeployments.find addr with
          | none =>
              rw [earlier] at found
              cases found
              exact .inr rfl
          | some other =>
              rw [earlier] at found
              cases found
              exact .inl rfl
        · rw [others addr same] at found
          exact .inl found
      · intro h
        constructor
        · exact .inl
        · rintro (found | ⟨contract, unmetered, ⟨⟩⟩)
          exact found
  | create newHash newContract newUnmetered =>
      obtain ⟨contracts, added, same⟩ := bind_ok_iff.mp run
      cases same
      obtain ⟨_, rfl⟩ := UncommittedContracts.add_new_contract_ok_iff.mp added
      refine ⟨?_, fun addr h found => .inl found, ?_⟩
      · intro addr
        constructor
        · exact .inl
        · rintro (found | ⟨h, ⟨⟩⟩)
          exact found
      · intro h
        by_cases same : h = newHash
        · subst same
          simp only [SortedMap.find_assign_self]
          exact ⟨fun _ => .inr ⟨newContract, newUnmetered, rfl⟩,
            fun _ => Option.some_ne_none newContract⟩
        · simp only [SortedMap.find_assign_other same]
          constructor
          · exact .inl
          · rintro (found | ⟨contract, unmetered, ⟨⟩⟩)
            · exact found
            · exact absurd rfl same

theorem close_contract_books (books : ContractBooks before block) {closure : ContractClosure}
    {rest : List ContractClosure} (closures : block.closures tx = closure :: rest)
    {thread : Fin tlcacheSize} {contractDb : ContractDB}
    (run : closure.run thread block.globalContext.contractDb = .ok contractDb) :
    ContractBooks before
      { block with
        globalContext := { block.globalContext with contractDb := contractDb }
        closures := Function.update block.closures tx rest } := by
  have recorded := closure_run_records run
  have waits (other : Tx) (waiting : ContractClosure) (member : waiting ∈ block.closures other) :
      waiting ∈ Function.update block.closures tx rest other ∨ waiting = closure := by
    by_cases same : other = tx
    · subst same
      rw [closures] at member
      rw [Function.update_self]
      exact (List.mem_cons.mp member).symm
    · rw [Function.update_of_ne same]
      exact .inl member
  refine
    { frozen := (closure_run_snapshot run).trans books.frozen
      deployable := books.deployable
      passed := books.passed
      closing := ?_
      deploying := ?_
      creating := ?_
      deployed := ?_
      created := ?_ }
  · intro other waiting member
    apply books.closing other waiting
    by_cases same : other = tx
    · subst same
      simp only [Function.update_self] at member
      rw [closures]
      exact List.mem_cons_of_mem _ member
    · simp only [Function.update_of_ne same] at member
      exact member
  · intro other member addr h deploys
    rw [recorded.deployment]
    rcases books.deploying other member addr h deploys with waiting | found
    · exact (waits other _ waiting).imp_right fun same => .inr ⟨h, same.symm⟩
    · exact .inr (.inl found)
  · intro other member h creates
    rw [recorded.created]
    rcases books.creating other member h creates with ⟨contract, unmetered, waiting⟩ | found
    · rcases waits other _ waiting with still | same
      · exact .inl ⟨contract, unmetered, still⟩
      · exact .inr (.inr ⟨contract, unmetered, same.symm⟩)
    · exact .inr (.inl found)
  · intro addr h found
    rcases recorded.deployed addr h found with earlier | same
    · exact books.deployed addr h earlier
    · have first : closure ∈ block.closures tx := closures ▸ List.mem_cons_self
      obtain ⟨listed, own⟩ := books.closing tx closure first
      rw [same] at own
      exact ⟨tx, listed, own⟩
  · intro h found
    rcases (recorded.created h).mp found with earlier | ⟨contract, unmetered, same⟩
    · exact books.created h earlier
    · have first : closure ∈ block.closures tx := closures ▸ List.mem_cons_self
      obtain ⟨listed, own⟩ := books.closing tx closure first
      rw [same] at own
      exact ⟨tx, listed, own⟩

theorem moves_contract_books (block : BlockExecution Tx Database) (move : BlockMove Tx)
    (next : BlockExecution Tx Database) (books : ContractBooks before block)
    (moves : MovesBlock cryptoShorthash library store programs block move next) :
    ContractBooks before next := by
  have apart {tx : Tx} {remaining : List (AddressAndKey × StorageDelta)}
      (phase : block.books.phase tx = .pushing remaining) :
      ∀ other ∈ block.books.order, other ≠ tx := by
    rintro other member rfl
    rw [(books.passed other member).2] at phase
    cases phase
  have still {tx : Tx} (running : (block.contexts tx).status = .running) :
      ∀ other ∈ block.books.order, other ≠ tx := by
    rintro other member rfl
    rw [(books.passed other member).1] at running
    cases running
  have advanced (tx : Tx) : ∀ other, Deployable before (Function.update block.contexts tx
      (block.advanced library store programs tx) other).contractDbProxy := by
    intro other
    by_cases same : other = tx
    · subst same
      rw [Function.update_self]
      have own := deployable_elsewhere books.frozen.symm (books.deployable other)
      exact deployable_elsewhere books.frozen (advance_deployable own)
    · rw [Function.update_of_ne same]
      exact books.deployable other
  cases block_move_cases moves with
  | @went tx running status =>
      apply books.elsewhere
      · exact advanced tx
      · rfl
      · intro other member
        exact ⟨Function.update_of_ne (still running other member) _ _, rfl⟩
  | @returned tx running status =>
      apply books.elsewhere
      · exact advanced tx
      · rfl
      · intro other member
        have different := still running other member
        exact ⟨Function.update_of_ne different _ _, Function.update_of_ne different _ _⟩
  | @threw tx what running status =>
      apply books.elsewhere
      · exact advanced tx
      · rfl
      · intro other member
        have different := still running other member
        exact ⟨Function.update_of_ne different _ _, Function.update_of_ne different _ _⟩
  | accepted status phase applied =>
      apply books.elsewhere
      · exact books.deployable
      · rfl
      · intro other member
        exact ⟨rfl, Function.update_of_ne (apart phase other member) _ _⟩
  | rejected status phase applied =>
      apply books.elsewhere
      · exact books.deployable
      · rfl
      · intro other member
        exact ⟨rfl, Function.update_of_ne (apart phase other member) _ _⟩
  | gaveUp status phase =>
      apply books.elsewhere
      · exact books.deployable
      · rfl
      · intro other member
        exact ⟨rfl, Function.update_of_ne (apart phase other member) _ _⟩
  | passed status phase updates => exact pass_contract_books books status phase updates _
  | committed found phase through =>
      apply books.elsewhere
      · exact books.deployable
      · rfl
      · exact fun other member => ⟨rfl, rfl⟩
  | closed closures run => exact close_contract_books books closures run
  | persisted =>
      exact
        { frozen := books.frozen
          deployable := books.deployable
          passed := books.passed
          closing := books.closing
          deploying := books.deploying
          creating := books.creating
          deployed := books.deployed
          created := books.created }
  | destroyed found phase through =>
      apply books.elsewhere
      · exact books.deployable
      · rfl
      · exact fun other member => ⟨rfl, rfl⟩

theorem run_contract_books {globalContext : GlobalContext Database} {moves : List (BlockMove Tx)}
    (clear : globalContext.contractDb.uncommittedContracts = .empty)
    (run : Run (MovesBlock cryptoShorthash library store programs) (.start globalContext) moves
      block) : ContractBooks globalContext.contractDb block :=
  run_invariant (ContractBooks globalContext.contractDb) moves_contract_books
    (contract_books_start clear) run

/-! ## The end of a block -/

/-- At the address of every deployment of a successful transaction, `get_script_by_address`
finds the script of its hash. -/
def DeploymentsVisible (block : BlockExecution Tx Database) (contractDb : ContractDB) : Prop :=
  ∀ tx ∈ block.books.order, ∀ addr h, block.deploys tx addr = some h →
    ∃ script, contractDb.getScriptByAddress addr = .ok (some script) ∧
      contractDb.getScriptByHash h = some script

/-- Nothing that the successful transactions create or deploy is in the chain already,
no address is deployed with two scripts, and no deployed script is without bytes
because its metering failed. -/
structure NewToChain (before : ContractDB) (block : BlockExecution Tx Database) : Prop where
  scripts : ∀ tx ∈ block.books.order, ∀ h, block.creates tx h →
    before.hashesToContracts.find h = none
  addresses : ∀ tx ∈ block.books.order, ∀ addr h, block.deploys tx addr = some h →
    before.addressesToContracts addr = none
  agreed : ∀ tx ∈ block.books.order, ∀ other ∈ block.books.order, ∀ addr h otherHash,
    block.deploys tx addr = some h → block.deploys other addr = some otherHash →
      block.globalContext.contractDb.script h = block.globalContext.contractDb.script otherHash
  metered : ∀ tx ∈ block.books.order, ∀ addr h, block.deploys tx addr = some h →
    block.globalContext.contractDb.script h ≠ some { base := none }

section Recorded

variable (books : ContractBooks before block) (recorded : ∀ tx, block.closures tx = [])

include books recorded

omit [DecidableEq Tx] in
theorem recorded_creation {h : Hash} (member : tx ∈ block.books.order)
    (creates : block.creates tx h) :
    block.globalContext.contractDb.uncommittedContracts.newContracts.find h ≠ none := by
  rcases books.creating tx member h creates with ⟨contract, unmetered, waiting⟩ | found
  · rw [recorded tx] at waiting
    exact absurd waiting List.not_mem_nil
  · exact found

omit [DecidableEq Tx] in
theorem recorded_deployment {addr : Address} {h : Hash} (member : tx ∈ block.books.order)
    (deploys : block.deploys tx addr = some h) :
    ∃ first, block.globalContext.contractDb.uncommittedContracts.newDeployments.find addr =
      some first := by
  rcases books.deploying tx member addr h deploys with waiting | found
  · rw [recorded tx] at waiting
    exact absurd waiting List.not_mem_nil
  · exact Option.ne_none_iff_exists'.mp found

omit [DecidableEq Tx] in
theorem deployed_script_known {addr : Address} {h : Hash} (member : tx ∈ block.books.order)
    (deploys : block.deploys tx addr = some h) :
    block.globalContext.contractDb.script h ≠ none := by
  have known := (books.deployable tx).known addr h deploys
  unfold ContractDB.script
  unfold ContractDBProxy.checkContractExists at known
  rw [Bool.or_eq_true] at known
  intro missing
  rw [Option.or_eq_none_iff] at missing
  rcases known with committed | own
  · unfold ContractDB.checkCommittedContractExists at committed
    rw [← books.scripts h, missing.2] at committed
    cases committed
  · apply recorded_creation books recorded member _ missing.1
    exact Option.isSome_iff_ne_none.mp own

omit [DecidableEq Tx] in
theorem commit_visible_iff (thread : Fin tlcacheSize) (timestamp : UInt32) :
    (∃ after, block.globalContext.contractDb.commit thread timestamp = .ok after ∧
      DeploymentsVisible block after) ↔ NewToChain before block := by
  constructor
  · rintro ⟨after, committed, visible⟩
    obtain ⟨unknown, bindable⟩ := ContractDB.commit_returns_iff.mp ⟨after, committed⟩
    have commits := ContractDB.commit_spec committed
    have shown {other : Tx} {addr : Address} {h : Hash} (member : other ∈ block.books.order)
        (deploys : block.deploys other addr = some h) :
        ∃ script, after.addressesToContracts addr = some { base := some script } ∧
          block.globalContext.contractDb.script h = some { base := some script } := by
      obtain ⟨script, there, named⟩ := visible other member addr h deploys
      refine ⟨script, ContractDB.get_script_by_address_iff.mp there, ?_⟩
      rw [← commits.scripts h]
      exact ContractDB.get_script_by_hash_iff.mp named
    refine ⟨?_, ?_, ?_, ?_⟩
    · intro tx member h creates
      rw [← books.scripts h]
      exact unknown h (recorded_creation books recorded member creates)
    · intro tx member addr h deploys
      obtain ⟨first, found⟩ := recorded_deployment books recorded member deploys
      rw [← books.addresses addr]
      exact (bindable addr first found).1
    · intro tx member other otherMember addr h otherHash deploys otherDeploys
      obtain ⟨script, bound, left⟩ := shown member deploys
      obtain ⟨otherScript, again, right⟩ := shown otherMember otherDeploys
      rw [left, right, ← bound, ← again]
    · intro tx member addr h deploys impossible
      obtain ⟨script, _, named⟩ := shown member deploys
      rw [named] at impossible
      cases impossible
  · intro fresh
    have returns : ∃ after,
        block.globalContext.contractDb.commit thread timestamp = .ok after := by
      apply ContractDB.commit_returns_iff.mpr
      constructor
      · intro h found
        obtain ⟨tx, member, creates⟩ := books.created h found
        rw [books.scripts h]
        exact fresh.scripts tx member h creates
      · intro addr h found
        obtain ⟨tx, member, deploys⟩ := books.deployed addr h found
        rw [books.addresses addr]
        exact ⟨fresh.addresses tx member addr h deploys,
          deployed_script_known books recorded member deploys⟩
    obtain ⟨after, committed⟩ := returns
    have commits := ContractDB.commit_spec committed
    refine ⟨after, committed, ?_⟩
    intro tx member addr h deploys
    obtain ⟨first, found⟩ := recorded_deployment books recorded member deploys
    obtain ⟨known, bound⟩ := commits.bound addr first found
    obtain ⟨winner, winning, chosen⟩ := books.deployed addr first found
    rw [fresh.agreed winner winning tx member addr first h chosen deploys] at known bound
    obtain ⟨⟨base⟩, named⟩ := Option.ne_none_iff_exists'.mp known
    cases base with
    | none => exact absurd named (fresh.metered tx member addr h deploys)
    | some script =>
        refine ⟨script, ContractDB.get_script_by_address_iff.mpr (bound.trans named), ?_⟩
        exact ContractDB.get_script_by_hash_iff.mpr ((commits.scripts h).trans named)

end Recorded

end Block

/-! ## Chains of blocks -/

section Chain

variable {cryptoShorthash : CryptoShorthash} {library : ContractLibrary} {Tx Database : Type}
  [DecidableEq Tx] {store : StateStore Database} {before after : GlobalContext Database}

/-- The end of a block leaves nothing pending, and every bound address as it was. -/
theorem ends_block_binds (clear : before.contractDb.uncommittedContracts = .empty)
    (ends : EndsBlock cryptoShorthash library Tx store before after) :
    after.contractDb.uncommittedContracts = .empty ∧
      ∀ addr contract, before.contractDb.addressesToContracts addr = some contract →
        after.contractDb.addressesToContracts addr = some contract := by
  cases ends with
  | @finished programs moves last newKey keys stateDb contractDb thread timestamp run quiescent
      logged contracts modifications =>
      have books := run_contract_books clear run
      have commits := ContractDB.commit_spec contracts
      obtain ⟨_, bindable⟩ := ContractDB.commit_returns_iff.mp ⟨contractDb, contracts⟩
      refine ⟨commits.cleared, ?_⟩
      intro addr contract bound
      cases pending :
          last.globalContext.contractDb.uncommittedContracts.newDeployments.find addr with
      | none => exact (commits.kept addr pending).trans ((books.addresses addr).trans bound)
      | some h =>
          have free := (bindable addr h pending).1
          rw [books.addresses addr, bound] at free
          cases free
  | @undone programs moves last newKey keys stateDb run quiescent logged modifications =>
      have books := run_contract_books clear run
      refine ⟨rfl, ?_⟩
      intro addr contract bound
      exact (books.addresses addr).trans bound

theorem chain_binds (clear : before.contractDb.uncommittedContracts = .empty)
    (chain : Relation.ReflTransGen (EndsBlock cryptoShorthash library Tx store) before after) :
    after.contractDb.uncommittedContracts = .empty ∧
      ∀ addr contract, before.contractDb.addressesToContracts addr = some contract →
        after.contractDb.addressesToContracts addr = some contract := by
  induction chain with
  | refl => exact ⟨clear, fun addr contract bound => bound⟩
  | tail _ ends induction =>
      obtain ⟨cleared, kept⟩ := induction
      obtain ⟨last, stays⟩ := ends_block_binds cleared ends
      exact ⟨last, fun addr contract bound => stays addr contract (kept addr contract bound)⟩

/-- No transaction of the block has recorded the creation of the script already. -/
def ContractClosure.Unrecorded (contractDb : ContractDB) : ContractClosure → Prop
  | .deploy _ _ => True
  | .create h _ _ => contractDb.uncommittedContracts.newContracts.find h = none

theorem closure_runs_iff {thread : Fin tlcacheSize} {closure : ContractClosure}
    {contractDb : ContractDB} :
    (∃ after, closure.run thread contractDb = .ok after) ↔ closure.Unrecorded contractDb := by
  cases closure with
  | deploy deployAddress contractHash => exact ⟨fun _ => trivial, fun _ => ⟨_, rfl⟩⟩
  | create h contract unmetered =>
      constructor
      · rintro ⟨after, run⟩
        obtain ⟨contracts, added, _⟩ := bind_ok_iff.mp run
        exact (UncommittedContracts.add_new_contract_ok_iff.mp added).1
      · intro unrecorded
        exact ⟨_, bind_ok_iff.mpr
          ⟨_, UncommittedContracts.add_new_contract_ok_iff.mpr ⟨unrecorded, rfl⟩, rfl⟩⟩

end Chain

/-- When the contracts of a chain of blocks are recorded, committed and visible
without a throw, at any point of any block of the chain. -/
theorem contract_bindings_iff (cryptoShorthash : CryptoShorthash) (library : ContractLibrary)
    {Tx Database : Type} [DecidableEq Tx] (store : StateStore Database)
    {genesis before : GlobalContext Database}
    (clear : genesis.contractDb.uncommittedContracts = .empty)
    (chain : Relation.ReflTransGen (EndsBlock cryptoShorthash library Tx store) genesis before)
    {programs : Tx → Program} {moves : List (BlockMove Tx)} {block : BlockExecution Tx Database}
    (run : Run (MovesBlock cryptoShorthash library store programs) (.start before) moves block)
    (thread : Fin tlcacheSize) (timestamp : UInt32) :
    (∀ tx, ∃ updates, (block.contexts tx).contractDbProxy.pushUpdatesToDb = .ok updates) ∧
      (∀ tx closure rest, block.closures tx = closure :: rest →
        ((∃ after, closure.run thread block.globalContext.contractDb = .ok after) ↔
          closure.Unrecorded block.globalContext.contractDb)) ∧
      (block.Quiescent →
        ((∃ after, block.globalContext.contractDb.commit thread timestamp = .ok after ∧
          DeploymentsVisible block after) ↔ NewToChain before.contractDb block)) ∧
      ∀ later, Relation.ReflTransGen (EndsBlock cryptoShorthash library Tx store) before later →
        ∀ addr script, before.contractDb.getScriptByAddress addr = .ok (some script) →
          later.contractDb.getScriptByAddress addr = .ok (some script) := by
  have started := (chain_binds clear chain).1
  have books := run_contract_books started run
  refine ⟨?_, ?_, ?_, ?_⟩
  · intro tx
    unfold ContractDBProxy.pushUpdatesToDb
    rw [(books.deployable tx).uncommitted]
    exact ⟨_, rfl⟩
  · exact fun tx closure rest _ => closure_runs_iff
  · exact fun quiescent => commit_visible_iff books quiescent.2 thread timestamp
  · intro later tail addr script visible
    rw [ContractDB.get_script_by_address_iff] at visible ⊢
    exact (chain_binds started tail).2 addr _ visible

def oneContract : ContractLibrary where
  addMetering contract := some contract
  hashXdr _ := 5
  hashVec _ := 9

def nothingStored : GlobalContext StateDB where
  stateDb := .ofCommitted 0 fun _ => none
  contractDb := .empty

def createAndDeploy : Bool → Program := fun _ results =>
  match results.length with
  | 0 => .call (.createContract [0])
  | 1 => .call (.deployContract 1 5 0)
  | _ => .returns

def deployOnly : Bool → Program := fun _ results =>
  match results.length with
  | 0 => .call (.deployContract 1 5 0)
  | _ => .returns

def deployedMoves : List (BlockMove Bool) :=
  [.call true, .call true, .call true, .pass true, .close true firstThread,
    .close true firstThread]

theorem contract_bindings_deployed :
    ∃ block, BlockExecution.performAll (fun _ => 0) oneContract
        (StateDB.store (fun _ => 0) fun _ _ => 0) createAndDeploy deployedMoves
        (.start nothingStored) = some block ∧
      ((∃ after, block.globalContext.contractDb.commit firstThread 1 = .ok after ∧
        DeploymentsVisible block after) ↔ NewToChain nothingStored.contractDb block) := by
  have performed : ∃ block, BlockExecution.performAll (fun _ => 0) oneContract
      (StateDB.store (fun _ => 0) fun _ _ => 0) createAndDeploy deployedMoves
      (.start nothingStored) = some block ∧ block.Quiescent := by
    refine ⟨_, rfl, rfl, ?_⟩
    intro tx
    cases tx <;> rfl
  obtain ⟨block, ran, quiescent⟩ := performed
  have bound := contract_bindings_iff (fun _ => 0) oneContract
    (StateDB.store (fun _ => 0) fun _ _ => 0) rfl .refl (run_of_perform_all ran) firstThread 1
  exact ⟨block, ran, bound.2.2.1 quiescent⟩

/-- Bytes that are no wasm module, as `add_metering_ext` answers them. -/
def noMetering : ContractLibrary where
  addMetering _ := none
  hashXdr _ := 5
  hashVec _ := 9

/-- A script that two transactions create throws out of a destructor, an address that is
deployed again throws out of the commit, and a script whose metering failed is committed
but not visible. -/
theorem contracts_bound_twice :
    (∃ block, BlockExecution.performAll (fun _ => 0) oneContract
        (StateDB.store (fun _ => 0) fun _ _ => 0) createAndDeploy
        (deployedMoves ++
          [.call false, .call false, .call false, .pass false, .close false firstThread])
        (.start nothingStored) = some block ∧
      block.closures false = [.create 5 { base := some [0] } [0]] ∧
      (ContractClosure.create 5 { base := some [0] } [0]).run firstThread
        block.globalContext.contractDb =
          .error (.runtimeError "invalid add_new_contract (already existed)")) ∧
    (∃ first contractDb second, BlockExecution.performAll (fun _ => 0) oneContract
        (StateDB.store (fun _ => 0) fun _ _ => 0) createAndDeploy deployedMoves
        (.start nothingStored) = some first ∧
      first.Quiescent ∧ first.globalContext.contractDb.commit firstThread 1 = .ok contractDb ∧
      BlockExecution.performAll (fun _ => 0) oneContract
        (StateDB.store (fun _ => 0) fun _ _ => 0) deployOnly
        [.call true, .call true, .pass true, .close true firstThread]
        (.start { stateDb := nothingStored.stateDb, contractDb := contractDb }) = some second ∧
      second.Quiescent ∧ second.globalContext.contractDb.commit firstThread 2 =
        .error (.runtimeError "double registration of a contract")) ∧
    ∃ block contractDb, BlockExecution.performAll (fun _ => 0) noMetering
        (StateDB.store (fun _ => 0) fun _ _ => 0) createAndDeploy deployedMoves
        (.start nothingStored) = some block ∧
      block.Quiescent ∧ block.globalContext.contractDb.commit firstThread 1 = .ok contractDb ∧
      block.deploys true 9 = some 5 ∧
      contractDb.getScriptByAddress 9 =
        .error (.runtimeError "invalid script stored within ContractDB!") := by
  have quiet {block : BlockExecution Bool StateDB} (held : block.books.held = [])
      (left : block.closures true = []) (right : block.closures false = []) : block.Quiescent :=
    ⟨held, fun tx => by cases tx <;> assumption⟩
  refine ⟨⟨_, rfl, rfl, rfl⟩, ⟨_, _, _, rfl, quiet rfl rfl rfl, rfl, rfl, quiet rfl rfl rfl, rfl⟩,
    _, _, rfl, quiet rfl rfl rfl, rfl, rfl, rfl⟩

end Scs
