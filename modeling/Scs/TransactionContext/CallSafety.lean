import Scs.Object.OrderFree
import Scs.StorageProxy.LocalTotal
import Scs.TransactionContext.KeyCalls

/-!
# What the calls of a transaction can throw

Over tidy committed values every call of a transaction returns or throws a
`HostError`, but for one: the lookup of a script that has no bytes.
-/

namespace Scs

set_option autoImplicit false

open Ledger Lockstep

/-- Every view of a transaction is one that its operations have made. -/
def ViewsSeen (committed : CommittedValues) (proxy : StorageProxy) : Prop :=
  ∀ key, Seen (committed key) (proxy.localOf committed key)

section Proxy

variable {committed : CommittedValues} {key : AddressAndKey} {proxy : StorageProxy}
  {delta : StorageDelta} {what : String} {fault : Fault}

theorem views_seen_empty : ViewsSeen committed .empty := by
  intro key
  exact .view .untouched

theorem get_local_views (other : AddressAndKey) :
    (proxy.getLocal committed key).2.localOf committed other = proxy.localOf committed other := by
  by_cases same : other = key
  · subst same
    exact StorageProxy.get_local_local
  · rw [StorageProxy.localOf, StorageProxy.localOf, StorageProxy.get_local_other same]

/-- A writer over an answering view throws a `HostError` at most. -/
theorem try_apply_host_error (answers : Answers ((proxy.localOf committed key).tryApply delta)) :
    proxy.tryApply committed key delta what ≠ .error (.other fault) := by
  obtain ⟨answer, next, applied⟩ := answers
  unfold StorageProxy.tryApply
  simp only [StorageProxy.get_local_eq, applied]
  cases answer with
  | false => exact fun impossible => by cases impossible
  | true => exact fun impossible => by cases impossible

end Proxy

section Calls

variable {library : ContractLibrary} {committed : CommittedValues} {contractDb : ContractDB}
  {program : Program} {context after : TransactionContext} {next : ProxyCall}
  {result : CallResult} {fault : Fault}

/-- What a call does to the views. No syscall but `asset_add`, which no contract can
make, writes to an asset. -/
theorem perform_writes
    (returned : context.perform library committed contractDb next = .ok (result, after)) :
    (∀ key, after.storageProxy.localOf committed key =
        context.storageProxy.localOf committed key) ∨
      ∃ key delta,
        (delta.fromSyscall = true ∨ ∃ d, delta = makeAssetAdd d ∧ next = .assetAdd key d) ∧
        context.storageProxy.Wrote committed key delta after.storageProxy := by
  cases next with
  | get key =>
      left
      have kept : ∀ other, (context.storageProxy.getLocal committed key).2.localOf
          committed other = context.storageProxy.localOf committed other := get_local_views
      cases returned
      exact kept
  | rawMemoryWrite key bytes => exact .inr ⟨key, _, .inl rfl, written_wrote returned⟩
  | nonnegativeInt64SetAdd key setValue deltaValue =>
      exact .inr ⟨key, _, .inl rfl, written_wrote returned⟩
  | nonnegativeInt64Add key deltaValue =>
      unfold TransactionContext.perform StorageProxy.nonnegativeInt64Add at returned
      simp only at returned
      split at returned
      · cases returned
      · exact .inr ⟨key, _, .inl rfl, written_touched returned⟩
  | deleteObjectLast key => exact .inr ⟨key, _, .inl rfl, written_wrote returned⟩
  | hashsetInsert key h threshold => exact .inr ⟨key, _, .inl rfl, written_wrote returned⟩
  | hashsetIncreaseLimit key limit =>
      unfold TransactionContext.perform StorageProxy.hashsetIncreaseLimit at returned
      simp only at returned
      split_ifs at returned
      · cases returned
      · exact .inr ⟨key, _, .inl rfl, written_touched returned⟩
  | hashsetClear key threshold => exact .inr ⟨key, _, .inl rfl, written_wrote returned⟩
  | assetAdd key d => exact .inr ⟨key, _, .inr ⟨d, rfl, rfl⟩, written_wrote returned⟩
  | getScript address =>
      unfold TransactionContext.perform at returned
      simp only at returned
      split at returned
      · cases returned
        exact .inl fun key => rfl
      · cases returned
  | createContract contract =>
      cases returned
      exact .inl fun key => rfl
  | deployContract senderAddress contractHash nonce =>
      cases returned
      exact .inl fun key => rfl

theorem from_syscall_implemented {delta : StorageDelta} (syscall : delta.fromSyscall = true) :
    delta.implemented = true := by
  cases delta <;> first | rfl | cases syscall

theorem perform_views
    (returned : context.perform library committed contractDb next = .ok (result, after)) :
    (∀ key, after.storageProxy.localOf committed key =
        context.storageProxy.localOf committed key) ∨
      ∃ key delta, delta.implemented = true ∧
        context.storageProxy.Wrote committed key delta after.storageProxy := by
  rcases perform_writes returned with same | ⟨key, delta, syscall | ⟨d, rfl, _⟩, wrote⟩
  · exact .inl same
  · exact .inr ⟨key, delta, from_syscall_implemented syscall, wrote⟩
  · exact .inr ⟨key, _, rfl, wrote⟩

theorem perform_seen (seen : ViewsSeen committed context.storageProxy)
    (returned : context.perform library committed contractDb next = .ok (result, after)) :
    ViewsSeen committed after.storageProxy := by
  rcases perform_views returned with same | ⟨key, delta, _, wrote⟩
  · intro key
    rw [same key]
    exact seen key
  · intro other
    by_cases here : other = key
    · subst here
      exact try_apply_seen (seen other) (wrote_local wrote)
    · have apart : some key ≠ some other := fun same => here (Option.some_inj.mp same).symm
      rw [wrote_elsewhere wrote apart]
      exact seen other

theorem advance_seen (seen : ViewsSeen committed context.storageProxy) :
    ViewsSeen committed
      (context.advance library committed contractDb program).storageProxy := by
  generalize advanced : context.advance library committed contractDb program = final
  have cases : TransactionContext.AdvanceCases library committed contractDb program context
      (context.advance library committed contractDb program) :=
    TransactionContext.advance_cases program context
  rw [advanced] at cases
  cases cases with
  | stopped status => exact seen
  | returned status halts => exact seen
  | threw status => exact seen
  | performed status called returned =>
      have kept := perform_seen seen returned
      exact kept

/-- The lookup of a script without bytes is all that throws anything but a
`HostError`. -/
theorem perform_throws (tidy : ∀ key, Tidy (committed key))
    (seen : ViewsSeen committed context.storageProxy)
    (threw : context.perform library committed contractDb next = .error (.other fault)) :
    ∃ address, next = .getScript address ∧
      context.contractDbProxy.getScript contractDb address = .error fault := by
  have answers {key : AddressAndKey} {delta : StorageDelta}
      (implemented : delta.implemented = true) :
      Answers ((context.storageProxy.localOf committed key).tryApply delta) :=
    try_apply_answers (tidy key) (seen key) implemented
  have written {storageProxy : Except Thrown StorageProxy}
      (threw : context.written storageProxy = .error (.other fault)) :
      storageProxy = .error (.other fault) := by
    cases storageProxy with
    | ok storageProxy => cases threw
    | error thrown =>
        cases threw
        rfl
  have wrote {key : AddressAndKey} {delta : StorageDelta} {what : String}
      (implemented : delta.implemented = true)
      (threw : context.written (context.storageProxy.tryApply committed key delta what) =
        .error (.other fault)) : False :=
    try_apply_host_error (answers implemented) (written threw)
  have touched {key : AddressAndKey} {delta : StorageDelta} {what : String}
      (implemented : delta.implemented = true)
      (threw : context.written
        ((context.storageProxy.getLocal committed key).2.tryApply committed key delta what) =
          .error (.other fault)) : False := by
    apply try_apply_host_error _ (written threw)
    rw [StorageProxy.get_local_local]
    exact answers implemented
  cases next with
  | get key => cases threw
  | rawMemoryWrite key bytes => exact absurd threw (wrote rfl)
  | nonnegativeInt64SetAdd key setValue deltaValue => exact absurd threw (wrote rfl)
  | nonnegativeInt64Add key deltaValue =>
      unfold TransactionContext.perform StorageProxy.nonnegativeInt64Add at threw
      simp only at threw
      split at threw
      · cases threw
      · exact absurd threw (touched rfl)
  | deleteObjectLast key => exact absurd threw (wrote rfl)
  | hashsetInsert key h threshold => exact absurd threw (wrote rfl)
  | hashsetIncreaseLimit key limit =>
      unfold TransactionContext.perform StorageProxy.hashsetIncreaseLimit at threw
      simp only at threw
      split_ifs at threw
      · cases threw
      · exact absurd threw (touched rfl)
  | hashsetClear key threshold => exact absurd threw (wrote rfl)
  | assetAdd key d => exact absurd threw (wrote rfl)
  | getScript address =>
      refine ⟨address, rfl, ?_⟩
      unfold TransactionContext.perform at threw
      simp only at threw
      cases found : context.contractDbProxy.getScript contractDb address with
      | ok view =>
          rw [found] at threw
          cases threw
      | error other =>
          rw [found] at threw
          cases threw
          rfl
  | createContract contract => cases threw
  | deployContract senderAddress contractHash nonce => cases threw

/-- A script is looked up without an exception unless it is committed without bytes. -/
theorem get_script_returns_iff {proxy : ContractDBProxy} {address : Address} :
    (∃ view, proxy.getScript contractDb address = .ok view) ↔
      (proxy.newDeployments.find address = none →
        contractDb.addressesToContracts address ≠ some { base := none }) := by
  unfold ContractDBProxy.getScript
  cases deployed : proxy.newDeployments.find address with
  | some scriptHash =>
      simp only
      constructor
      · intro _ impossible
        cases impossible
      · intro _
        cases proxy.newContracts.find scriptHash <;> exact ⟨_, rfl⟩
  | none =>
      simp only [ContractDB.getScriptByAddress, MeteredContract.toView]
      cases bound : contractDb.addressesToContracts address with
      | none =>
          constructor
          · exact fun _ _ impossible => by cases impossible
          · exact fun _ => ⟨_, rfl⟩
      | some contract =>
          obtain ⟨base⟩ := contract
          cases base with
          | none =>
              constructor
              · rintro ⟨view, impossible⟩
                cases impossible
              · intro bytes
                exact absurd rfl (bytes trivial)
          | some script =>
              constructor
              · exact fun _ _ impossible => by cases impossible
              · exact fun _ => ⟨_, rfl⟩

end Calls

end Scs
