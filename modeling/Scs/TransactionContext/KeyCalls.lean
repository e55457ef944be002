import Scs.TransactionContext.TransactionContext

/-!
# The calls of a transaction, key by key

A call works on the view of one key at most. It leaves the view of every other
key as it was. The calls that a program has made are a function of its results.
-/

namespace Scs

set_option autoImplicit false

def ProxyCall.key? : ProxyCall → Option AddressAndKey
  | .get key => some key
  | .rawMemoryWrite key _ => some key
  | .nonnegativeInt64SetAdd key _ _ => some key
  | .nonnegativeInt64Add key _ => some key
  | .deleteObjectLast key => some key
  | .hashsetInsert key _ _ => some key
  | .hashsetIncreaseLimit key _ => some key
  | .hashsetClear key _ => some key
  | .assetAdd key _ => some key
  | _ => none

def ProgramStep.call? : ProgramStep → Option ProxyCall
  | .call next => some next
  | _ => none

namespace Program

def made (program : Program) (results : List CallResult) : List ProxyCall :=
  (List.range results.length).filterMap fun count => (program (results.take count)).call?

/-- Every call that a program makes on a key, up to the pending one, is permitted. -/
def CallsOn (key : AddressAndKey) (permits : ProxyCall → Prop) (program : Program)
    (results : List CallResult) : Prop :=
  ∀ earlier, earlier <+: results → ∀ next, program earlier = .call next →
    next.key? = some key → permits next

@[simp] theorem made_nil (program : Program) : program.made [] = [] := rfl

theorem made_snoc (program : Program) (results : List CallResult) (result : CallResult) :
    program.made (results ++ [result]) =
      program.made results ++ (program results).call?.toList := by
  have earlier : ∀ count ∈ List.range results.length,
      (program ((results ++ [result]).take count)).call? =
        (program (results.take count)).call? := by
    intro count member
    rw [List.take_append_of_le_length (List.mem_range.mp member).le]
  have last : (results ++ [result]).take results.length = results := List.take_left
  unfold made
  rw [List.length_append, List.length_singleton, List.range_succ, List.filterMap_append,
    List.filterMap_congr earlier, List.filterMap_cons, last]
  cases (program results).call? <;> rfl

theorem calls_on_prefix {key : AddressAndKey} {permits : ProxyCall → Prop} {program : Program}
    {results more : List CallResult} (calls : program.CallsOn key permits more)
    (earlier : results <+: more) : program.CallsOn key permits results :=
  fun first before => calls first (before.trans earlier)

theorem made_permitted {key : AddressAndKey} {permits : ProxyCall → Prop} {program : Program}
    {results : List CallResult} (calls : program.CallsOn key permits results) {call : ProxyCall}
    (member : call ∈ program.made results) (own : call.key? = some key) : permits call := by
  obtain ⟨count, _, made⟩ := List.mem_filterMap.mp member
  apply calls _ (List.take_prefix count results) call _ own
  cases step : program (results.take count) <;> rw [step] at made <;> cases made
  rfl

end Program

section Calls

variable {library : ContractLibrary} {committed : CommittedValues} {contractDb : ContractDB}
  {key : AddressAndKey} {context after : TransactionContext} {next : ProxyCall}
  {result : CallResult}

theorem written_wrote {delta : StorageDelta} {what : String}
    (returned : context.written (context.storageProxy.tryApply committed key delta what) =
      .ok (result, after)) :
    context.storageProxy.Wrote committed key delta after.storageProxy := by
  cases wrote : context.storageProxy.tryApply committed key delta what with
  | error thrown =>
      rw [wrote] at returned
      cases returned
  | ok storageProxy =>
      rw [wrote] at returned
      cases returned
      exact StorageProxy.try_apply_wrote wrote

theorem written_touched {delta : StorageDelta} {what : String}
    (returned : context.written
      ((context.storageProxy.getLocal committed key).2.tryApply committed key delta what) =
        .ok (result, after)) :
    context.storageProxy.Wrote committed key delta after.storageProxy := by
  cases wrote :
      (context.storageProxy.getLocal committed key).2.tryApply committed key delta what with
  | error thrown =>
      rw [wrote] at returned
      cases returned
  | ok storageProxy =>
      rw [wrote] at returned
      cases returned
      exact StorageProxy.try_apply_touched wrote

theorem wrote_local {delta : StorageDelta} {proxy wrote : StorageProxy}
    (written : proxy.Wrote committed key delta wrote) :
    (proxy.localOf committed key).tryApply delta = .ok (true, wrote.localOf committed key) := by
  obtain ⟨applicator, applied, cached⟩ := written.applied
  rw [applied, StorageProxy.localOf, cached]
  rfl

theorem wrote_elsewhere {delta : StorageDelta} {proxy wrote : StorageProxy} {other : AddressAndKey}
    (written : proxy.Wrote committed other delta wrote) (apart : some other ≠ some key) :
    wrote.localOf committed key = proxy.localOf committed key := by
  have different : key ≠ other := fun same => apart (congrArg some same.symm)
  rw [StorageProxy.localOf, StorageProxy.localOf, written.others key different]

/-- A call leaves the view of every other key as it was. -/
theorem perform_elsewhere (apart : next.key? ≠ some key)
    (returned : context.perform library committed contractDb next = .ok (result, after)) :
    after.storageProxy.localOf committed key = context.storageProxy.localOf committed key := by
  cases next with
  | get other =>
      have different : key ≠ other := fun same => apart (congrArg some same.symm)
      have kept : (context.storageProxy.getLocal committed other).2.localOf committed key =
          context.storageProxy.localOf committed key := by
        rw [StorageProxy.localOf, StorageProxy.localOf, StorageProxy.get_local_other different]
      cases returned
      exact kept
  | rawMemoryWrite other bytes => exact wrote_elsewhere (written_wrote returned) apart
  | nonnegativeInt64SetAdd other setValue deltaValue =>
      exact wrote_elsewhere (written_wrote returned) apart
  | nonnegativeInt64Add other deltaValue =>
      unfold TransactionContext.perform StorageProxy.nonnegativeInt64Add at returned
      simp only at returned
      split at returned
      · cases returned
      · exact wrote_elsewhere (written_touched returned) apart
  | deleteObjectLast other => exact wrote_elsewhere (written_wrote returned) apart
  | hashsetInsert other h threshold => exact wrote_elsewhere (written_wrote returned) apart
  | hashsetIncreaseLimit other limit =>
      unfold TransactionContext.perform StorageProxy.hashsetIncreaseLimit at returned
      simp only at returned
      split_ifs at returned
      · cases returned
      · exact wrote_elsewhere (written_touched returned) apart
  | hashsetClear other threshold => exact wrote_elsewhere (written_wrote returned) apart
  | assetAdd other d => exact wrote_elsewhere (written_wrote returned) apart
  | getScript address =>
      unfold TransactionContext.perform at returned
      simp only at returned
      split at returned
      · cases returned
        rfl
      · cases returned
  | createContract contract =>
      cases returned
      rfl
  | deployContract senderAddress contractHash nonce =>
      cases returned
      rfl

end Calls

end Scs
