import Scs.StorageProxy.LocalView
import Scs.TransactionContext.BlockBalance
import Scs.TransactionContext.KeyCalls
import Scs.TransactionContext.SnapshotReads

/-!
# The replay cache of a contract (`cpp_contracts/sdk/replay_cache.h`)

A contract keeps the hashes of the transactions it has served in a hash set, each
with its expiration time, and clears what has expired.
-/

namespace Scs

set_option autoImplicit false

open Ledger Lockstep Runs TwoPhase

/-! ## The functions of the SDK -/

def recordSelfReplay (key : AddressAndKey) (invokedHash : Hash)
    (currentBlockNumber expirationTime : UInt64) (rest : Program) : Program
  | [] => .call (.hashsetInsert key invokedHash expirationTime)
  | [_] =>
      if expirationTime < currentBlockNumber then .traps "abort"
      else .call (.hashsetClear key currentBlockNumber)
  | _ :: _ :: results => rest results

def replayCacheSizeIncrease (key : AddressAndKey) (amount : UInt16) (rest : Program) : Program
  | [] => .call (.hashsetIncreaseLimit key amount.toUInt32)
  | _ :: results => rest results

def Program.after (program : Program) (earlier : List CallResult) : Program :=
  fun results => program (earlier ++ results)

section Programs

variable (key : AddressAndKey) (invokedHash : Hash) (currentBlockNumber : UInt64)

/-- How a program that leaves `key` to the replay cache goes on. -/
inductive ReplayTurn (later : Program → Prop) : Program → Prop
  | ends {program : Program} (halts : ∀ next, program [] ≠ .call next) : ReplayTurn later program
  | elsewhere {program : Program} {next : ProxyCall} (calls : program [] = .call next)
      (apart : next.key? ≠ some key) (resumes : ∀ result, later (program.after [result])) :
      ReplayTurn later program
  | records {rest : Program} (expirationTime : UInt64) (resumes : later rest) :
      ReplayTurn later
        (recordSelfReplay key invokedHash currentBlockNumber expirationTime rest)
  | raises {rest : Program} (amount : UInt16) (resumes : later rest) :
      ReplayTurn later (replayCacheSizeIncrease key amount rest)

/-- The program touches `key` only through the functions of the replay cache. It may call
anything on every other key, before and after. -/
def OnlyReplayCache (program : Program) : Prop :=
  ∃ later : Program → Prop,
    (∀ program, later program → ReplayTurn key invokedHash currentBlockNumber later program) ∧
      later program

def CallsRecordSelfReplay (expirationTime : UInt64) (program : Program)
    (context : TransactionContext) : Prop :=
  ∃ earlier rest, earlier <+: context.results ∧
    program.after earlier =
      recordSelfReplay key invokedHash currentBlockNumber expirationTime rest

end Programs

/-! ## The local view of the replay cache -/

inductive ReplayDelta (currentBlockNumber : UInt64) : StorageDelta → Prop
  | inserts (entry : HashSetEntry) : ReplayDelta currentBlockNumber (.hashSetInsert entry)
  | raises (amount : UInt16) : ReplayDelta currentBlockNumber (makeHashSetIncreaseLimit amount)
  | clears : ReplayDelta currentBlockNumber (.hashSetClear currentBlockNumber)

structure ReplayView (currentBlockNumber : UInt64) (applicator : ProxyApplicator) : Prop where
  memoryWrite : applicator.memoryWrite = none
  nnint64Delta : applicator.nnint64Delta = none
  delta : applicator.delta = none
  isDeleted : applicator.isDeleted = false
  cleared : ∀ threshold, applicator.hsClearThreshold = some threshold →
    threshold = currentBlockNumber
  opened : applicator.newHashes ≠ [] → applicator.current ≠ none

section View

variable {currentBlockNumber : UInt64} {applicator next : ProxyApplicator}

theorem replay_view_start (base : Option StorageObject) :
    ReplayView currentBlockNumber (.onBase base) where
  memoryWrite := rfl
  nnint64Delta := rfl
  delta := rfl
  isDeleted := rfl
  cleared _ impossible := by cases impossible
  opened nonempty := absurd rfl nonempty

theorem try_apply_replay {d : StorageDelta} (view : ReplayView currentBlockNumber applicator)
    (replay : ReplayDelta currentBlockNumber d)
    (accepted : applicator.tryApply d = .ok (true, next)) :
    ReplayView currentBlockNumber next ∧
      next.newHashes = applicator.newHashes ++ d.inserted?.toList := by
  cases try_apply_cases accepted with
  | deleted => cases replay
  | typed present applied =>
      cases replay with
      | inserts entry =>
          obtain ⟨object, made, rest⟩ := bind_ok_iff.mp applied
          obtain ⟨set, read, rest⟩ := bind_ok_iff.mp rest
          simp only at rest
          split_ifs at rest <;> cases rest
          exact ⟨{ view with opened := fun _ => Option.some_ne_none _ }, rfl⟩
      | raises amount =>
          obtain ⟨object, made, rest⟩ := bind_ok_iff.mp applied
          cases rest
          exact ⟨{ view with opened := fun _ => Option.some_ne_none _ },
            (List.append_nil _).symm⟩
      | clears =>
          obtain ⟨object, made, rest⟩ := bind_ok_iff.mp applied
          obtain ⟨set, read, rest⟩ := bind_ok_iff.mp rest
          obtain ⟨cleared, returned, rest⟩ := bind_ok_iff.mp rest
          cases rest
          refine ⟨{ view with cleared := ?_, opened := fun _ => Option.some_ne_none _ },
            (List.append_nil _).symm⟩
          intro threshold same
          cases earlier : applicator.hsClearThreshold with
          | none =>
              rw [earlier] at same
              exact (Option.some_inj.mp same).symm
          | some highest =>
              rw [earlier, view.cleared highest earlier] at same
              have raised : max currentBlockNumber currentBlockNumber = currentBlockNumber :=
                ite_self _
              exact (Option.some_inj.mp same).symm.trans raised

theorem mem_get_deltas_replay (view : ReplayView currentBlockNumber applicator) (d : StorageDelta) :
    d ∈ applicator.getDeltas ↔ applicator.current ≠ none ∧
      ((applicator.doLimitIncrease = true ∧
          d = makeHashSetIncreaseLimit applicator.limitIncrease) ∨
        (∃ entry ∈ applicator.newHashes, makeHashSetInsert entry = d) ∨
        ∃ threshold, applicator.hsClearThreshold = some threshold ∧
          makeHashSetClear threshold = d) := by
  unfold ProxyApplicator.getDeltas
  rw [view.memoryWrite, view.nnint64Delta, view.delta, view.isDeleted]
  cases opened : applicator.current with
  | none => simp
  | some object =>
      cases applicator.doLimitIncrease <;> simp

theorem get_deltas_replay (view : ReplayView currentBlockNumber applicator) :
    ∀ d ∈ applicator.getDeltas, ReplayDelta currentBlockNumber d := by
  intro d member
  rcases ((mem_get_deltas_replay view d).mp member).2 with
    ⟨_, rfl⟩ | ⟨entry, _, rfl⟩ | ⟨threshold, cleared, rfl⟩
  · exact .raises _
  · exact .inserts entry
  · rw [view.cleared threshold cleared]
    exact .clears

theorem new_hashes_pushed (view : ReplayView currentBlockNumber applicator) :
    ∀ entry ∈ applicator.newHashes, StorageDelta.hashSetInsert entry ∈ applicator.getDeltas := by
  intro entry member
  apply (mem_get_deltas_replay view _).mpr
  exact ⟨view.opened (List.ne_nil_of_mem member), .inr (.inl ⟨entry, member, rfl⟩)⟩

end View

/-! ## A transaction that uses the replay cache -/

section Context

variable {library : ContractLibrary} {committed : CommittedValues} {contractDb : ContractDB}
  {key : AddressAndKey} {invokedHash : Hash} {currentBlockNumber : UInt64} {program : Program}
  {context after : TransactionContext} {next : ProxyCall} {result : CallResult}

theorem perform_replay {delta : StorageDelta}
    (view : ReplayView currentBlockNumber (context.storageProxy.localOf committed key))
    (replay : ReplayDelta currentBlockNumber delta)
    (wrote : context.storageProxy.Wrote committed key delta after.storageProxy) :
    ReplayView currentBlockNumber (after.storageProxy.localOf committed key) ∧
      (after.storageProxy.localOf committed key).newHashes =
        (context.storageProxy.localOf committed key).newHashes ++ delta.inserted?.toList :=
  try_apply_replay view replay (wrote_local wrote)

/-- Where a program that leaves `key` to the replay cache stands. -/
inductive ReplayStage (key : AddressAndKey) (invokedHash : Hash) (currentBlockNumber : UInt64)
    (later : Program → Prop) (program : Program) (results : List CallResult) : Prop
  | between (resumes : later (program.after results))
  | recording {earlier : List CallResult} {rest : Program} (expirationTime : UInt64)
      (inserted : ∃ result, results = earlier ++ [result])
      (records : program.after earlier =
        recordSelfReplay key invokedHash currentBlockNumber expirationTime rest)
      (resumes : later rest)

/-- A transaction that leaves `key` to the replay cache, between two calls. -/
structure ReplayContext (committed : CommittedValues) (key : AddressAndKey) (invokedHash : Hash)
    (currentBlockNumber : UInt64) (later : Program → Prop) (program : Program)
    (context : TransactionContext) : Prop where
  view : ReplayView currentBlockNumber (context.storageProxy.localOf committed key)
  stage : ReplayStage key invokedHash currentBlockNumber later program context.results
  called : ∀ earlier result rest, context.results = earlier ++ result :: rest →
    ∃ next, program earlier = .call next
  inserted : ∀ earlier result rest, context.results = earlier ++ result :: rest →
    ∀ h threshold, program earlier = .call (.hashsetInsert key h threshold) →
      { hash := h, index := threshold } ∈
        (context.storageProxy.localOf committed key).newHashes
  halts : context.status = .returned → program context.results = .returns

variable {later : Program → Prop}

theorem replay_context_start (started : later program) :
    ReplayContext committed key invokedHash currentBlockNumber later program .start where
  view := replay_view_start _
  stage := .between started
  called _ _ _ impossible :=
    absurd impossible.symm (List.append_ne_nil_of_right_ne_nil _ (List.cons_ne_nil _ _))
  inserted _ _ _ impossible :=
    absurd impossible.symm (List.append_ne_nil_of_right_ne_nil _ (List.cons_ne_nil _ _))
  halts impossible := by cases impossible

theorem program_after_nil (program : Program) (earlier : List CallResult) :
    program.after earlier [] = program earlier := by
  rw [Program.after, List.append_nil]

theorem program_after_append (program : Program) (earlier more : List CallResult) :
    program.after (earlier ++ more) = (program.after earlier).after more := by
  funext results
  rw [Program.after, Program.after, Program.after, List.append_assoc]

/-- A call on the key, in a program that leaves it to the replay cache. -/
inductive ReplayCall (key : AddressAndKey) (invokedHash : Hash) (currentBlockNumber : UInt64)
    (later : Program → Prop) (program : Program) (results : List CallResult) : ProxyCall → Prop
  | elsewhere {next : ProxyCall} (apart : next.key? ≠ some key)
      (resumes : ∀ result, later (program.after (results ++ [result]))) :
      ReplayCall key invokedHash currentBlockNumber later program results next
  | inserts {rest : Program} (expirationTime : UInt64)
      (records : program.after results =
        recordSelfReplay key invokedHash currentBlockNumber expirationTime rest)
      (resumes : later rest) :
      ReplayCall key invokedHash currentBlockNumber later program results
        (.hashsetInsert key invokedHash expirationTime)
  | clears (resumes : ∀ result, later (program.after (results ++ [result]))) :
      ReplayCall key invokedHash currentBlockNumber later program results
        (.hashsetClear key currentBlockNumber)
  | raises (amount : UInt16) (resumes : ∀ result, later (program.after (results ++ [result]))) :
      ReplayCall key invokedHash currentBlockNumber later program results
        (.hashsetIncreaseLimit key amount.toUInt32)

theorem replay_call {results : List CallResult}
    (turns : ∀ program, later program →
      ReplayTurn key invokedHash currentBlockNumber later program)
    (stage : ReplayStage key invokedHash currentBlockNumber later program results)
    (called : program results = .call next) :
    ReplayCall key invokedHash currentBlockNumber later program results next := by
  cases stage with
  | between resumes =>
      rw [← program_after_nil program results] at called
      generalize left : program.after results = remaining at resumes called
      cases turns _ resumes with
      | ends halts => exact absurd called (halts next)
      | @elsewhere _ other calls apart resumes =>
          obtain rfl : next = other := by
            rw [calls] at called
            cases called
            rfl
          apply ReplayCall.elsewhere apart
          intro result
          rw [program_after_append, left]
          exact resumes result
      | records expirationTime carriesOn =>
          cases called
          exact .inserts expirationTime left carriesOn
      | raises amount carriesOn =>
          cases called
          apply ReplayCall.raises amount
          intro result
          rw [program_after_append, left]
          exact carriesOn
  | @recording earlier rest expirationTime inserted records resumes =>
      obtain ⟨result, rfl⟩ := inserted
      have now : program (earlier ++ [result]) = program.after earlier [result] := rfl
      rw [now, records, recordSelfReplay] at called
      split_ifs at called
      cases called
      apply ReplayCall.clears
      intro later
      rw [List.append_assoc, program_after_append, records]
      exact resumes

theorem snoc_split {results earlier rest : List CallResult} {last result : CallResult}
    (split : results ++ [last] = earlier ++ result :: rest) :
    (results = earlier ∧ last = result ∧ rest = []) ∨
      ∃ before, rest = before ++ [last] ∧ results = earlier ++ result :: before := by
  rcases List.eq_nil_or_concat rest with rfl | ⟨before, final, rfl⟩
  · obtain ⟨same, ends⟩ := List.append_inj' split rfl
    cases ends
    exact .inl ⟨same, rfl, rfl⟩
  · have regrouped : earlier ++ result :: (before ++ [final]) =
        (earlier ++ result :: before) ++ [final] := by
      rw [List.append_assoc, List.cons_append]
    rw [List.concat_eq_append, regrouped] at split
    obtain ⟨same, ends⟩ := List.append_inj' split rfl
    cases ends
    exact .inr ⟨before, List.concat_eq_append, same⟩

theorem replay_call_view {results : List CallResult}
    (view : ReplayView currentBlockNumber (context.storageProxy.localOf committed key))
    (call : ReplayCall key invokedHash currentBlockNumber later program results next)
    (returned : context.perform library committed contractDb next = .ok (result, after)) :
    ReplayView currentBlockNumber (after.storageProxy.localOf committed key) ∧
      (∀ entry ∈ (context.storageProxy.localOf committed key).newHashes,
        entry ∈ (after.storageProxy.localOf committed key).newHashes) ∧
      ∀ h threshold, next = .hashsetInsert key h threshold →
        { hash := h, index := threshold } ∈
          (after.storageProxy.localOf committed key).newHashes := by
  have pushed {delta : StorageDelta} (replay : ReplayDelta currentBlockNumber delta)
      (wrote : context.storageProxy.Wrote committed key delta after.storageProxy) :
      ReplayView currentBlockNumber (after.storageProxy.localOf committed key) ∧
        (∀ entry ∈ (context.storageProxy.localOf committed key).newHashes,
          entry ∈ (after.storageProxy.localOf committed key).newHashes) ∧
        ∀ entry, delta = .hashSetInsert entry →
          entry ∈ (after.storageProxy.localOf committed key).newHashes := by
    obtain ⟨kept, grown⟩ := perform_replay view replay wrote
    rw [grown]
    refine ⟨kept, fun entry member => List.mem_append_left _ member, ?_⟩
    rintro entry rfl
    exact List.mem_append_right _ (List.mem_singleton_self entry)
  cases call with
  | elsewhere apart resumes =>
      rw [perform_elsewhere apart returned]
      refine ⟨view, fun entry member => member, ?_⟩
      rintro h threshold rfl
      exact absurd rfl apart
  | inserts expirationTime records resumes =>
      obtain ⟨kept, grown, own⟩ := pushed (.inserts _) (written_wrote returned)
      refine ⟨kept, grown, ?_⟩
      intro h threshold same
      cases same
      exact own _ rfl
  | clears resumes =>
      obtain ⟨kept, grown, _⟩ := pushed .clears (written_wrote returned)
      refine ⟨kept, grown, ?_⟩
      intro h threshold impossible
      cases impossible
  | raises amount resumes =>
      unfold TransactionContext.perform StorageProxy.hashsetIncreaseLimit at returned
      simp only at returned
      split_ifs at returned
      · cases returned
      · obtain ⟨kept, grown, _⟩ := pushed (.raises _) (written_touched returned)
        refine ⟨kept, grown, ?_⟩
        intro h threshold impossible
        cases impossible

theorem replay_call_stage {results : List CallResult}
    (call : ReplayCall key invokedHash currentBlockNumber later program results next)
    (result : CallResult) :
    ReplayStage key invokedHash currentBlockNumber later program (results ++ [result]) := by
  cases call with
  | elsewhere apart resumes => exact .between (resumes result)
  | inserts expirationTime records resumes =>
      exact .recording expirationTime ⟨result, rfl⟩ records resumes
  | clears resumes => exact .between (resumes result)
  | raises amount resumes => exact .between (resumes result)

theorem advance_replay_context
    (turns : ∀ program, later program →
      ReplayTurn key invokedHash currentBlockNumber later program)
    (kept : ReplayContext committed key invokedHash currentBlockNumber later program context) :
    ReplayContext committed key invokedHash currentBlockNumber later program
      (context.advance library committed contractDb program) := by
  generalize advanced : context.advance library committed contractDb program = final
  have cases : TransactionContext.AdvanceCases library committed contractDb program context
      (context.advance library committed contractDb program) :=
    TransactionContext.advance_cases program context
  rw [advanced] at cases
  cases cases with
  | stopped status => exact kept
  | returned status ended => exact { kept with halts := fun _ => ended }
  | threw status =>
      refine { kept with halts := ?_ }
      intro impossible
      cases impossible
  | @performed next result after status called returned =>
      have call := replay_call turns kept.stage called
      obtain ⟨view, grown, own⟩ := replay_call_view kept.view call returned
      refine ⟨view, replay_call_stage call result, ?_, ?_, ?_⟩
      · intro earlier _ rest split
        rcases snoc_split split with ⟨rfl, _, _⟩ | ⟨before, _, split⟩
        · exact ⟨next, called⟩
        · exact kept.called earlier _ before split
      · intro earlier _ rest split h threshold inserts
        rcases snoc_split split with ⟨rfl, _, _⟩ | ⟨before, _, split⟩
        · rw [called] at inserts
          cases inserts
          exact own h threshold rfl
        · exact grown _ (kept.inserted earlier _ before split h threshold inserts)
      · intro impossible
        have running : after.status = .running :=
          (TransactionContext.perform_status returned).trans status
        have ended : after.status = .returned := impossible
        rw [running] at ended
        cases ended

/-- A transaction that returned after `record_self_replay` had not expired, and
its proxy holds its hash. -/
theorem recorded_inserted {expirationTime : UInt64}
    (kept : ReplayContext committed key invokedHash currentBlockNumber later program context)
    (returned : context.status = .returned)
    (calls : CallsRecordSelfReplay key invokedHash currentBlockNumber expirationTime program
      context) :
    currentBlockNumber ≤ expirationTime ∧
      { hash := invokedHash, index := expirationTime } ∈
        (context.storageProxy.localOf committed key).newHashes := by
  obtain ⟨earlier, rest, ⟨more, split⟩, records⟩ := calls
  have ended := kept.halts returned
  have first : program earlier = .call (.hashsetInsert key invokedHash expirationTime) := by
    rw [← program_after_nil program earlier, records]
    rfl
  cases more with
  | nil =>
      rw [← split, List.append_nil, first] at ended
      cases ended
  | cons result more =>
      refine ⟨?_, kept.inserted earlier result more split.symm _ _ first⟩
      have second : program (earlier ++ [result]) =
          if expirationTime < currentBlockNumber then .traps "abort"
          else .call (.hashsetClear key currentBlockNumber) := congrFun records [result]
      by_contra expired
      rw [if_pos (UInt64.not_le.mp expired)] at second
      cases more with
      | nil =>
          rw [← split, second] at ended
          cases ended
      | cons other more =>
          have regrouped : context.results = (earlier ++ [result]) ++ other :: more := by
            rw [← split, List.append_assoc]
            rfl
          obtain ⟨next, called⟩ := kept.called _ _ _ regrouped
          rw [second] at called
          cases called

end Context

end Scs
