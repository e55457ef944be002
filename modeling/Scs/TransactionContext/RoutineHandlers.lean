import Scs.TransactionContext.GasCharges
import Scs.TransactionContext.KeyCalls

/-!
# Routine calls into the host

`INVOKE`, `RETURN` and the end of an invocation change the frames of an execution.
Every other call is made of a few steps: it consumes gas, reads the runtime on top of
the stack, writes to its memory, logs, or asks a proxy. What these steps do, every
such call does. The gas is consumed once, before the rest.
-/

namespace Scs

set_option autoImplicit false

open Handler

/-- A program of the runtime at a pointer that is made of these steps. The keys of
its calls are among its own: those that it has made of the address on top of the
stack. -/
inductive Routine {Runtime : Type} (host : Host Runtime) (input : Submission)
    (pointer : Address) :
    (AddressAndKey → Prop) → {Value : Type} → HandlerM Runtime Value → Prop
  | pure {own : AddressAndKey → Prop} {Value : Type} (value : Value) :
      Routine host input pointer own (Pure.pure value : HandlerM Runtime Value)
  | bind {own : AddressAndKey → Prop} {Value Next : Type} {handler : HandlerM Runtime Value}
      {next : Value → HandlerM Runtime Next} (first : Routine host input pointer own handler)
      (later : ∀ value, Routine host input pointer own (next value)) :
      Routine host input pointer own (handler >>= next)
  | hostError {own : AddressAndKey → Prop} {Value : Type} (what : String) :
      Routine host input pointer own (Scs.hostError what : HandlerM Runtime Value)
  | consumeGas {own : AddressAndKey → Prop} (cost : UInt64) :
      Routine host input pointer own (Scs.consumeGas input cost)
  | deref {own : AddressAndKey → Prop} : Routine host input pointer own (Scs.deref pointer)
  | current {own : AddressAndKey → Prop} {Next : Type}
      {next : Address → Runtime → HandlerM Runtime Next}
      (later : ∀ running runtime, Routine host input pointer own (next running runtime)) :
      Routine host input pointer own (do
        let running ← getCurrentRuntime
        let runtime ← Scs.deref running
        next running runtime)
  | invocation {own : AddressAndKey → Prop} :
      Routine host input pointer own getCurrentMethodInvocation
  | sender {own : AddressAndKey → Prop} : Routine host input pointer own getMsgSender
  | setRuntime {own : AddressAndKey → Prop} (target : Address) (runtime : Runtime) :
      Routine host input pointer own (modify (·.setRuntime target runtime))
  | log {own : AddressAndKey → Prop} (line : List UInt8) :
      Routine host input pointer own
        (modify fun context => { context with logs := context.logs ++ [line] })
  | ask {own : AddressAndKey → Prop} (call : ProxyCall)
      (owns : ∀ key, call.key? = some key → own key) :
      Routine host input pointer own (Handler.ask call)
  | storageKey {own : AddressAndKey → Prop} {Next : Type} (offset : UInt32)
      {next : AddressAndKey → HandlerM Runtime Next}
      (later : ∀ key,
        Routine host input pointer (fun other => own other ∨ other = key) (next key)) :
      Routine host input pointer own (loadStorageKey host pointer offset >>= next)

inductive Unmetered {Runtime : Type} (host : Host Runtime) (pointer : Address) :
    (AddressAndKey → Prop) → {Value : Type} → HandlerM Runtime Value → Prop
  | pure {own : AddressAndKey → Prop} {Value : Type} (value : Value) :
      Unmetered host pointer own (Pure.pure value : HandlerM Runtime Value)
  | bind {own : AddressAndKey → Prop} {Value Next : Type} {handler : HandlerM Runtime Value}
      {next : Value → HandlerM Runtime Next} (first : Unmetered host pointer own handler)
      (later : ∀ value, Unmetered host pointer own (next value)) :
      Unmetered host pointer own (handler >>= next)
  | hostError {own : AddressAndKey → Prop} {Value : Type} (what : String) :
      Unmetered host pointer own (Scs.hostError what : HandlerM Runtime Value)
  | deref {own : AddressAndKey → Prop} : Unmetered host pointer own (Scs.deref pointer)
  | current {own : AddressAndKey → Prop} {Next : Type}
      {next : Address → Runtime → HandlerM Runtime Next}
      (later : ∀ running runtime, Unmetered host pointer own (next running runtime)) :
      Unmetered host pointer own (do
        let running ← getCurrentRuntime
        let runtime ← Scs.deref running
        next running runtime)
  | invocation {own : AddressAndKey → Prop} :
      Unmetered host pointer own getCurrentMethodInvocation
  | sender {own : AddressAndKey → Prop} : Unmetered host pointer own getMsgSender
  | setRuntime {own : AddressAndKey → Prop} (target : Address) (runtime : Runtime) :
      Unmetered host pointer own (modify (·.setRuntime target runtime))
  | log {own : AddressAndKey → Prop} (line : List UInt8) :
      Unmetered host pointer own
        (modify fun context => { context with logs := context.logs ++ [line] })
  | ask {own : AddressAndKey → Prop} (call : ProxyCall)
      (owns : ∀ key, call.key? = some key → own key) :
      Unmetered host pointer own (Handler.ask call)
  | storageKey {own : AddressAndKey → Prop} {Next : Type} (offset : UInt32)
      {next : AddressAndKey → HandlerM Runtime Next}
      (later : ∀ key, Unmetered host pointer (fun other => own other ∨ other = key) (next key)) :
      Unmetered host pointer own (loadStorageKey host pointer offset >>= next)

/-- A program that consumes gas once, before anything that it does, or none at all.
The cost may depend on the call data of the invocation on top of the stack. -/
inductive Metered {Runtime Value : Type} (host : Host Runtime) (input : Submission)
    (pointer : Address) (own : AddressAndKey → Prop) :
    (List UInt8 → UInt64) → HandlerM Runtime Value → Prop
  | free {handler : HandlerM Runtime Value} (unmetered : Unmetered host pointer own handler) :
      Metered host input pointer own (fun _ => 0) handler
  | charged {cost : UInt64} {next : Unit → HandlerM Runtime Value}
      (later : ∀ paid, Unmetered host pointer own (next paid)) :
      Metered host input pointer own (fun _ => cost) (consumeGas input cost >>= next)
  | fails {cost : List UInt8 → UInt64} (what : String) :
      Metered host input pointer own cost (Scs.hostError what)
  | invocation {cost : List UInt8 → UInt64} {next : MethodInvocation → HandlerM Runtime Value}
      (later : ∀ current, Metered host input pointer own (fun _ => cost current.calldata)
        (next current)) :
      Metered host input pointer own cost (getCurrentMethodInvocation >>= next)

def RuntimeEvent.Ordinary : RuntimeEvent → Prop
  | .syscall callno _ _ _ _ _ _ =>
      Syscall.ofCallno callno ≠ some .invoke ∧ Syscall.ofCallno callno ≠ some .returns
  | .returned => False
  | _ => True

inductive RuntimeEvent.Bears : RuntimeEvent → Prop
  | ordinary {event : RuntimeEvent} (ordinary : event.Ordinary) : Bears event
  | invokes {callno arg0 arg1 arg2 arg3 arg4 arg5 : UInt64}
      (known : Syscall.ofCallno callno = some .invoke) :
      Bears (.syscall callno arg0 arg1 arg2 arg3 arg4 arg5)
  | passes {callno arg0 arg1 arg2 arg3 arg4 arg5 : UInt64}
      (known : Syscall.ofCallno callno = some .returns) :
      Bears (.syscall callno arg0 arg1 arg2 arg3 arg4 arg5)
  | ends : Bears .returned

theorem RuntimeEvent.bears (event : RuntimeEvent) : event.Bears := by
  cases event with
  | syscall callno arg0 arg1 arg2 arg3 arg4 arg5 =>
      by_cases calls : Syscall.ofCallno callno = some .invoke
      · exact .invokes calls
      · by_cases passes : Syscall.ofCallno callno = some .returns
        · exact .passes passes
        · exact .ordinary ⟨calls, passes⟩
  | returned => exact .ends
  | gas gas => exact .ordinary trivial
  | memcmp lhs rhs sz => exact .ordinary trivial
  | memset ptr val len => exact .ordinary trivial
  | memcpy dst src len => exact .ordinary trivial
  | strnlen ptr maxLen => exact .ordinary trivial
  | trapped what => exact .ordinary trivial

/-! ## The calls that are routine -/

section Routine

variable {Runtime Value : Type} {host : Host Runtime} {input : Submission} {pointer : Address}
  {own : AddressAndKey → Prop}

theorem Unmetered.routine {handler : HandlerM Runtime Value}
    (unmetered : Unmetered host pointer own handler) : Routine host input pointer own handler := by
  induction unmetered with
  | pure value => exact .pure value
  | bind first later firstRoutine laterRoutine => exact .bind firstRoutine laterRoutine
  | hostError what => exact .hostError what
  | deref => exact .deref
  | current later laterRoutine => exact .current laterRoutine
  | invocation => exact .invocation
  | sender => exact .sender
  | setRuntime target runtime => exact .setRuntime target runtime
  | log line => exact .log line
  | ask call owns => exact .ask call owns
  | storageKey offset later laterRoutine => exact .storageKey offset laterRoutine

theorem Metered.routine {cost : List UInt8 → UInt64} {handler : HandlerM Runtime Value}
    (metered : Metered host input pointer own cost handler) :
    Routine host input pointer own handler := by
  induction metered with
  | free unmetered => exact unmetered.routine
  | charged later => exact .bind (.consumeGas _) fun paid => (later paid).routine
  | fails what => exact .hostError what
  | invocation later laterRoutine => exact .bind .invocation laterRoutine

theorem unmetered_from_library (result : Except String Value) :
    Unmetered host pointer own (fromLibrary result : HandlerM Runtime Value) := by
  cases result with
  | ok value => exact .pure value
  | error what => exact .hostError what

theorem unmetered_load (offset len : UInt32) :
    Unmetered host pointer own (loadFromMemory host pointer offset len) :=
  .bind .deref fun _ => unmetered_from_library _

theorem unmetered_load_constsize (width : ℕ) (offset : UInt32) :
    Unmetered host pointer own (loadFromMemoryConstsize host width pointer offset) :=
  .bind .deref fun _ => unmetered_from_library _

theorem unmetered_write (buf : List UInt8) (offset len : UInt32) :
    Unmetered host pointer own (writeToMemory host pointer buf offset len) :=
  .bind .deref fun _ => .bind (unmetered_from_library _) fun _ => .setRuntime _ _

theorem unmetered_output (buf : List UInt8) (offset len : UInt32) (ret : Option UInt64) :
    Unmetered host pointer own (do
      writeToMemory host pointer buf offset len
      pure ret) :=
  .bind (unmetered_write _ _ _) fun _ => .pure _

theorem unmetered_witness (witIdx : UInt64) :
    Unmetered host pointer own (getWitness input witIdx : HandlerM Runtime WitnessEntry) := by
  unfold getWitness
  split
  · exact .hostError _
  · exact .pure _

theorem unmetered_hash_set_number (object : Option StorageObject) (typeMismatch : String)
    (number : HashSet → UInt64) :
    Unmetered host pointer own
      (hashSetNumber object typeMismatch number : HandlerM Runtime UInt64) := by
  unfold hashSetNumber
  split
  · exact .pure _
  · split
    · exact .pure _
    · exact .hostError _

theorem unmetered_require_hash_set (object : Option StorageObject) (typeMismatch : String) :
    Unmetered host pointer own
      (requireHashSet object typeMismatch : HandlerM Runtime HashSet) := by
  unfold requireHashSet
  split
  · exact .hostError _
  · split
    · exact .pure _
    · exact .hostError _

theorem unmetered_ask_plain {call : ProxyCall} (plain : call.key? = none) :
    Unmetered host pointer own (ask call : HandlerM Runtime CallResult) := by
  apply Unmetered.ask
  intro key touched
  rw [plain] at touched
  cases touched

theorem unmetered_ask_key {key : AddressAndKey} {call : ProxyCall}
    (touches : call.key? = some key) :
    Unmetered host pointer (fun other => own other ∨ other = key)
      (ask call : HandlerM Runtime CallResult) := by
  apply Unmetered.ask
  intro other touched
  rw [touches] at touched
  exact .inr (Option.some.inj touched).symm

theorem deployable_contract {index : UInt32}
    (checked : index < getNumDeployableContracts input) :
    ∃ contract, input.tx.tx.contractsToDeploy[index.toNat]? = some contract := by
  have inside : index.toNat < input.tx.tx.contractsToDeploy.length := by
    have below : index.toNat < (getNumDeployableContracts input).toNat :=
      UInt32.lt_iff_toNat_lt.mp checked
    unfold getNumDeployableContracts at below
    rw [UInt32.toNat_ofNat'] at below
    exact below.trans_le (Nat.mod_le _ _)
  exact ⟨_, List.getElem?_eq_getElem inside⟩

theorem metered_memory_call {Answer : Type} (cost : UInt64)
    (computed : Runtime → Except String Answer)
    {next : Address → Answer → HandlerM Runtime (Option UInt64)}
    (quiet : ∀ running answer, Unmetered host pointer own (next running answer)) :
    Metered host input pointer own (fun _ => cost) (do
      consumeGas input cost
      let running ← getCurrentRuntime
      let answer ← fromLibrary (computed (← deref running))
      next running answer) := by
  apply Metered.charged
  intro _
  apply Unmetered.current
  intro running runtime
  exact .bind (unmetered_from_library _) fun answer => quiet running answer

theorem metered_keyed {cost : UInt64} {offset : UInt32}
    {next : AddressAndKey → HandlerM Runtime (Option UInt64)}
    (later : ∀ key, Unmetered host pointer (fun other => own other ∨ other = key) (next key)) :
    Metered host input pointer own (fun _ => cost) (do
      consumeGas input cost
      let storageKey ← loadStorageKey host pointer offset
      next storageKey) :=
  .charged fun _ => .storageKey _ later

theorem metered_asked {call : AddressAndKey → ProxyCall} {cost : UInt64} {offset : UInt32}
    {next : CallResult → HandlerM Runtime (Option UInt64)}
    (touches : ∀ key, (call key).key? = some key)
    (later : ∀ key result,
      Unmetered host pointer (fun other => own other ∨ other = key) (next result)) :
    Metered host input pointer own (fun _ => cost) (do
      consumeGas input cost
      let storageKey ← loadStorageKey host pointer offset
      let result ← ask (call storageKey)
      next result) :=
  metered_keyed fun key => .bind (unmetered_ask_key (touches key)) (later key)

theorem metered_calldata (arg0 arg1 arg2 arg3 arg4 arg5 : UInt64) :
    Metered host input pointer own
      (fun calldata => Syscall.charge input calldata arg0 arg1 arg2 arg3 arg5 .getCalldata)
      (syscallHandler host input pointer .getCalldata arg0 arg1 arg2 arg3 arg4 arg5) := by
  apply Metered.invocation
  intro current
  have written (running : Address) (runtime : Runtime) :
      Unmetered host pointer own (do
        modify (·.setRuntime running runtime)
        pure (some 0) : HandlerM Runtime (Option UInt64)) :=
    .bind (.setRuntime _ _) fun _ => .pure _
  unfold Syscall.charge
  dsimp only
  split
  · exact .fails _
  · exact metered_memory_call _ _ written

theorem metered_contract_create (arg0 arg1 arg2 arg3 arg4 arg5 : UInt64) :
    Metered host input pointer own
      (fun calldata => Syscall.charge input calldata arg0 arg1 arg2 arg3 arg5 .contractCreate)
      (syscallHandler host input pointer .contractCreate arg0 arg1 arg2 arg3 arg4 arg5) := by
  unfold syscallHandler
  dsimp only
  split
  · exact .fails _
  · rename_i checked
    have found := deployable_contract (UInt32.not_le.mp checked)
    cases found with
    | intro contract found =>
        have created : Metered host input pointer own
            (fun _ => gasCreateContract (UInt64.ofNat contract.length)) (do
              consumeGas input (gasCreateContract (UInt64.ofNat contract.length))
              let result ← ask (.createContract contract)
              writeToMemory host pointer (arrayBytes result.hash) arg1.toUInt32 32
              pure (some 0) : HandlerM Runtime (Option UInt64)) := by
          apply Metered.charged
          intro _
          apply Unmetered.bind (unmetered_ask_plain rfl)
          intro result
          exact unmetered_output _ _ _ _
        unfold Syscall.charge getDeployableContract
        dsimp only
        rw [found]
        exact created

/-- Every syscall but `INVOKE` and `RETURN` pays first, and the rest is routine. -/
theorem syscall_metered {syscall : Syscall} (calls : syscall ≠ .invoke)
    (passes : syscall ≠ .returns) (arg0 arg1 arg2 arg3 arg4 arg5 : UInt64) :
    Metered host input pointer own
      (fun calldata => syscall.charge input calldata arg0 arg1 arg2 arg3 arg5)
      (syscallHandler host input pointer syscall arg0 arg1 arg2 arg3 arg4 arg5) := by
  cases syscall with
  | exit => exact .fails _
  | write => exact Metered.free (.bind (unmetered_load _ _) fun _ => .pure _)
  | writeBytes => exact Metered.free (.bind (unmetered_load _ _) fun _ => .pure _)
  | log =>
      apply Metered.charged
      intro _
      apply Unmetered.bind (unmetered_load _ _)
      intro log
      apply Unmetered.bind
      · exact .log _
      · exact fun _ => .pure _
  | invoke => exact absurd rfl calls
  | getSender =>
      apply Metered.charged
      intro _
      apply Unmetered.bind .sender
      intro sender
      exact unmetered_output _ _ _ _
  | getSelfAddr =>
      apply Metered.charged
      intro _
      apply Unmetered.bind .invocation
      intro invocation
      exact unmetered_output _ _ _ _
  | getSrcTxHash =>
      apply Metered.charged
      intro _
      exact unmetered_output _ _ _ _
  | getInvokedTxHash =>
      apply Metered.charged
      intro _
      exact unmetered_output _ _ _ _
  | getBlockNumber => exact Metered.charged fun _ => .pure _
  | hasKey => exact metered_asked (fun _ => rfl) fun _ _ => .pure _
  | rawMemSet =>
      apply metered_keyed
      intro storageKey
      split
      · apply Unmetered.bind (unmetered_load _ _)
        intro data
        exact Unmetered.bind (unmetered_ask_key rfl) fun _ => .pure _
      · exact .hostError _
  | rawMemGet =>
      apply metered_asked (fun _ => rfl)
      intro _ result
      split
      · exact .pure _
      · exact unmetered_output _ _ _ _
      · exact .hostError _
  | rawMemGetLen =>
      apply metered_asked (fun _ => rfl)
      intro _ result
      split
      · exact .pure _
      · exact .pure _
      · exact .hostError _
  | deleteKeyLast => exact metered_asked (fun _ => rfl) fun _ _ => .pure _
  | nnintSetAdd => exact metered_asked (fun _ => rfl) fun _ _ => .pure _
  | nnintAdd => exact metered_asked (fun _ => rfl) fun _ _ => .pure _
  | nnintGet =>
      apply metered_asked (fun _ => rfl)
      intro _ result
      split
      · exact .pure _
      · exact .pure _
      · exact .hostError _
  | hsInsert =>
      apply metered_keyed
      intro storageKey
      apply Unmetered.bind (unmetered_load_constsize _ _)
      intro h
      exact Unmetered.bind (unmetered_ask_key rfl) fun _ => .pure _
  | hsIncLimit => exact metered_asked (fun _ => rfl) fun _ _ => .pure _
  | hsClear => exact metered_asked (fun _ => rfl) fun _ _ => .pure _
  | hsGetSize =>
      apply metered_asked (fun _ => rfl)
      intro _ result
      exact Unmetered.bind (unmetered_hash_set_number _ _ _) fun _ => .pure _
  | hsGetMaxSize =>
      apply metered_asked (fun _ => rfl)
      intro _ result
      exact Unmetered.bind (unmetered_hash_set_number _ _ _) fun _ => .pure _
  | hsGetIndexOf =>
      apply metered_asked (fun _ => rfl)
      intro _ result
      apply Unmetered.bind (unmetered_require_hash_set _ _)
      intro set
      split
      · exact .pure _
      · exact .hostError _
  | hsGetIndex =>
      apply metered_asked (fun _ => rfl)
      intro _ result
      apply Unmetered.bind (unmetered_require_hash_set _ _)
      intro set
      split
      · exact .hostError _
      · exact unmetered_output _ _ _ _
  | contractCreate => exact metered_contract_create arg0 arg1 arg2 arg3 arg4 arg5
  | contractDeploy =>
      apply Metered.charged
      intro _
      apply Unmetered.bind (unmetered_load_constsize _ _)
      intro contractHash
      apply Unmetered.bind .invocation
      intro invocation
      apply Unmetered.bind (unmetered_ask_plain rfl)
      intro result
      split
      · exact .hostError _
      · exact unmetered_output _ _ _ _
  | witnessGet =>
      apply Metered.charged
      intro _
      apply Unmetered.bind (unmetered_witness _)
      intro witness
      exact unmetered_output _ _ _ _
  | witnessGetLen =>
      apply Metered.charged
      intro _
      exact Unmetered.bind (unmetered_witness _) fun _ => .pure _
  | returns => exact absurd rfl passes
  | getCalldata => exact metered_calldata arg0 arg1 arg2 arg3 arg4 arg5
  | getCalldataLen =>
      apply Metered.charged
      intro _
      exact Unmetered.bind .invocation fun _ => .pure _
  | gas => exact Metered.charged fun _ => .pure _
  | hash =>
      apply Metered.charged
      intro _
      apply Unmetered.bind (unmetered_load _ _)
      intro hashBuf
      exact unmetered_output _ _ _ _
  | verifyEd25519 =>
      apply Metered.charged
      intro _
      apply Unmetered.bind (unmetered_load_constsize _ _)
      intro pk
      apply Unmetered.bind (unmetered_load_constsize _ _)
      intro sig
      exact Unmetered.bind (unmetered_load _ _) fun _ => .pure _

theorem event_metered {event : RuntimeEvent} (ordinary : event.Ordinary) :
    Metered host input pointer own (event.charge input) (handleEvent host input pointer event) := by
  cases event with
  | syscall callno arg0 arg1 arg2 arg3 arg4 arg5 =>
      obtain ⟨calls, passes⟩ := ordinary
      unfold handleEvent RuntimeEvent.charge
      dsimp only
      cases known : Syscall.ofCallno callno with
      | none => exact .fails _
      | some syscall =>
          rw [known] at calls passes
          exact syscall_metered (fun same => calls (congrArg some same))
            (fun same => passes (congrArg some same)) arg0 arg1 arg2 arg3 arg4 arg5
  | gas gas => exact Metered.charged fun _ => .pure _
  | memcmp lhs rhs sz => exact metered_memory_call _ _ fun _ _ => .pure _
  | memset ptr val len =>
      apply metered_memory_call
      rintro running ⟨ret, runtime⟩
      exact .bind (.setRuntime _ _) fun _ => .pure _
  | memcpy dst src len =>
      apply metered_memory_call
      rintro running ⟨ret, runtime⟩
      exact .bind (.setRuntime _ _) fun _ => .pure _
  | strnlen ptr maxLen => exact metered_memory_call _ _ fun _ _ => .pure _
  | returned => exact ordinary.elim
  | trapped what => exact .fails _

theorem event_routine {event : RuntimeEvent} (ordinary : event.Ordinary) :
    Routine host input pointer own (handleEvent host input pointer event) :=
  (event_metered ordinary).routine

end Routine

end Scs
