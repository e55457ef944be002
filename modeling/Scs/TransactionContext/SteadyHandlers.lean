import Scs.TransactionContext.RoutineHandlers

/-!
# What a routine call into the host leaves alone

A routine call changes memory, gas and logs only. So an invariant of these is kept
between the calls that change the frames of an execution.
-/

namespace Scs

set_option autoImplicit false

open Handler

variable {Runtime Value : Type}

structure Steady (kept : ExecutionContext Runtime → Prop) : Prop where
  memory : ∀ {context pointer runtime}, kept context → kept (context.setRuntime pointer runtime)
  gas : ∀ {context gasUsed}, kept context → kept { context with gasUsed }
  logs : ∀ {context logs}, kept context → kept { context with logs }

/-- The calls that are good in every context of the invariant: those without a
key, and those to the storage of the contract on top of the stack. -/
structure Grants (kept : ExecutionContext Runtime → Prop) (fine : ProxyCall → Prop) : Prop where
  plain : ∀ {call : ProxyCall}, call.key? = none → fine call
  own : ∀ {context invocation callers}, kept context →
    context.invocationStack = invocation :: callers →
      ∀ {key : InvariantKey} {call : ProxyCall},
        call.key? = some (invocation.addr ++ key) → fine call

theorem grants_any {kept : ExecutionContext Runtime → Prop} : Grants kept fun _ => True where
  plain _ := trivial
  own _ _ := fun _ => trivial

/-! ## Its parts -/

section Operations

variable {kept : ExecutionContext Runtime → Prop} {fine : ProxyCall → Prop} {pointer : Address}

theorem leaves_pure (value : Value) :
    CallKeeps kept fine (pure value : HandlerM Runtime Value) :=
  call_triple_pure fun _ holds => holds

theorem leaves_host_error (what : String) :
    CallKeeps kept fine (hostError what : HandlerM Runtime Value) :=
  call_triple_raise

theorem leaves_from_library (result : Except String Value) :
    CallKeeps kept fine (fromLibrary result : HandlerM Runtime Value) := by
  cases result with
  | ok value => exact leaves_pure value
  | error what => exact leaves_host_error what

theorem leaves_current_runtime :
    CallKeeps kept fine (getCurrentRuntime : HandlerM Runtime Address) := by
  apply call_triple_get
  intro context
  split
  · exact call_triple_raise
  · exact leaves_pure _

theorem leaves_deref : CallKeeps kept fine (deref pointer : HandlerM Runtime Runtime) := by
  apply call_triple_get
  intro context
  split
  · exact call_triple_raise
  · exact leaves_pure _

theorem leaves_current_invocation :
    CallKeeps kept fine (getCurrentMethodInvocation : HandlerM Runtime MethodInvocation) := by
  apply call_triple_get
  intro context
  split
  · exact call_triple_raise
  · exact leaves_pure _

theorem leaves_msg_sender :
    CallKeeps kept fine (getMsgSender : HandlerM Runtime Address) := by
  apply call_triple_get
  intro context
  split
  · exact leaves_pure _
  · exact leaves_host_error _

theorem leaves_consume_gas
    (gas : ∀ {context gasUsed}, kept context → kept { context with gasUsed })
    (input : Submission) (consumedGas : UInt64) :
    CallKeeps kept fine (consumeGas input consumedGas : HandlerM Runtime Unit) := by
  apply call_triple_get
  intro value
  have consumed : CallKeeps kept fine (do
      modify fun context : ExecutionContext Runtime =>
        { context with gasUsed := value.gasUsed + consumedGas }
      if input.tx.tx.gasLimit ≤ value.gasUsed + consumedGas then
        hostError "gas limit reached") := by
    apply call_triple_bind
    · exact call_triple_modify fun _ => gas
    · intro _
      split
      · exact leaves_host_error _
      · exact leaves_pure _
  dsimp only
  split
  · exact call_triple_bind (leaves_host_error _) fun _ => consumed
  · exact consumed

variable (host : Host Runtime)

theorem leaves_load (offset len : UInt32) :
    CallKeeps kept fine (loadFromMemory host pointer offset len) :=
  call_triple_bind leaves_deref fun _ => leaves_from_library _

theorem leaves_load_constsize (width : ℕ) (offset : UInt32) :
    CallKeeps kept fine (loadFromMemoryConstsize host width pointer offset) :=
  call_triple_bind leaves_deref fun _ => leaves_from_library _

section Memory

variable (memory : ∀ {context : ExecutionContext Runtime} {target runtime}, kept context →
  kept (context.setRuntime target runtime))

include memory

omit host in
theorem leaves_set_runtime (runtime : Runtime) :
    CallKeeps kept fine (modify (·.setRuntime pointer runtime) : HandlerM Runtime Unit) :=
  call_triple_modify fun _ => memory

theorem leaves_write (buf : List UInt8) (offset len : UInt32) :
    CallKeeps kept fine (writeToMemory host pointer buf offset len) :=
  call_triple_bind leaves_deref fun _ =>
    call_triple_bind (leaves_from_library _) fun _ => leaves_set_runtime memory _

theorem leaves_resume (ret : UInt64) : CallKeeps kept fine (resume host pointer ret) :=
  call_triple_bind leaves_deref fun _ => leaves_set_runtime memory _

theorem leaves_finished (ret : Option UInt64) :
    CallKeeps kept fine (match ret with
      | some ret => resume host pointer ret
      | none => pure ()) := by
  cases ret with
  | none => exact leaves_pure _
  | some ret => exact leaves_resume host memory ret

/-- A subroutine changes what its push changes. No storage key is touched before. -/
theorem leaves_invoke_subroutine {pushed : ExecutionContext Runtime → Prop}
    (after : ∀ {context : ExecutionContext Runtime} {target runtime}, pushed context →
      pushed (context.setRuntime target runtime))
    {invocation : MethodInvocation} (scripts : ∀ call : ProxyCall, call.key? = none → fine call)
    (push : ∀ context, kept context →
      pushed (context.pushInvocationStack invocation.addr invocation)) :
    CallTriple kept fine (invokeSubroutine host invocation) fun _ => pushed := by
  have entered : CallTriple kept fine (do
      let runtime ← deref invocation.addr
      modify (·.pushInvocationStack invocation.addr invocation)
      let running ← fromLibrary (host.wasm.invoke invocation.getInvocableMethodname runtime)
      modify (·.setRuntime invocation.addr running)) fun _ => pushed := by
    apply call_triple_bind leaves_deref
    intro runtime
    apply call_triple_bind (call_triple_modify push)
    intro _
    exact call_triple_bind (leaves_from_library _) fun _ => leaves_set_runtime after _
  have created : CallKeeps kept fine (createRuntime host invocation.addr) := by
    apply call_triple_bind (call_triple_ask (scripts _ rfl))
    intro script
    apply call_triple_bind (leaves_from_library _)
    intro runtime
    split
    · exact leaves_host_error _
    · exact leaves_set_runtime memory _
  apply call_triple_get
  intro value
  dsimp only
  split
  · exact call_triple_bind created fun _ => entered
  · exact entered

/-- `INVOKE` pays, pushes its subroutine and leaves a frame to wait for it. -/
theorem leaves_handle_invoke {before waiting : ExecutionContext Runtime → Prop}
    (input : Submission) {arg0 arg1 arg2 arg3 arg4 arg5 : UInt64}
    (pushed : MethodInvocation → ExecutionContext Runtime → Prop)
    (pays : CallTriple before fine (consumeGas input
      (gasInvoke (arg3.toUInt32 + arg5.toUInt32).toUInt64)) fun _ => kept)
    (after : ∀ {callee : MethodInvocation} {context : ExecutionContext Runtime} {target runtime},
      pushed callee context → pushed callee (context.setRuntime target runtime))
    (scripts : ∀ call : ProxyCall, call.key? = none → fine call)
    (push : ∀ (callee : MethodInvocation) (context : ExecutionContext Runtime), kept context →
      pushed callee (context.pushInvocationStack callee.addr callee))
    (wait : ∀ (callee : MethodInvocation) (context : ExecutionContext Runtime),
      pushed callee context →
        waiting { context with
          invokeFrames :=
            { runtime := pointer, returnAddr := arg4.toUInt32, returnLen := arg5.toUInt32 } ::
              context.invokeFrames }) :
    CallTriple before fine (handleInvoke host input pointer arg0 arg1 arg2 arg3 arg4 arg5)
      fun _ => waiting := by
  apply call_triple_bind pays
  intro _
  apply call_triple_bind (leaves_load_constsize host _ _)
  intro addr
  apply call_triple_bind (leaves_load host _ _)
  intro calldata
  apply call_triple_bind (leaves_invoke_subroutine host memory after scripts (push _))
  intro _
  exact call_triple_modify (wait _)

/-- The end of an invocation changes what its pop changes, but for the buffer and the
frame of the `INVOKE` that has waited. -/
theorem leaves_returned {before : ExecutionContext Runtime → Prop} (input : Submission)
    (pop : ∀ context, before context → kept context.popInvocationStack)
    (frames : ∀ {context : ExecutionContext Runtime} {invokeFrames}, kept context →
      kept { context with invokeFrames })
    (buffer : ∀ {context : ExecutionContext Runtime} {returnBuf}, kept context →
      kept { context with returnBuf }) :
    CallTriple before fine (handleEvent host input pointer .returned) fun _ => kept := by
  have finished (frame : InvokeFrame) : CallKeeps kept fine (finishInvoke host frame) := by
    have emptied (returnLen : UInt32) : CallKeeps kept fine (do
        modify fun context => { context with returnBuf := [] }
        pure returnLen.toUInt64 : HandlerM Runtime UInt64) :=
      call_triple_bind (call_triple_modify fun _ => buffer) fun _ => leaves_pure _
    apply call_triple_get
    intro value
    dsimp only
    split
    · exact call_triple_bind (leaves_write host memory _ _ _) fun _ => emptied _
    · exact emptied _
  apply call_triple_bind (call_triple_modify pop)
  intro _
  apply call_triple_get
  intro context
  split
  · exact leaves_pure _
  · rename_i frame rest _
    apply call_triple_bind (call_triple_modify fun _ => frames)
    intro _
    apply call_triple_bind (finished frame)
    intro returnLen
    exact call_triple_bind (leaves_resume host memory _) fun _ => leaves_pure _

end Memory

namespace Steady

variable (steady : Steady kept)

include steady

omit host in
theorem consume_gas (input : Submission) (consumedGas : UInt64) :
    CallKeeps kept fine (consumeGas input consumedGas : HandlerM Runtime Unit) :=
  leaves_consume_gas steady.gas input consumedGas

theorem finished (ret : Option UInt64) :
    CallKeeps kept fine (match ret with
      | some ret => resume host pointer ret
      | none => pure ()) :=
  leaves_finished host steady.memory ret

theorem invoke_subroutine {pushed : ExecutionContext Runtime → Prop} (after : Steady pushed)
    {invocation : MethodInvocation} (scripts : ∀ call : ProxyCall, call.key? = none → fine call)
    (push : ∀ context, kept context →
      pushed (context.pushInvocationStack invocation.addr invocation)) :
    CallTriple kept fine (invokeSubroutine host invocation) fun _ => pushed :=
  leaves_invoke_subroutine host steady.memory after.memory scripts push

end Steady

end Operations

/-! ## Routine calls -/

section Routine

variable {kept : ExecutionContext Runtime → Prop} {fine : ProxyCall → Prop}
  {host : Host Runtime} {input : Submission} {pointer : Address}

theorem storage_key_granted (grants : Grants kept fine) (offset : UInt32) :
    CallTriple kept fine (loadStorageKey host pointer offset)
      fun storageKey context => kept context ∧
        ∀ {call : ProxyCall}, call.key? = some storageKey → fine call := by
  have top : CallTriple kept fine
      (getCurrentMethodInvocation : HandlerM Runtime MethodInvocation)
      fun invocation context => kept context ∧
        ∀ {key : InvariantKey} {call : ProxyCall},
          call.key? = some (invocation.addr ++ key) → fine call := by
    apply call_triple_read
    intro context holds
    cases stack : context.invocationStack with
    | nil => trivial
    | cons invocation callers => exact ⟨holds, grants.own holds stack⟩
  apply call_triple_bind (leaves_load_constsize host _ _)
  intro key
  apply call_triple_bind top
  intro invocation
  exact call_triple_pure fun _ before => ⟨before.1, before.2⟩

/-- What is kept of memory and logs is kept by every program that consumes no gas. -/
theorem Unmetered.leaves
    (memory : ∀ {context : ExecutionContext Runtime} {target runtime}, kept context →
      kept (context.setRuntime target runtime))
    (logs : ∀ {context : ExecutionContext Runtime} {logs}, kept context →
      kept { context with logs })
    (grants : Grants kept fine) {own : AddressAndKey → Prop} {handler : HandlerM Runtime Value}
    (unmetered : Unmetered host pointer own handler)
    (owned : ∀ key, own key → ∀ call : ProxyCall, call.key? = some key → fine call) :
    CallKeeps kept fine handler := by
  induction unmetered with
  | pure value => exact leaves_pure value
  | bind first later firstKeeps laterKeeps =>
      exact call_triple_bind (firstKeeps owned) fun value => laterKeeps value owned
  | hostError what => exact leaves_host_error what
  | deref => exact leaves_deref
  | current later laterKeeps =>
      apply call_triple_bind leaves_current_runtime
      intro running
      exact call_triple_bind leaves_deref fun runtime => laterKeeps running runtime owned
  | invocation => exact leaves_current_invocation
  | sender => exact leaves_msg_sender
  | setRuntime target runtime => exact leaves_set_runtime memory runtime
  | log line => exact call_triple_modify fun _ => logs
  | ask call owns =>
      apply call_triple_ask
      cases touched : call.key? with
      | none => exact grants.plain touched
      | some key => exact owned key (owns key touched) call touched
  | storageKey offset later laterKeeps =>
      apply call_triple_bind (storage_key_granted grants offset)
      intro storageKey
      constructor
      intro context ⟨holds, granted⟩
      apply (laterKeeps storageKey _).every context holds
      intro key either call touched
      cases either with
      | inl before => exact owned key before call touched
      | inr same => exact granted (same ▸ touched)

theorem Metered.leaves (steady : Steady kept) (grants : Grants kept fine)
    {own : AddressAndKey → Prop} {price : List UInt8 → UInt64} {handler : HandlerM Runtime Value}
    (metered : Metered host input pointer own price handler)
    (owned : ∀ key, own key → ∀ call : ProxyCall, call.key? = some key → fine call) :
    CallKeeps kept fine handler := by
  induction metered with
  | free unmetered => exact unmetered.leaves steady.memory steady.logs grants owned
  | charged later =>
      apply call_triple_bind (steady.consume_gas input _)
      intro paid
      exact (later paid).leaves steady.memory steady.logs grants owned
  | fails what => exact leaves_host_error what
  | invocation later laterKeeps => exact call_triple_bind leaves_current_invocation laterKeeps

theorem Steady.event (steady : Steady kept) (grants : Grants kept fine) {event : RuntimeEvent}
    (ordinary : event.Ordinary) : CallKeeps kept fine (handleEvent host input pointer event) := by
  have metered : Metered host input pointer (fun _ => False) (event.charge input)
      (handleEvent host input pointer event) := event_metered ordinary
  exact metered.leaves steady grants fun _ impossible => impossible.elim

end Routine

end Scs
