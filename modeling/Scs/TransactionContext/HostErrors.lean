import Scs.TransactionContext.RoutineHandlers

/-!
# The root invocation throws `HostError` only

The runtimes on the stack are those of the invocations on the stack, and each is
in the map. So no syscall finds an empty stack or a dangling pointer, whatever
its arguments are and whatever the proxies answer.
-/

namespace Scs

set_option autoImplicit false

open Handler

def Thrown.IsHostError : Thrown → Prop
  | .hostError _ => True
  | .other _ => False

variable {Runtime Value : Type}

/-- The stacks of an execution and the frames of the `INVOKE` calls that wait. A frame keeps
what its caller needs when the subroutine comes back. -/
structure Framed (stack : List Address) (frames : List InvokeFrame)
    (context : ExecutionContext Runtime) : Prop where
  runtimes : context.runtimeStack = stack
  aligned : context.invocationStack.map MethodInvocation.addr = stack
  waiting : context.invokeFrames = frames
  active : ∀ pointer ∈ stack, context.activeRuntimes pointer ≠ none

def WellFramed (context : ExecutionContext Runtime) : Prop :=
  ∃ stack frames, Framed stack frames context ∧ stack.tail = frames.map InvokeFrame.runtime

section Operations

variable {stack : List Address} {frames : List InvokeFrame} {pointer : Address}
  {context : ExecutionContext Runtime}

theorem framed_set_runtime (framed : Framed stack frames context) (runtime : Runtime) :
    Framed stack frames (context.setRuntime pointer runtime) where
  runtimes := framed.runtimes
  aligned := framed.aligned
  waiting := framed.waiting
  active := by
    intro other member
    simp only [ExecutionContext.setRuntime]
    by_cases same : other = pointer
    · subst same
      rw [Function.update_self]
      exact Option.some_ne_none _
    · rw [Function.update_of_ne same]
      exact framed.active other member

theorem keeps_host_error (invariant : ExecutionContext Runtime → Prop) (what : String) :
    Keeps invariant Thrown.IsHostError (hostError what : HandlerM Runtime Value) :=
  triple_raise trivial

theorem keeps_from_library (invariant : ExecutionContext Runtime → Prop)
    (result : Except String Value) :
    Keeps invariant Thrown.IsHostError (fromLibrary result : HandlerM Runtime Value) := by
  cases result with
  | ok value => exact triple_pure fun _ holds => holds
  | error what => exact keeps_host_error invariant what

theorem current_runtime_top :
    Triple (Framed (pointer :: stack) frames) Thrown.IsHostError
      (getCurrentRuntime : HandlerM Runtime Address)
      fun value context => value = pointer ∧ Framed (pointer :: stack) frames context := by
  apply triple_read
  intro value framed
  rw [framed.runtimes]
  exact ⟨rfl, framed⟩

theorem triple_current {next : Address → HandlerM Runtime Value}
    {post : Value → ExecutionContext Runtime → Prop}
    (later : Triple (Framed (pointer :: stack) frames) Thrown.IsHostError (next pointer) post) :
    Triple (Framed (pointer :: stack) frames) Thrown.IsHostError (getCurrentRuntime >>= next)
      post := by
  apply triple_bind current_runtime_top
  intro value
  constructor
  rintro state ⟨rfl, framed⟩
  exact later.every state framed

theorem keeps_deref (member : pointer ∈ stack) :
    Keeps (Framed stack frames) Thrown.IsHostError (deref pointer : HandlerM Runtime Runtime) := by
  apply triple_read
  intro value framed
  obtain ⟨runtime, found⟩ := Option.ne_none_iff_exists'.mp (framed.active pointer member)
  rw [found]
  exact framed

theorem keeps_current_invocation (nonempty : stack ≠ []) :
    Keeps (Framed stack frames) Thrown.IsHostError
      (getCurrentMethodInvocation : HandlerM Runtime MethodInvocation) := by
  apply triple_read
  intro value framed
  cases invocations : value.invocationStack with
  | nil =>
      have aligned := framed.aligned
      rw [invocations] at aligned
      exact absurd aligned.symm nonempty
  | cons invocation rest => exact framed

theorem keeps_msg_sender :
    Keeps (Framed stack frames) Thrown.IsHostError (getMsgSender : HandlerM Runtime Address) := by
  apply triple_read
  intro value framed
  cases value.invocationStack with
  | nil => trivial
  | cons invocation rest =>
      cases rest with
      | nil => trivial
      | cons sender rest => exact framed

theorem keeps_modify {change : ExecutionContext Runtime → ExecutionContext Runtime}
    (runtimes : ∀ context, (change context).runtimeStack = context.runtimeStack)
    (invocations : ∀ context, (change context).invocationStack = context.invocationStack)
    (waiting : ∀ context, (change context).invokeFrames = context.invokeFrames)
    (active : ∀ context, (change context).activeRuntimes = context.activeRuntimes) :
    Keeps (Framed stack frames) Thrown.IsHostError (modify change : HandlerM Runtime Unit) := by
  apply triple_modify
  intro context framed
  constructor
  · exact (runtimes context).trans framed.runtimes
  · rw [invocations context]
    exact framed.aligned
  · exact (waiting context).trans framed.waiting
  · rw [active context]
    exact framed.active

theorem keeps_set_runtime (runtime : Runtime) :
    Keeps (Framed stack frames) Thrown.IsHostError
      (modify (·.setRuntime pointer runtime) : HandlerM Runtime Unit) :=
  triple_modify fun _ framed => framed_set_runtime framed runtime

theorem keeps_consume_gas (input : Submission) (consumedGas : UInt64) :
    Keeps (Framed stack frames) Thrown.IsHostError
      (consumeGas input consumedGas : HandlerM Runtime Unit) := by
  unfold consumeGas
  apply triple_bind triple_get
  intro value
  apply triple_weaken fun _ before => before.2
  have consumed : Keeps (Framed stack frames) Thrown.IsHostError (do
      modify fun context : ExecutionContext Runtime =>
        { context with gasUsed := value.gasUsed + consumedGas }
      if input.tx.tx.gasLimit ≤ value.gasUsed + consumedGas then
        hostError "gas limit reached") := by
    apply triple_bind
    · exact keeps_modify (fun _ => rfl) (fun _ => rfl) (fun _ => rfl) fun _ => rfl
    · intro _
      split
      · exact keeps_host_error _ _
      · exact triple_pure fun _ holds => holds
  dsimp only
  split
  · exact triple_bind (keeps_host_error _ _) fun _ => consumed
  · exact consumed

theorem keeps_storage_key (nonempty : stack ≠ []) (key : InvariantKey) :
    Keeps (Framed stack frames) Thrown.IsHostError
      (getStorageKey key : HandlerM Runtime AddressAndKey) :=
  triple_bind (keeps_current_invocation nonempty) fun _ => triple_pure fun _ framed => framed

variable (host : Host Runtime)

theorem keeps_load (member : pointer ∈ stack) (offset len : UInt32) :
    Keeps (Framed stack frames) Thrown.IsHostError (loadFromMemory host pointer offset len) :=
  triple_bind (keeps_deref member) fun _ => keeps_from_library _ _

theorem keeps_load_constsize (member : pointer ∈ stack) (width : ℕ) (offset : UInt32) :
    Keeps (Framed stack frames) Thrown.IsHostError
      (loadFromMemoryConstsize host width pointer offset) :=
  triple_bind (keeps_deref member) fun _ => keeps_from_library _ _

theorem keeps_write (member : pointer ∈ stack) (buf : List UInt8) (offset len : UInt32) :
    Keeps (Framed stack frames) Thrown.IsHostError
      (writeToMemory host pointer buf offset len) :=
  triple_bind (keeps_deref member) fun _ =>
    triple_bind (keeps_from_library _ _) fun _ => keeps_set_runtime _

theorem keeps_load_key (member : pointer ∈ stack) (offset : UInt32) :
    Keeps (Framed stack frames) Thrown.IsHostError (loadStorageKey host pointer offset) :=
  triple_bind (keeps_load_constsize host member 256 offset) fun _ =>
    keeps_storage_key (List.ne_nil_of_mem member) _

theorem keeps_resume (member : pointer ∈ stack) (ret : UInt64) :
    Keeps (Framed stack frames) Thrown.IsHostError (resume host pointer ret) :=
  triple_bind (keeps_deref member) fun _ => keeps_set_runtime _

/-- The stacks of a caller once the runtime of its callee is in the map. -/
def Loaded (addr : Address) (stack : List Address) (frames : List InvokeFrame)
    (context : ExecutionContext Runtime) : Prop :=
  Framed stack frames context ∧ context.activeRuntimes addr ≠ none

theorem loaded_set_runtime {addr : Address} (framed : Framed stack frames context)
    (runtime : Runtime) : Loaded addr stack frames (context.setRuntime addr runtime) := by
  constructor
  · exact framed_set_runtime framed runtime
  · simp only [ExecutionContext.setRuntime, Function.update_self]
    exact Option.some_ne_none _

theorem create_runtime_loads (addr : Address) :
    Triple (Framed stack frames) Thrown.IsHostError (createRuntime host addr)
      fun _ => Loaded addr stack frames := by
  apply triple_bind (keeps_ask _)
  intro script
  apply triple_bind (keeps_from_library _ _)
  intro runtime
  cases runtime with
  | none => exact triple_raise trivial
  | some runtime => exact triple_modify fun _ framed => loaded_set_runtime framed runtime

theorem framed_push {invocation : MethodInvocation}
    (loaded : Loaded invocation.addr stack frames context) :
    Framed (invocation.addr :: stack) frames
      (context.pushInvocationStack invocation.addr invocation) where
  runtimes := congrArg (invocation.addr :: ·) loaded.1.runtimes
  aligned := congrArg (invocation.addr :: ·) loaded.1.aligned
  waiting := loaded.1.waiting
  active := by
    intro other member
    rcases List.mem_cons.mp member with rfl | caller
    · exact loaded.2
    · exact loaded.1.active other caller

theorem invoke_subroutine_spec (invocation : MethodInvocation) :
    Triple (Framed stack frames) Thrown.IsHostError (invokeSubroutine host invocation)
      fun _ => Framed (invocation.addr :: stack) frames := by
  have entered : Triple (Loaded invocation.addr stack frames) Thrown.IsHostError (do
      let runtime ← deref invocation.addr
      modify (·.pushInvocationStack invocation.addr invocation)
      let running ← fromLibrary (host.wasm.invoke invocation.getInvocableMethodname runtime)
      modify (·.setRuntime invocation.addr running))
      fun _ => Framed (invocation.addr :: stack) frames := by
    have found : Keeps (Loaded invocation.addr stack frames) Thrown.IsHostError
        (deref invocation.addr : HandlerM Runtime Runtime) := by
      apply triple_read
      intro value loaded
      obtain ⟨runtime, there⟩ := Option.ne_none_iff_exists'.mp loaded.2
      rw [there]
      exact loaded
    apply triple_bind found
    intro runtime
    apply triple_bind
    · exact triple_modify fun _ loaded => framed_push loaded
    · intro _
      exact triple_bind (keeps_from_library _ _) fun _ => keeps_set_runtime _
  apply triple_bind triple_get
  intro value
  dsimp only
  split
  · apply triple_weaken fun _ before => before.2
    exact triple_bind (create_runtime_loads host invocation.addr) fun _ => entered
  · rename_i there
    constructor
    rintro state ⟨rfl, framed⟩
    apply entered.every
    exact ⟨framed, fun missing => there (Option.isNone_iff_eq_none.mpr missing)⟩

end Operations

/-! ## The handler -/

section SyscallHandler

variable (host : Host Runtime) (input : Submission) {frames : List InvokeFrame}
  {pointer : Address}

/-- The stacks after a call into the host: as before, or with a subroutine on top. -/
def Handled (pointer : Address) (frames : List InvokeFrame) :
    Option UInt64 → ExecutionContext Runtime → Prop
  | some _ => Framed (pointer :: frames.map InvokeFrame.runtime) frames
  | none => WellFramed

theorem handle_invoke_spec (arg0 arg1 arg2 arg3 arg4 arg5 : UInt64) :
    Triple (Framed (pointer :: frames.map InvokeFrame.runtime) frames) Thrown.IsHostError
      (handleInvoke host input pointer arg0 arg1 arg2 arg3 arg4 arg5) fun _ => WellFramed := by
  apply triple_bind (keeps_consume_gas _ _)
  intro _
  apply triple_bind (keeps_load_constsize host List.mem_cons_self _ _)
  intro addr
  apply triple_bind (keeps_load host List.mem_cons_self _ _)
  intro calldata
  apply triple_bind (invoke_subroutine_spec host _)
  intro _
  apply triple_modify
  intro context framed
  refine ⟨addr :: pointer :: frames.map InvokeFrame.runtime,
    ⟨pointer, arg4.toUInt32, arg5.toUInt32⟩ :: frames, ?_, rfl⟩
  exact
    { runtimes := framed.runtimes
      aligned := framed.aligned
      waiting := congrArg (_ :: ·) framed.waiting
      active := framed.active }

/-- The `INVOKE` that waited returns to its caller. -/
theorem finish_invoke_spec (frame : InvokeFrame) {stack : List Address}
    (member : frame.runtime ∈ stack) :
    Keeps (Framed stack frames) Thrown.IsHostError (finishInvoke host frame) := by
  have emptied (returnLen : UInt32) : Keeps (Framed stack frames) Thrown.IsHostError
      (do
        modify fun context => { context with returnBuf := [] }
        pure returnLen.toUInt64 : HandlerM Runtime UInt64) := by
    apply triple_bind
    · exact keeps_modify (fun _ => rfl) (fun _ => rfl) (fun _ => rfl) fun _ => rfl
    · exact fun _ => triple_pure fun _ framed => framed
  apply triple_bind triple_get
  intro value
  apply triple_weaken fun _ before => before.2
  dsimp only
  split
  · exact triple_bind (keeps_write host member _ _ _) fun _ => emptied _
  · exact emptied _

theorem framed_pop {context : ExecutionContext Runtime}
    (framed : Framed (pointer :: frames.map InvokeFrame.runtime) frames context) :
    Framed (frames.map InvokeFrame.runtime) frames context.popInvocationStack where
  runtimes := congrArg List.tail framed.runtimes
  aligned := by
    have popped := congrArg List.tail framed.aligned
    rw [← List.map_tail] at popped
    exact popped
  waiting := framed.waiting
  active := fun other member => framed.active other (List.mem_cons_of_mem _ member)

/-- The end of an invocation, with the `INVOKE` that waited for it if there is one. -/
theorem returned_spec :
    Triple (Framed (pointer :: frames.map InvokeFrame.runtime) frames) Thrown.IsHostError
      (handleEvent host input pointer .returned) (Handled pointer frames) := by
  have popped : Triple (Framed (pointer :: frames.map InvokeFrame.runtime) frames)
      Thrown.IsHostError
      (modify ExecutionContext.popInvocationStack : HandlerM Runtime Unit)
      fun _ => Framed (frames.map InvokeFrame.runtime) frames :=
    triple_modify fun _ framed => framed_pop framed
  apply triple_bind popped
  intro _
  apply triple_read
  intro context framed
  rw [framed.waiting]
  cases frames with
  | nil => exact ⟨_, _, framed, rfl⟩
  | cons frame rest =>
      have resumed : Triple (Framed (frame.runtime :: rest.map InvokeFrame.runtime) (frame :: rest))
          Thrown.IsHostError
          (do
            modify fun context => { context with invokeFrames := rest }
            let returnLen ← finishInvoke host frame
            resume host frame.runtime returnLen
            pure none : HandlerM Runtime (Option UInt64)) (Handled pointer (frame :: rest)) := by
        have taken : Triple
            (Framed (frame.runtime :: rest.map InvokeFrame.runtime) (frame :: rest))
            Thrown.IsHostError
            (modify fun context => { context with invokeFrames := rest } : HandlerM Runtime Unit)
            fun _ => Framed (frame.runtime :: rest.map InvokeFrame.runtime) rest :=
          triple_modify fun _ framed => { framed with waiting := rfl }
        apply triple_bind taken
        intro _
        apply triple_bind (finish_invoke_spec host frame List.mem_cons_self)
        intro returnLen
        apply triple_bind (keeps_resume host List.mem_cons_self _)
        intro _
        exact triple_pure fun _ framed => ⟨_, _, framed, rfl⟩
      exact resumed.every context framed

theorem Routine.keeps {own : AddressAndKey → Prop} {handler : HandlerM Runtime Value}
    {rest : List Address} (routine : Routine host input pointer own handler) :
    Keeps (Framed (pointer :: rest) frames) Thrown.IsHostError handler := by
  have top : pointer ∈ pointer :: rest := List.mem_cons_self
  induction routine with
  | pure value => exact triple_pure fun _ framed => framed
  | bind first later firstKeeps laterKeeps => exact triple_bind firstKeeps laterKeeps
  | hostError what => exact keeps_host_error _ what
  | consumeGas cost => exact keeps_consume_gas input cost
  | deref => exact keeps_deref top
  | current later laterKeeps =>
      apply triple_current
      exact triple_bind (keeps_deref top) fun runtime => laterKeeps pointer runtime
  | invocation => exact keeps_current_invocation (List.ne_nil_of_mem top)
  | sender => exact keeps_msg_sender
  | setRuntime target runtime => exact keeps_set_runtime runtime
  | log line => exact keeps_modify (fun _ => rfl) (fun _ => rfl) (fun _ => rfl) fun _ => rfl
  | ask call owns => exact keeps_ask call
  | storageKey offset later laterKeeps =>
      exact triple_bind (keeps_load_key host top offset) laterKeeps

theorem handle_event_spec (event : RuntimeEvent) :
    Triple (Framed (pointer :: frames.map InvokeFrame.runtime) frames) Thrown.IsHostError
      (handleEvent host input pointer event) (Handled pointer frames) := by
  cases event.bears with
  | ordinary ordinary =>
      have routine : Routine host input pointer (fun _ => False)
          (handleEvent host input pointer event) := event_routine ordinary
      apply triple_relax (routine.keeps host input)
      intro ret context framed
      cases ret with
      | none => exact ⟨_, _, framed, rfl⟩
      | some ret => exact framed
  | invokes known =>
      unfold handleEvent
      dsimp only
      rw [known]
      apply triple_bind (handle_invoke_spec host input _ _ _ _ _ _)
      intro _
      exact triple_pure fun _ framed => framed
  | passes known =>
      unfold handleEvent
      dsimp only
      rw [known]
      apply triple_bind (keeps_consume_gas _ _)
      intro _
      apply triple_bind (keeps_load host List.mem_cons_self _ _)
      intro bytes
      apply triple_bind
      · exact keeps_modify (fun _ => rfl) (fun _ => rfl) (fun _ => rfl) fun _ => rfl
      · exact fun _ => triple_pure fun _ framed => framed
  | ends => exact returned_spec host input

theorem step_spec {context : ExecutionContext Runtime} (framed : WellFramed context)
    (running : context.runtimeStack ≠ []) :
    (ExecutionContext.step host input context).Every Thrown.IsHostError fun result =>
      WellFramed result.2 := by
  obtain ⟨stack, frames, framed, callers⟩ := framed
  cases stack with
  | nil => exact absurd framed.runtimes running
  | cons pointer rest =>
      cases callers
      have stepped : Triple (Framed (pointer :: frames.map InvokeFrame.runtime) frames)
          Thrown.IsHostError (ExecutionContext.step host input) fun _ => WellFramed := by
        apply triple_current
        apply triple_bind (keeps_deref List.mem_cons_self)
        intro runtime
        apply triple_bind (handle_event_spec host input _)
        intro returned
        cases returned with
        | none => exact triple_pure fun _ framed => framed
        | some ret =>
            apply triple_relax (keeps_resume host List.mem_cons_self ret)
            exact fun _ _ framed => ⟨_, _, framed, rfl⟩
      exact stepped.every context framed

end SyscallHandler

/-! ## Whole executions -/

section Execute

variable {host : Host Runtime} {input : Submission} {results : List CallResult}
  {execution : Execution Runtime}

/-- Whatever the proxies answer, an execution keeps its stacks and throws
`HostError` only. -/
theorem reaches_well_framed (reached : Reaches host input results execution) :
    execution.Every Thrown.IsHostError fun result => WellFramed result.2 := by
  induction reached with
  | started =>
      have entered : Triple (Framed [] []) Thrown.IsHostError
          (invokeSubroutine host (.ofRoot input.tx.tx.invocation)) fun _ => WellFramed :=
        triple_relax (invoke_subroutine_spec host _) fun _ _ framed => ⟨_, _, framed, rfl⟩
      apply entered.every
      exact
        { runtimes := rfl
          aligned := rfl
          waiting := rfl
          active := fun _ member => absurd member List.not_mem_nil }
  | stepped _ running induction => exact step_spec host input induction running
  | answered _ answer induction => exact induction answer

theorem reaches_host_error {thrown : Thrown}
    (reached : Reaches host input results (.throws thrown)) : thrown.IsHostError :=
  reaches_well_framed reached

end Execute

end Scs
