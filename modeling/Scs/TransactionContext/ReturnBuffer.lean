import Scs.TransactionContext.StackDiscipline

/-!
# The return buffer

One buffer carries the data of `RETURN` from a frame to the `INVOKE` of its caller.
`RETURN` fills it, and `INVOKE` empties it after its subroutine. No other step of an
execution touches it.
-/

namespace Scs

set_option autoImplicit false

open Handler Interaction

variable {Runtime Value : Type}

/-- How many bytes of a buffer the `INVOKE` copies. -/
def InvokeFrame.copied (frame : InvokeFrame) (buffer : List UInt8) : UInt32 :=
  minSize frame.returnLen buffer.length

/-- What the buffer holds and which `INVOKE` calls wait. -/
structure Carried (buffer : List UInt8) (frames : List InvokeFrame)
    (context : ExecutionContext Runtime) : Prop where
  buffer : context.returnBuf = buffer
  frames : context.invokeFrames = frames

namespace InvokeFrame

/-- The bytes are written to the memory of the caller, if there are any. -/
def Copies (host : Host Runtime) (frame : InvokeFrame) (buffer : List UInt8)
    (before after : Option Runtime) : Prop :=
  if 0 < frame.copied buffer then
    ∃ runtime written, before = some runtime ∧
      host.wasm.writeToMemory buffer frame.returnAddr (frame.copied buffer) runtime =
        .ok written ∧
      after = some written
  else after = before

/-- The `INVOKE` of the caller returns the number of the bytes. -/
def Receives (host : Host Runtime) (frame : InvokeFrame) (buffer : List UInt8)
    (before after : Option Runtime) : Prop :=
  ∃ written, frame.Copies host buffer before (some written) ∧
    after = some (host.wasm.resume (frame.copied buffer).toUInt64 written)

end InvokeFrame

structure Copied (host : Host Runtime) (frame : InvokeFrame)
    (context state : ExecutionContext Runtime) : Prop where
  carried : Carried [] context.invokeFrames state
  copies : frame.Copies host context.returnBuf (context.activeRuntimes frame.runtime)
    (state.activeRuntimes frame.runtime)

inductive BufferStep (host : Host Runtime) (context next : ExecutionContext Runtime) :
    FrameEvent → Prop
  | passed {data : List UInt8} (short : data.length < UInt32.size)
      (carried : Carried data context.invokeFrames next) :
      BufferStep host context next (.passes data)
  | invoked (frame : InvokeFrame)
      (carried : Carried context.returnBuf (frame :: context.invokeFrames) next) :
      BufferStep host context next .invokes
  | finished (waiting : context.invokeFrames = []) (popped : next = context.popInvocationStack) :
      BufferStep host context next .ends
  | delivered {frame : InvokeFrame} {rest : List InvokeFrame}
      (waiting : context.invokeFrames = frame :: rest) (carried : Carried [] rest next)
      (received : frame.Receives host context.returnBuf (context.activeRuntimes frame.runtime)
        (next.activeRuntimes frame.runtime)) :
      BufferStep host context next .ends
  | same (carried : Carried context.returnBuf context.invokeFrames next) :
      BufferStep host context next .other

section Operations

variable {buffer : List UInt8} {frames : List InvokeFrame} {fine : ProxyCall → Prop}
  {context : ExecutionContext Runtime} {pointer : Address}

theorem carried_steady : Steady (Carried buffer frames : ExecutionContext Runtime → Prop) where
  memory carried := ⟨carried.buffer, carried.frames⟩
  gas carried := ⟨carried.buffer, carried.frames⟩
  logs carried := ⟨carried.buffer, carried.frames⟩

theorem from_library_exact {pre : ExecutionContext Runtime → Prop}
    (result : Except String Value) :
    CallTriple pre fine (fromLibrary result : HandlerM Runtime Value)
      fun value state => pre state ∧ result = .ok value := by
  cases result with
  | ok value => exact call_triple_pure fun _ holds => ⟨holds, rfl⟩
  | error what => exact call_triple_raise

variable (host : Host Runtime)

theorem write_exact (buf : List UInt8) (offset len : UInt32) :
    CallTriple (fun state => state = context) fine (writeToMemory host pointer buf offset len)
      fun _ state => ∃ runtime written, context.activeRuntimes pointer = some runtime ∧
        host.wasm.writeToMemory buf offset len runtime = .ok written ∧
        state = context.setRuntime pointer written := by
  apply call_triple_bind deref_exact
  intro runtime
  apply call_triple_given
  intro found
  apply call_triple_bind (from_library_exact _)
  intro written
  apply call_triple_given
  intro wrote
  apply call_triple_modify
  rintro _ rfl
  exact ⟨runtime, written, found, wrote, rfl⟩

theorem resume_exact (ret : UInt64) :
    CallTriple (fun state => state = context) fine (resume host pointer ret)
      fun _ state => ∃ runtime, context.activeRuntimes pointer = some runtime ∧
        state = context.setRuntime pointer (host.wasm.resume ret runtime) := by
  apply call_triple_bind deref_exact
  intro runtime
  apply call_triple_given
  intro found
  apply call_triple_modify
  rintro _ rfl
  exact ⟨runtime, found, rfl⟩

/-- The part of `INVOKE` after its subroutine, as the caller sees it. -/
theorem finish_invoke_exact (frame : InvokeFrame) :
    CallTriple (fun state => state = context) fine (finishInvoke host frame)
      fun returnLen state => Copied host frame context state ∧
        returnLen = (frame.copied context.returnBuf).toUInt64 := by
  apply call_triple_read
  rintro state rfl
  dsimp only
  split
  · rename_i copies
    have written : CallTriple (fun other => other = state) fine (do
        writeToMemory host frame.runtime state.returnBuf frame.returnAddr
          (frame.copied state.returnBuf)
        modify fun context => { context with returnBuf := [] }
        pure (frame.copied state.returnBuf).toUInt64 : HandlerM Runtime UInt64)
        fun returnLen other => Copied host frame state other ∧
          returnLen = (frame.copied state.returnBuf).toUInt64 := by
      apply call_triple_bind (write_exact host _ _ _)
      intro _
      constructor
      rintro _ ⟨runtime, caller, found, wrote, rfl⟩
      have received : frame.Copies host state.returnBuf (state.activeRuntimes frame.runtime)
          ((state.setRuntime frame.runtime caller).activeRuntimes frame.runtime) :=
        (if_pos copies).mpr ⟨runtime, caller, found, wrote, Function.update_self ..⟩
      exact ⟨⟨⟨rfl, rfl⟩, received⟩, rfl⟩
    exact written.every state rfl
  · rename_i nothing
    exact ⟨⟨⟨rfl, rfl⟩, (if_neg nothing).mpr rfl⟩, rfl⟩

theorem returned_exact (input : Submission) :
    CallTriple (fun state => state = context) fine (handleEvent host input pointer .returned)
      fun ret next => ret = none ∧ BufferStep host context next .ends := by
  have popped : CallTriple (fun state => state = context) fine
      (modify ExecutionContext.popInvocationStack : HandlerM Runtime Unit)
      fun _ state => state = context.popInvocationStack :=
    call_triple_modify fun _ same => congrArg _ same
  apply call_triple_bind popped
  intro _
  apply call_triple_read
  rintro _ rfl
  have frames : context.popInvocationStack.invokeFrames = context.invokeFrames := rfl
  rw [frames]
  cases waiting : context.invokeFrames with
  | nil => exact ⟨rfl, .finished waiting rfl⟩
  | cons frame rest =>
      have left : CallTriple (fun state => state =
            { context.popInvocationStack with invokeFrames := rest }) fine (do
          let returnLen ← finishInvoke host frame
          resume host frame.runtime returnLen
          pure none : HandlerM Runtime (Option UInt64))
          fun ret next => ret = none ∧ BufferStep host context next .ends := by
        apply call_triple_bind (finish_invoke_exact host frame)
        intro returnLen
        constructor
        rintro state ⟨copied, rfl⟩
        apply calls_bind.mpr
        apply calls_mono _ ((resume_exact host _).every state rfl)
        rintro ⟨_, next⟩ ⟨written, found, rfl⟩
        have received : frame.Receives host context.returnBuf
            (context.activeRuntimes frame.runtime)
            ((state.setRuntime frame.runtime
              (host.wasm.resume (frame.copied context.returnBuf).toUInt64 written)).activeRuntimes
                frame.runtime) :=
          ⟨written, found ▸ copied.copies, Function.update_self ..⟩
        exact ⟨rfl, .delivered waiting (carried_steady.memory copied.carried) received⟩
      exact left.every _ rfl

end Operations

section Steps

variable {host : Host Runtime} {input : Submission} {context next : ExecutionContext Runtime}
  {pointer : Address} {runtime : Runtime} {buffer : List UInt8} {frames : List InvokeFrame}

variable (host input)

theorem invoke_subroutine_carried (invocation : MethodInvocation) :
    CallKeeps (Carried buffer frames) (fun _ => True) (invokeSubroutine host invocation) :=
  carried_steady.invoke_subroutine host carried_steady (fun _ _ => trivial)
    fun _ carried => ⟨carried.buffer, carried.frames⟩

theorem handle_invoke_carried (arg0 arg1 arg2 arg3 arg4 arg5 : UInt64) :
    CallTriple (Carried buffer frames) (fun _ => True)
      (handleInvoke host input pointer arg0 arg1 arg2 arg3 arg4 arg5)
      fun _ => Carried buffer
        ({ runtime := pointer, returnAddr := arg4.toUInt32, returnLen := arg5.toUInt32 } ::
          frames) := by
  apply leaves_handle_invoke host carried_steady.memory input (fun _ => Carried buffer frames)
    (carried_steady.consume_gas _ _) carried_steady.memory fun _ _ => trivial
  · exact fun _ _ carried => ⟨carried.buffer, carried.frames⟩
  · exact fun _ _ carried => ⟨carried.buffer, congrArg _ carried.frames⟩

theorem invokes_carried (arg0 arg1 arg2 arg3 arg4 arg5 : UInt64) :
    CallTriple (Carried buffer frames) (fun _ => True)
      (syscallHandler host input pointer .invoke arg0 arg1 arg2 arg3 arg4 arg5)
      fun _ => Carried buffer
        ({ runtime := pointer, returnAddr := arg4.toUInt32, returnLen := arg5.toUInt32 } ::
          frames) :=
  call_triple_bind (handle_invoke_carried host input arg0 arg1 arg2 arg3 arg4 arg5) fun _ =>
    leaves_pure none

structure Charged (context state : ExecutionContext Runtime) : Prop where
  runtimes : state.activeRuntimes = context.activeRuntimes
  frames : state.invokeFrames = context.invokeFrames

/-- The bytes that `RETURN` loads are those of the runtime that has called it. -/
theorem returns_carried (found : context.activeRuntimes pointer = some runtime)
    (arg0 arg1 arg2 arg3 arg4 arg5 : UInt64) :
    CallTriple (Charged context) (fun _ => True)
      (syscallHandler host input pointer .returns arg0 arg1 arg2 arg3 arg4 arg5)
      fun _ next => ∃ bytes, host.wasm.loadFromMemory arg0.toUInt32 arg1.toUInt32 runtime =
        .ok bytes ∧ Carried bytes.toList context.invokeFrames next := by
  have read : CallTriple (Charged context) (fun _ => True)
      (deref pointer : HandlerM Runtime Runtime)
      fun value state => Charged context state ∧ value = runtime := by
    apply call_triple_read
    intro state charged
    rw [charged.runtimes, found]
    exact ⟨charged, rfl⟩
  have loaded : CallTriple (Charged context) (fun _ => True)
      (loadFromMemory host pointer arg0.toUInt32 arg1.toUInt32)
      fun bytes state => Charged context state ∧
        host.wasm.loadFromMemory arg0.toUInt32 arg1.toUInt32 runtime = .ok bytes := by
    apply call_triple_bind read
    intro value
    apply call_triple_given
    rintro rfl
    exact from_library_exact _
  apply call_triple_bind
  · exact leaves_consume_gas (fun charged => ⟨charged.runtimes, charged.frames⟩) _ _
  intro _
  apply call_triple_bind loaded
  intro bytes
  constructor
  rintro state ⟨charged, loaded⟩
  exact ⟨bytes, loaded, rfl, charged.frames⟩

/-- The rest of a step, once it is known which runtime is on top of the stack. -/
theorem event_buffer (event : RuntimeEvent)
    (found : context.activeRuntimes pointer = some runtime) :
    CallTriple (fun state => state = context) (fun _ => True) (do
      match ← handleEvent host input pointer event with
      | some ret => resume host pointer ret
      | none => pure ())
      fun _ next => BufferStep host context next (event.frameEvent host runtime) := by
  cases event.bears with
  | ordinary ordinary =>
      have kept : CallKeeps (Carried context.returnBuf context.invokeFrames) (fun _ => True) (do
          match ← handleEvent host input pointer event with
          | some ret => resume host pointer ret
          | none => pure ()) :=
        call_triple_bind (carried_steady.event grants_any ordinary)
          (carried_steady.finished host)
      rw [ordinary_other ordinary]
      constructor
      rintro _ rfl
      exact calls_mono (fun _ => .same) (kept.every _ ⟨rfl, rfl⟩)
  | @invokes callno arg0 arg1 arg2 arg3 arg4 arg5 known =>
      have invokes : (RuntimeEvent.syscall callno arg0 arg1 arg2 arg3 arg4 arg5).frameEvent host
          runtime = .invokes := by
        unfold RuntimeEvent.frameEvent
        dsimp only
        rw [known]
      rw [invokes]
      unfold handleEvent
      dsimp only
      rw [known]
      constructor
      rintro state rfl
      apply calls_bind.mpr
      have handled : CallTriple (Carried state.returnBuf state.invokeFrames) _
          (syscallHandler host input pointer .invoke arg0 arg1 arg2 arg3 arg4 arg5) _ :=
        invokes_carried host input arg0 arg1 arg2 arg3 arg4 arg5
      apply calls_mono _ (handled.every state ⟨rfl, rfl⟩)
      rintro ⟨ret, next⟩ carried
      apply calls_mono (fun _ => .invoked _)
      exact (carried_steady.finished host ret).every next carried
  | @passes callno arg0 arg1 arg2 arg3 arg4 arg5 known =>
      unfold RuntimeEvent.frameEvent handleEvent
      dsimp only
      rw [known]
      constructor
      rintro state rfl
      apply calls_bind.mpr
      have handled := returns_carried host input found arg0 arg1 arg2 arg3 arg4 arg5
      apply calls_mono _ (handled.every state ⟨rfl, rfl⟩)
      rintro ⟨ret, next⟩ ⟨bytes, loaded, carried⟩
      rw [loaded]
      have short : bytes.toList.length < UInt32.size :=
        bytes.length_toList.trans_lt (UInt32.toNat_lt_size _)
      apply calls_mono (fun _ => .passed short)
      exact (carried_steady.finished host ret).every next carried
  | ends =>
      apply call_triple_bind (returned_exact host input)
      intro ret
      constructor
      rintro next ⟨rfl, stepped⟩
      exact stepped

theorem step_buffer :
    CallTriple (fun state => state = context) (fun _ => True) (ExecutionContext.step host input)
      fun _ next => BufferStep host context next (context.frameEvent host) := by
  apply call_triple_bind current_runtime_exact
  intro pointer
  apply call_triple_given
  intro top
  apply call_triple_bind deref_exact
  intro runtime
  apply call_triple_given
  intro found
  have event : context.frameEvent host = (host.wasm.next runtime).frameEvent host runtime := by
    unfold ExecutionContext.frameEvent
    rw [top, Option.bind_some, found]
  rw [event]
  exact event_buffer host input _ found

variable {host input}

theorem steps_buffer (step : Steps host input context next) :
    BufferStep host context next (context.frameEvent host) := by
  have stepped := call_triple_returns (step_buffer host input) rfl step.2
  exact stepped

end Steps

end Scs
