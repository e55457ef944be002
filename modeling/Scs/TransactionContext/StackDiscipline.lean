import Mathlib.Logic.Relation
import Scs.TransactionContext.HostErrors
import Scs.TransactionContext.SteadyHandlers

/-!
# Storage isolation and the two stacks

The invocation stack and the runtime stack are pushed and popped by different
calls around a nested invocation. A storage key is built from the invocation on
top, so every key that a frame touches belongs to the contract that runs in it.
-/

namespace Scs

set_option autoImplicit false

open Handler Interaction

variable {Runtime Value : Type}

def OwnedBy (addr : Address) (key : AddressAndKey) : Prop :=
  ∃ suffix : InvariantKey, key = addr ++ suffix

def OnContract (addr : Address) (call : ProxyCall) : Prop :=
  ∀ key, call.key? = some key → OwnedBy addr key

theorem on_contract_plain {addr : Address} {call : ProxyCall} (plain : call.key? = none) :
    OnContract addr call := by
  intro key touched
  rw [plain] at touched
  cases touched

theorem on_contract_key {addr : Address} {key : AddressAndKey} {call : ProxyCall}
    (owned : OwnedBy addr key) (touches : call.key? = some key) : OnContract addr call := by
  intro other touched
  cases touches.symm.trans touched
  exact owned

structure Stacked (invocations : List MethodInvocation) (runtimes : List Address)
    (context : ExecutionContext Runtime) : Prop where
  invocations : context.invocationStack = invocations
  runtimes : context.runtimeStack = runtimes

inductive FrameEvent where
  | passes (data : List UInt8)
  | invokes
  | ends
  | other

/-- `INVOKE`, `RETURN` with the bytes that it loads, and the end of an invocation. -/
def RuntimeEvent.frameEvent (host : Host Runtime) (runtime : Runtime) : RuntimeEvent → FrameEvent
  | .syscall callno arg0 arg1 _ _ _ _ =>
      match Syscall.ofCallno callno with
      | some .invoke => .invokes
      | some .returns =>
          match host.wasm.loadFromMemory arg0.toUInt32 arg1.toUInt32 runtime with
          | .ok bytes => .passes bytes.toList
          | .error _ => .other
      | _ => .other
  | .returned => .ends
  | _ => .other

def ExecutionContext.frameEvent (host : Host Runtime) (context : ExecutionContext Runtime) :
    FrameEvent :=
  match context.runtimeStack.head?.bind context.activeRuntimes with
  | none => .other
  | some runtime => (host.wasm.next runtime).frameEvent host runtime

inductive StackStep (invocations : List MethodInvocation) (runtimes : List Address)
    (context : ExecutionContext Runtime) : FrameEvent → Prop
  | same {event : FrameEvent} (inside : event ≠ .invokes) (goesOn : event ≠ .ends)
      (stacked : Stacked invocations runtimes context) :
      StackStep invocations runtimes context event
  | invoked (callee : MethodInvocation)
      (stacked : Stacked (callee :: invocations) (callee.addr :: runtimes) context) :
      StackStep invocations runtimes context .invokes
  | returned (stacked : Stacked invocations.tail runtimes.tail context) :
      StackStep invocations runtimes context .ends

/-! ## What a call into the host does to the stacks -/

section Operations

variable {invocations : List MethodInvocation} {runtimes : List Address} {pointer : Address}
  {fine : ProxyCall → Prop}

/-- The program leaves the stacks alone and makes good calls only. -/
abbrev LeavesStacks (invocations : List MethodInvocation) (runtimes : List Address)
    (fine : ProxyCall → Prop) (handler : HandlerM Runtime Value) : Prop :=
  CallTriple (Stacked invocations runtimes) fine handler fun _ => Stacked invocations runtimes

theorem stacked_steady :
    Steady (Stacked invocations runtimes : ExecutionContext Runtime → Prop) where
  memory stacked := ⟨stacked.invocations, stacked.runtimes⟩
  gas stacked := ⟨stacked.invocations, stacked.runtimes⟩
  logs stacked := ⟨stacked.invocations, stacked.runtimes⟩

/-- After an `INVOKE` some subroutine is on both stacks. -/
theorem stacked_steady_pushed :
    Steady (fun context : ExecutionContext Runtime => ∃ callee : MethodInvocation,
      Stacked (callee :: invocations) (callee.addr :: runtimes) context) where
  memory := fun ⟨callee, stacked⟩ => ⟨callee, stacked.invocations, stacked.runtimes⟩
  gas := fun ⟨callee, stacked⟩ => ⟨callee, stacked.invocations, stacked.runtimes⟩
  logs := fun ⟨callee, stacked⟩ => ⟨callee, stacked.invocations, stacked.runtimes⟩

/-- The key of a call starts with the address of the contract on top. -/
theorem stacked_grants {invocation : MethodInvocation} {callers : List MethodInvocation} :
    Grants (Stacked (invocation :: callers) runtimes : ExecutionContext Runtime → Prop)
      (OnContract invocation.addr) where
  plain := on_contract_plain
  own := by
    intro context top others stacked stack key call touches
    rw [stacked.invocations] at stack
    cases stack
    exact on_contract_key ⟨key, rfl⟩ touches

theorem leaves_modify {change : ExecutionContext Runtime → ExecutionContext Runtime}
    (invoked : ∀ context, (change context).invocationStack = context.invocationStack)
    (running : ∀ context, (change context).runtimeStack = context.runtimeStack) :
    LeavesStacks invocations runtimes fine (modify change : HandlerM Runtime Unit) :=
  call_triple_modify fun context stacked =>
    ⟨(invoked context).trans stacked.invocations, (running context).trans stacked.runtimes⟩

variable (host : Host Runtime)

/-- The subroutine goes on both stacks. No storage key is touched before. -/
theorem invoke_subroutine_pushes (invocation : MethodInvocation)
    (scripts : ∀ call : ProxyCall, call.key? = none → fine call) :
    CallTriple (Stacked invocations runtimes) fine (invokeSubroutine host invocation)
      fun _ => Stacked (invocation :: invocations) (invocation.addr :: runtimes) :=
  stacked_steady.invoke_subroutine host stacked_steady scripts fun _ stacked =>
    ⟨congrArg (invocation :: ·) stacked.invocations,
      congrArg (invocation.addr :: ·) stacked.runtimes⟩

end Operations

/-! ## The handler -/

section SyscallHandler

variable (host : Host Runtime) (input : Submission) {invocation : MethodInvocation}
  {callers : List MethodInvocation} {runtimes : List Address} {pointer : Address}

/-- The end of an invocation takes the top off both stacks. -/
theorem returned_pops {fine : ProxyCall → Prop} {invocations : List MethodInvocation} :
    CallTriple (Stacked invocations runtimes) fine (handleEvent host input pointer .returned)
      fun _ => Stacked invocations.tail runtimes.tail :=
  leaves_returned host stacked_steady.memory input
    (fun _ stacked =>
      ⟨congrArg List.tail stacked.invocations, congrArg List.tail stacked.runtimes⟩)
    (fun stacked => ⟨stacked.invocations, stacked.runtimes⟩)
    fun stacked => ⟨stacked.invocations, stacked.runtimes⟩

theorem handle_invoke_pushes (arg0 arg1 arg2 arg3 arg4 arg5 : UInt64) :
    CallTriple (Stacked (invocation :: callers) runtimes) (OnContract invocation.addr)
      (handleInvoke host input pointer arg0 arg1 arg2 arg3 arg4 arg5)
      fun _ context => ∃ callee, Stacked (callee :: invocation :: callers)
        (callee.addr :: runtimes) context := by
  apply leaves_handle_invoke host stacked_steady.memory input
    (fun callee => Stacked (callee :: invocation :: callers) (callee.addr :: runtimes))
    (stacked_steady.consume_gas _ _) stacked_steady.memory fun _ => on_contract_plain
  · exact fun callee _ stacked =>
      ⟨congrArg (callee :: ·) stacked.invocations, congrArg (callee.addr :: ·) stacked.runtimes⟩
  · exact fun callee _ stacked => ⟨callee, stacked.invocations, stacked.runtimes⟩

section Events

variable {context next : ExecutionContext Runtime} {runtime : Runtime}

omit host input in
theorem ordinary_other {host : Host Runtime} {event : RuntimeEvent} (ordinary : event.Ordinary) :
    event.frameEvent host runtime = .other := by
  cases event with
  | syscall callno arg0 arg1 arg2 arg3 arg4 arg5 =>
      obtain ⟨calls, passes⟩ := ordinary
      unfold RuntimeEvent.frameEvent
      dsimp only
      split
      · rename_i known
        exact absurd known calls
      · rename_i known
        exact absurd known passes
      · rfl
  | returned => exact ordinary.elim
  | gas gas => rfl
  | memcmp lhs rhs sz => rfl
  | memset ptr val len => rfl
  | memcpy dst src len => rfl
  | strnlen ptr maxLen => rfl
  | trapped what => rfl

/-- Only `INVOKE` and the end of an invocation change the stacks. -/
theorem event_stacks (event : RuntimeEvent)
    (stacked : Stacked (invocation :: callers) runtimes context) :
    CallTriple (fun state => state = context) (OnContract invocation.addr) (do
      match ← handleEvent host input pointer event with
      | some ret => resume host pointer ret
      | none => pure ())
      fun _ next => StackStep (invocation :: callers) runtimes next
        (event.frameEvent host runtime) := by
  have finishes {Kept : ExecutionContext Runtime → Prop} (steady : Steady Kept)
      (handled : CallTriple (Stacked (invocation :: callers) runtimes)
        (OnContract invocation.addr) (handleEvent host input pointer event) fun _ => Kept) :
      CallTriple (Stacked (invocation :: callers) runtimes) (OnContract invocation.addr) (do
        match ← handleEvent host input pointer event with
        | some ret => resume host pointer ret
        | none => pure ()) fun _ => Kept :=
    call_triple_bind handled (steady.finished host)
  cases event.bears with
  | ordinary ordinary =>
      have kept := finishes stacked_steady (stacked_steady.event stacked_grants ordinary)
      rw [ordinary_other ordinary]
      constructor
      rintro _ rfl
      exact calls_mono (fun _ => .same nofun nofun) (kept.every _ stacked)
  | @invokes callno arg0 arg1 arg2 arg3 arg4 arg5 known =>
      have invokes : (RuntimeEvent.syscall callno arg0 arg1 arg2 arg3 arg4 arg5).frameEvent host
          runtime = .invokes := by
        unfold RuntimeEvent.frameEvent
        dsimp only
        rw [known]
      have pushed := finishes stacked_steady_pushed (by
        unfold handleEvent
        dsimp only
        rw [known]
        exact call_triple_bind (handle_invoke_pushes host input arg0 arg1 arg2 arg3 arg4 arg5)
          fun _ => leaves_pure none)
      rw [invokes]
      constructor
      rintro _ rfl
      apply calls_mono _ (pushed.every _ stacked)
      rintro _ ⟨callee, stacked⟩
      exact .invoked callee stacked
  | @passes callno arg0 arg1 arg2 arg3 arg4 arg5 known =>
      have kept := finishes stacked_steady (by
        unfold handleEvent
        dsimp only
        rw [known]
        apply call_triple_bind (stacked_steady.consume_gas _ _)
        intro _
        apply call_triple_bind (leaves_load host _ _)
        intro bytes
        apply call_triple_bind
        · exact leaves_modify (fun _ => rfl) fun _ => rfl
        · exact fun _ => leaves_pure (some 0))
      constructor
      rintro _ rfl
      apply calls_mono _ (kept.every _ stacked)
      intro _ stacked
      unfold RuntimeEvent.frameEvent
      dsimp only
      rw [known]
      dsimp only
      split
      · exact .same nofun nofun stacked
      · exact .same nofun nofun stacked
  | ends =>
      have popped := finishes stacked_steady (returned_pops host input)
      constructor
      rintro _ rfl
      exact calls_mono (fun _ => .returned) (popped.every _ stacked)

omit host input in
theorem deref_exact {fine : ProxyCall → Prop} :
    CallTriple (fun state => state = context) fine (deref pointer : HandlerM Runtime Runtime)
      fun runtime state => state = context ∧ context.activeRuntimes pointer = some runtime := by
  apply call_triple_read
  rintro state rfl
  cases found : state.activeRuntimes pointer with
  | none => trivial
  | some runtime => exact ⟨rfl, rfl⟩

omit host input in
theorem current_runtime_exact {fine : ProxyCall → Prop} :
    CallTriple (fun state => state = context) fine (getCurrentRuntime : HandlerM Runtime Address)
      fun pointer state => state = context ∧ context.runtimeStack.head? = some pointer := by
  apply call_triple_read
  rintro state rfl
  cases state.runtimeStack with
  | nil => trivial
  | cons pointer rest => exact ⟨rfl, rfl⟩

/-- One step touches the storage of the contract on top of the stack only, and
leaves both stacks, pushes both or pops both. -/
theorem step_stacks (stacked : Stacked (invocation :: callers) runtimes context) :
    CallTriple (fun state => state = context) (OnContract invocation.addr)
      (ExecutionContext.step host input)
      fun _ next => StackStep (invocation :: callers) runtimes next (context.frameEvent host) := by
  apply call_triple_bind current_runtime_exact
  intro pointer
  apply call_triple_given
  intro top
  apply call_triple_bind deref_exact
  intro runtime
  apply call_triple_given
  intro found
  have event : context.frameEvent host = (host.wasm.next runtime).frameEvent host runtime := by
    unfold ExecutionContext.frameEvent
    rw [top, Option.bind_some, found]
  rw [event]
  exact event_stacks host input _ stacked

end Events

end SyscallHandler

/-! ## Whole executions -/

section Execute

variable (host : Host Runtime) (input : Submission)

def Steps (context next : ExecutionContext Runtime) : Prop :=
  context.runtimeStack ≠ [] ∧ CanReturn ((), next) (ExecutionContext.step host input context)

inductive RunsTo : ExecutionContext Runtime → Prop
  | entered {context : ExecutionContext Runtime}
      (returned : CanReturn ((), context)
        (invokeSubroutine host (.ofRoot input.tx.tx.invocation) .start)) : RunsTo context
  | went {context next : ExecutionContext Runtime} (earlier : RunsTo context)
      (step : Steps host input context next) : RunsTo next

variable {host input} {context next : ExecutionContext Runtime}

/-- Whatever an execution can still return is one of its contexts. -/
theorem reaches_runs_to {results : List CallResult} {execution : Execution Runtime}
    (reached : Reaches host input results execution)
    (returned : CanReturn ((), context) execution) : RunsTo host input context := by
  induction reached generalizing context with
  | started => exact .entered returned
  | stepped reached running induction => exact .went (induction .done) ⟨running, returned⟩
  | answered reached answer induction => exact induction (.answered answer returned)

theorem reaches_step {results : List CallResult} {execution : Execution Runtime}
    {value : Unit × ExecutionContext Runtime} (reached : Reaches host input results execution)
    (returned : CanReturn value execution) :
    ∃ more, Reaches host input (results ++ more) (.done value) := by
  induction returned generalizing results with
  | done => exact ⟨[], (List.append_nil results).symm ▸ reached⟩
  | answered answer later induction =>
      obtain ⟨more, reached⟩ := induction (reached.answered answer)
      rw [List.append_assoc] at reached
      exact ⟨answer :: more, reached⟩

theorem runs_to_iff_reaches :
    RunsTo host input context ↔ ∃ results, Reaches host input results (.done ((), context)) := by
  constructor
  · intro runs
    induction runs with
    | entered returned => exact reaches_step .started returned
    | went earlier step induction =>
        obtain ⟨results, reached⟩ := induction
        exact (reaches_step (reached.stepped step.1) step.2).imp' (results ++ ·) fun _ => id
  · rintro ⟨results, reached⟩
    exact reaches_runs_to reached .done

theorem runs_to_aligned (runs : RunsTo host input context) :
    context.runtimeStack = context.invocationStack.map MethodInvocation.addr ∧
      ∀ pointer ∈ context.runtimeStack, context.activeRuntimes pointer ≠ none := by
  obtain ⟨results, reached⟩ := runs_to_iff_reaches.mp runs
  obtain ⟨stack, frames, framed, callers⟩ := reaches_well_framed reached
  rw [framed.runtimes]
  exact ⟨framed.aligned.symm, framed.active⟩

theorem invocations_nonempty (runs : RunsTo host input context)
    (running : context.runtimeStack ≠ []) : ∃ invocation callers,
      context.invocationStack = invocation :: callers := by
  rw [(runs_to_aligned runs).1] at running
  exact List.exists_cons_of_ne_nil fun empty => running (congrArg (List.map _) empty)

theorem steps_stacks (runs : RunsTo host input context) (step : Steps host input context next) :
    StackStep context.invocationStack context.runtimeStack next (context.frameEvent host) := by
  obtain ⟨invocation, callers, top⟩ := invocations_nonempty runs step.1
  have stepped := call_triple_returns (step_stacks host input ⟨top, rfl⟩) rfl step.2
  rw [top]
  exact stepped

end Execute

end Scs
