import Scs.TransactionContext.ExecuteStatus
import Scs.TransactionContext.ReturnBuffer

/-!
# Return data

What a subroutine finds in the buffer is what its caller has left there, and what it
has passed itself goes with its next `INVOKE`. So a delivery is the subroutine's own
data exactly when its last call of the two is `RETURN`, or nothing was at stake.
-/

namespace Scs

set_option autoImplicit false

open Handler Interaction

variable {Runtime : Type}

/-! ## What the frames of an execution have done -/

/-- What a frame has done to the buffer: a `RETURN`, or an `INVOKE` that is over. -/
inductive FrameCall where
  | passed (data : List UInt8)
  | invoked

/-- What the buffer held when the frame was entered, and what the frame has done
since, the last first. -/
structure FrameLog where
  inherited : List UInt8
  calls : List FrameCall

namespace FrameLog

/-- What the frame last passed to `RETURN`. -/
def lastPassed : List FrameCall → List UInt8
  | [] => []
  | .passed data :: _ => data
  | .invoked :: earlier => lastPassed earlier

def ownData (log : FrameLog) : List UInt8 := lastPassed log.calls

def unclaimed (log : FrameLog) : List UInt8 :=
  match log.calls with
  | [] => log.inherited
  | .passed data :: _ => data
  | .invoked :: _ => []

/-- The frame has passed its data after its invocations, or has none; and without
either there was nothing in the buffer. -/
def Undisturbed (log : FrameLog) : Prop :=
  match log.calls with
  | [] => log.inherited = []
  | .passed _ :: _ => True
  | .invoked :: earlier => lastPassed earlier = []

def does (call : FrameCall) (log : FrameLog) : FrameLog :=
  { log with calls := call :: log.calls }

theorem undisturbed_iff (log : FrameLog) : log.Undisturbed ↔ log.unclaimed = log.ownData := by
  obtain ⟨inherited, calls⟩ := log
  cases calls with
  | nil => exact Iff.rfl
  | cons call earlier =>
      cases call with
      | passed data => exact iff_of_true trivial rfl
      | invoked => exact eq_comm

/-- Data that is neither the frame's own nor nothing has lost to nothing, or to
nothing of its own. -/
theorem unclaimed_cases (log : FrameLog) :
    log.unclaimed = log.ownData ∨ log.unclaimed = [] ∨ log.ownData = [] := by
  obtain ⟨inherited, calls⟩ := log
  cases calls with
  | nil => exact .inr (.inr rfl)
  | cons call earlier =>
      cases call with
      | passed data => exact .inl rfl
      | invoked => exact .inr (.inl rfl)

end FrameLog

/-- The end of a subroutine that an `INVOKE` waits for. -/
structure Delivery where
  callee : FrameLog
  frame : InvokeFrame
  buffer : List UInt8

namespace Delivery

def bytes (delivery : Delivery) : List UInt8 :=
  delivery.buffer.take (delivery.frame.copied delivery.buffer).toNat

/-- The copy is what the frame of the subroutine last passed to `RETURN`, up to the
limit of the caller. -/
def FromCallee (delivery : Delivery) : Prop :=
  delivery.bytes = delivery.callee.ownData.take delivery.frame.returnLen.toNat

/-- The caller takes nothing, or the subroutine's own data is what was left. There is one
buffer for the whole execution, and nobody clears it. -/
def Faithful (delivery : Delivery) : Prop :=
  delivery.frame.returnLen = 0 ∨ delivery.callee.Undisturbed

theorem bytes_eq {delivery : Delivery} (short : delivery.buffer.length < UInt32.size) :
    delivery.bytes = delivery.buffer.take delivery.frame.returnLen.toNat := by
  have size : (UInt32.ofNat delivery.buffer.length).toNat = delivery.buffer.length :=
    UInt32.toNat_ofNat_of_lt' short
  unfold bytes InvokeFrame.copied minSize
  rw [UInt32.toNat_min, size, min_comm, ← List.take_eq_take_min]

theorem from_callee_iff {delivery : Delivery}
    (carried : delivery.buffer = delivery.callee.unclaimed)
    (short : delivery.buffer.length < UInt32.size) :
    delivery.FromCallee ↔ delivery.Faithful := by
  have limit : delivery.frame.returnLen = 0 ↔ delivery.frame.returnLen.toNat = 0 :=
    UInt32.toNat_inj.symm
  unfold FromCallee Faithful
  rw [bytes_eq short, carried, FrameLog.undisturbed_iff, limit]
  rcases delivery.callee.unclaimed_cases with same | lost | none
  · rw [same]
    exact iff_of_true rfl (.inr rfl)
  · rw [lost, List.take_nil, eq_comm, List.take_eq_nil_iff, eq_comm (a := [])]
  · rw [none, List.take_nil, List.take_eq_nil_iff]

end Delivery

/-- The frames on the stack, the innermost first, and what has been delivered. -/
structure FrameHistory where
  frames : List FrameLog
  deliveries : List Delivery

namespace FrameHistory

def start : FrameHistory where
  frames := [{ inherited := [], calls := [] }]
  deliveries := []

def after (host : Host Runtime) (context : ExecutionContext Runtime) (history : FrameHistory) :
    FrameHistory :=
  match context.frameEvent host, history.frames with
  | .passes data, log :: callers => { history with frames := log.does (.passed data) :: callers }
  | .invokes, log :: callers =>
      { history with frames := { inherited := log.unclaimed, calls := [] } :: log :: callers }
  | .ends, callee :: callers =>
      match context.invokeFrames, callers with
      | frame :: _, caller :: others =>
          { frames := caller.does .invoked :: others
            deliveries := history.deliveries ++ [{ callee, frame, buffer := context.returnBuf }] }
      | _, _ => { history with frames := [] }
  | _, _ => history

end FrameHistory

inductive Traced (host : Host Runtime) (input : Submission) :
    FrameHistory → ExecutionContext Runtime → Prop
  | entered {context : ExecutionContext Runtime}
      (returned : CanReturn ((), context)
        (invokeSubroutine host (.ofRoot input.tx.tx.invocation) .start)) :
      Traced host input .start context
  | went {history : FrameHistory} {context next : ExecutionContext Runtime}
      (earlier : Traced host input history context) (step : Steps host input context next) :
      Traced host input (history.after host context) next

/-! ## What a run does to the buffer -/

section Runs

variable {host : Host Runtime} {input : Submission} {context next : ExecutionContext Runtime}
  {history : FrameHistory}

/-- The buffer holds what the frame on top of the stack has left there. -/
inductive Tracks (context : ExecutionContext Runtime) : List FrameLog → Prop
  | top {log : FrameLog} {callers : List FrameLog}
      (waiting : callers.length = context.invokeFrames.length)
      (buffer : context.returnBuf = log.unclaimed)
      (short : context.returnBuf.length < UInt32.size) : Tracks context (log :: callers)

structure Tracked (history : FrameHistory) (context : ExecutionContext Runtime) : Prop where
  deliveries : ∀ delivery ∈ history.deliveries,
    delivery.buffer = delivery.callee.unclaimed ∧ delivery.buffer.length < UInt32.size
  frames : context.runtimeStack ≠ [] → Tracks context history.frames

theorem traced_runs (traced : Traced host input history context) : RunsTo host input context := by
  induction traced with
  | entered returned => exact .entered returned
  | went earlier step induction => exact .went induction step

theorem runs_to_traced (runs : RunsTo host input context) :
    ∃ history, Traced host input history context := by
  induction runs with
  | entered returned => exact ⟨.start, .entered returned⟩
  | went earlier step induction =>
      obtain ⟨history, traced⟩ := induction
      exact ⟨_, .went traced step⟩

/-- The invocation that no `INVOKE` waits for is the last on the stack. -/
theorem root_alone (runs : RunsTo host input context) (waiting : context.invokeFrames = []) :
    context.runtimeStack.tail = [] := by
  obtain ⟨results, reached⟩ := runs_to_iff_reaches.mp runs
  obtain ⟨stack, frames, framed, callers⟩ := reaches_well_framed reached
  rw [framed.waiting] at waiting
  rw [framed.runtimes, callers, waiting]
  rfl

theorem tracks_carried {log : FrameLog} {callers : List FrameLog} {frames : List InvokeFrame}
    (carried : Carried log.unclaimed frames context) (waiting : callers.length = frames.length)
    (short : log.unclaimed.length < UInt32.size) : Tracks context (log :: callers) := by
  apply Tracks.top
  · rw [carried.frames, waiting]
  · exact carried.buffer
  · rw [carried.buffer]
    exact short

theorem tracked_start (returned : CanReturn ((), context)
    (invokeSubroutine host (.ofRoot input.tx.tx.invocation) .start)) :
    Tracked .start context where
  deliveries _ impossible := nomatch impossible
  frames _ := by
    have carried := call_triple_returns (invoke_subroutine_carried host _) ⟨rfl, rfl⟩ returned
    exact tracks_carried carried rfl (by decide)

theorem tracked_step (runs : RunsTo host input context) (tracked : Tracked history context)
    (step : Steps host input context next) : Tracked (history.after host context) next := by
  have stepped := steps_buffer step
  have tracks := tracked.frames step.1
  unfold FrameHistory.after
  generalize context.frameEvent host = event at stepped
  cases frames : history.frames with
  | nil =>
      rw [frames] at tracks
      cases tracks
  | cons log callers =>
      rw [frames] at tracks
      cases tracks with
      | top waiting buffer short =>
          rw [buffer] at short
          cases stepped with
          | passed shortData carried =>
              exact ⟨tracked.deliveries, fun _ => tracks_carried carried waiting shortData⟩
          | invoked frame carried =>
              rw [buffer] at carried
              exact ⟨tracked.deliveries, fun _ =>
                tracks_carried carried (congrArg (· + 1) waiting) short⟩
          | finished last popped =>
              rw [last]
              refine ⟨tracked.deliveries, fun running => ?_⟩
              rw [popped] at running
              exact absurd (root_alone runs last) running
          | delivered last carried received =>
              rw [last] at waiting ⊢
              cases callers with
              | nil => cases waiting
              | cons caller others =>
                  constructor
                  · intro delivery delivered
                    rcases List.mem_append.mp delivered with earlier | new
                    · exact tracked.deliveries delivery earlier
                    · cases List.mem_singleton.mp new
                      exact ⟨buffer, buffer ▸ short⟩
                  · intro _
                    have empty : ([] : List UInt8).length < UInt32.size := by decide
                    exact tracks_carried carried (Nat.succ.inj waiting) empty
          | same carried =>
              rw [buffer] at carried
              refine ⟨tracked.deliveries, fun _ => ?_⟩
              rw [frames]
              exact tracks_carried carried waiting short

theorem traced_tracked (traced : Traced host input history context) : Tracked history context := by
  induction traced with
  | entered returned => exact tracked_start returned
  | went earlier step induction => exact tracked_step (traced_runs earlier) induction step

/-- Exactly the deliveries that are faithful carry the data of the subroutine. -/
theorem traced_from_callee_iff (traced : Traced host input history context)
    {delivery : Delivery} (delivered : delivery ∈ history.deliveries) :
    delivery.FromCallee ↔ delivery.Faithful := by
  obtain ⟨carried, short⟩ := (traced_tracked traced).deliveries delivery delivered
  exact Delivery.from_callee_iff carried short

theorem ended_hands {frame : InvokeFrame} {rest : List InvokeFrame}
    (tracked : Tracked history context) (step : Steps host input context next)
    (ends : context.frameEvent host = .ends) (waiting : context.invokeFrames = frame :: rest) :
    frame.Receives host context.returnBuf (context.activeRuntimes frame.runtime)
        (next.activeRuntimes frame.runtime) ∧
      ∃ callee callers, history.frames = callee :: callers ∧
        (history.after host context).deliveries =
          history.deliveries ++ [{ callee, frame, buffer := context.returnBuf }] := by
  have stepped := steps_buffer step
  have tracks := tracked.frames step.1
  rw [ends] at stepped
  constructor
  · cases stepped with
    | finished last popped =>
        rw [last] at waiting
        cases waiting
    | delivered last carried received =>
        rw [last] at waiting
        cases waiting
        exact received
  · unfold FrameHistory.after
    rw [ends, waiting]
    generalize history.frames = frames at tracks
    cases tracks with
    | @top callee callers height buffer short =>
        rw [waiting] at height
        cases callers with
        | nil => cases height
        | cons caller others => exact ⟨callee, caller :: others, rfl, rfl⟩

end Runs

/-! ## Whose data an `INVOKE` returns -/

/-- The deliveries of every execution: all of its contexts have a history, the bytes
of a delivery are what the runtime of the caller is handed, and they are the data of
the subroutine exactly in the faithful ones. -/
structure ReturnDelivery (host : Host Runtime) (input : Submission) : Prop where
  traced : ∀ {context : ExecutionContext Runtime}, RunsTo host input context →
    ∃ history, Traced host input history context
  handed : ∀ {history : FrameHistory} {context next : ExecutionContext Runtime}
    {frame : InvokeFrame} {rest : List InvokeFrame}, Traced host input history context →
      Steps host input context next → context.frameEvent host = .ends →
        context.invokeFrames = frame :: rest →
          frame.Receives host context.returnBuf (context.activeRuntimes frame.runtime)
            (next.activeRuntimes frame.runtime) ∧
          ∃ callee callers, history.frames = callee :: callers ∧
            (history.after host context).deliveries =
              history.deliveries ++ [{ callee, frame, buffer := context.returnBuf }]
  own_data_iff : ∀ {history : FrameHistory} {context : ExecutionContext Runtime}
    {delivery : Delivery}, Traced host input history context → delivery ∈ history.deliveries →
      (delivery.FromCallee ↔ delivery.Faithful)

/-- Whatever the contracts do and whatever the proxies answer, each delivery is decided by
what the frame of the subroutine has done to the buffer: its own data gets there unless an
`INVOKE` came after its `RETURN`, or it has left there what it found. -/
theorem return_data_delivered_iff (host : Host Runtime) (input : Submission) :
    ReturnDelivery host input where
  traced := runs_to_traced
  handed traced step ends waiting := ended_hands (traced_tracked traced) step ends waiting
  own_data_iff traced delivered := traced_from_callee_iff traced delivered

/-! ## Data that goes to the wrong frame -/

def traceSteps (host : Host Runtime) (input : Submission) :
    List (List CallResult) → FrameHistory → ExecutionContext Runtime →
      Option (FrameHistory × ExecutionContext Runtime)
  | [], history, context => some (history, context)
  | answers :: later, history, context =>
      match context.runtimeStack, (ExecutionContext.step host input context).answered answers with
      | _ :: _, some ((), next) => traceSteps host input later (history.after host context) next
      | _, _ => none

def traceRun (host : Host Runtime) (input : Submission) (entering : List CallResult)
    (steps : List (List CallResult)) : Option (FrameHistory × ExecutionContext Runtime) :=
  match (invokeSubroutine host (.ofRoot input.tx.tx.invocation) .start).answered entering with
  | some ((), context) => traceSteps host input steps .start context
  | none => none

theorem trace_steps_traced {host : Host Runtime} {input : Submission}
    {steps : List (List CallResult)} {history reached : FrameHistory}
    {context last : ExecutionContext Runtime} (traced : Traced host input history context)
    (ran : traceSteps host input steps history context = some (reached, last)) :
    Traced host input reached last := by
  induction steps generalizing history context with
  | nil =>
      cases ran
      exact traced
  | cons answers later induction =>
      unfold traceSteps at ran
      split at ran
      · rename_i running returned
        have step := And.intro (running ▸ List.cons_ne_nil _ _) (answered_returns returned)
        exact induction (traced.went step) ran
      · cases ran

theorem trace_run_traced {host : Host Runtime} {input : Submission} {entering : List CallResult}
    {steps : List (List CallResult)} {history : FrameHistory} {context : ExecutionContext Runtime}
    (ran : traceRun host input entering steps = some (history, context)) :
    Traced host input history context := by
  unfold traceRun at ran
  split at ran
  · rename_i returned
    exact trace_steps_traced (.entered (answered_returns returned)) ran
  · cases ran

/-- Contracts that make the syscalls of a script. Their bytes are the number of the
script, and all of their memory is 7. -/
def scripted (script : List UInt8 → List RuntimeEvent) : Host (List RuntimeEvent) where
  wasm :=
    { newRuntimeInstance := fun view => .ok (view.map script)
      invoke := fun _ runtime => .ok runtime
      next := fun runtime => runtime.headD .returned
      resume := fun _ runtime => runtime.tail
      loadFromMemory := fun _ len _ => .ok (Vector.replicate len.toNat 7)
      loadFromMemoryToConstSizeBuf := fun width offset _ => .ok (BitVec.ofNat width offset.toNat)
      writeToMemory := fun _ _ _ runtime => .ok runtime
      writeSliceToMemory := fun _ _ _ _ runtime => .ok runtime
      memcmp := fun _ _ _ _ => .ok 0
      memset := fun ptr _ _ runtime => .ok (ptr, runtime)
      safeMemcpy := fun dst _ _ runtime => .ok (dst, runtime)
      safeStrlen := fun _ _ _ => .ok 0 }
  hashTransaction _ := 0
  hashXdr _ := 0
  checkSigEd25519 _ _ _ := false

/-- The root invokes a contract that passes a byte to `RETURN` and then invokes one
that does nothing. -/
def passThenInvoke : List UInt8 → List RuntimeEvent
  | [0] => [.syscall 601 1 0 0 0 0 1]
  | [1] => [.syscall 626 0 1 0 0 0 0, .syscall 601 2 0 0 0 0 1]
  | _ => []

/-- Each contract passes a byte to `RETURN`, after its own invocation is over. -/
def invokeThenPass : List UInt8 → List RuntimeEvent
  | [0] => [.syscall 601 1 0 0 0 0 1]
  | [1] => [.syscall 601 2 0 0 0 0 1, .syscall 626 0 1 0 0 0 0]
  | [2] => [.syscall 626 0 1 0 0 0 0]
  | _ => []

theorem return_data_delivered_nested : ∃ history context,
    Traced (scripted invokeThenPass) (invokes 0) history context ∧
      history.deliveries.map Delivery.bytes = [[7], [7]] ∧
      ∀ delivery ∈ history.deliveries, delivery.FromCallee := by
  have ran : (traceRun (scripted invokeThenPass) (invokes 0) [.script (some [0])]
      [[.script (some [1])], [.script (some [2])], [], [], [], []]).map (fun reached =>
        reached.1.deliveries.map fun delivery => (delivery.bytes, delivery.callee.calls)) =
          some [([7], [.passed [7]]), ([7], [.passed [7], .invoked])] := by
    rfl
  obtain ⟨⟨history, context⟩, reached, delivered⟩ := Option.map_eq_some_iff.mp ran
  have traced := trace_run_traced reached
  refine ⟨history, context, traced, ?_, ?_⟩
  · have bytes := congrArg (List.map Prod.fst) delivered
    rw [List.map_map] at bytes
    exact bytes
  · intro delivery member
    apply ((return_data_delivered_iff (scripted invokeThenPass) (invokes 0)).own_data_iff traced
      member).mpr
    right
    have calls := delivered ▸ List.mem_map_of_mem (f := fun delivery : Delivery =>
      (delivery.bytes, delivery.callee.calls)) member
    unfold FrameLog.Undisturbed
    rcases List.mem_pair.mp calls with same | same
    · rw [(Prod.mk.inj same).2]
      trivial
    · rw [(Prod.mk.inj same).2]
      trivial

/-- The innermost contract is credited with the byte that its caller has passed, and
that caller with nothing. -/
theorem return_data_misdelivered : ∃ history context,
    Traced (scripted passThenInvoke) (invokes 0) history context ∧
      history.deliveries.map (fun delivery => (delivery.bytes, delivery.callee.ownData)) =
        [([7], []), ([], [7])] ∧
      ¬ ∀ delivery ∈ history.deliveries, delivery.FromCallee := by
  have ran : (traceRun (scripted passThenInvoke) (invokes 0) [.script (some [0])]
      [[.script (some [1])], [], [.script (some [2])], [], []]).map (fun reached =>
        reached.1.deliveries.map fun delivery => (delivery.bytes, delivery.callee.ownData)) =
          some [([7], []), ([], [7])] := by
    rfl
  obtain ⟨⟨history, context⟩, reached, delivered⟩ := Option.map_eq_some_iff.mp ran
  refine ⟨history, context, trace_run_traced reached, delivered, fun claim => ?_⟩
  have first : ([7], []) ∈ history.deliveries.map fun delivery =>
      (delivery.bytes, delivery.callee.ownData) := delivered ▸ List.mem_cons_self
  obtain ⟨delivery, member, same⟩ := List.mem_map.mp first
  obtain ⟨bytes, own⟩ := Prod.mk.inj same
  have copied := claim delivery member
  unfold Delivery.FromCallee at copied
  rw [bytes, own, List.take_nil] at copied
  cases copied

end Scs
