import Scs.TransactionContext.ReturnData

/-!
# Nested invocations and storage isolation

An `INVOKE` leaves a frame on the native stack, and its subroutine has returned when
that frame is gone. In between the subroutine may fail, or invoke others as deep as
it likes, its caller among them. Once it has returned, the two stacks of the
transaction are those of the `INVOKE`.
-/

namespace Scs

set_option autoImplicit false

open Handler Interaction

variable {Runtime : Type}

/-! ## The frames that wait -/

/-- The frame that the `INVOKE` of the caller has left is the last on the native stack. -/
def Innermost (caller context : ExecutionContext Runtime) : Prop :=
  ∃ frame, context.invokeFrames = frame :: caller.invokeFrames

/-- The contexts from the `INVOKE` of a caller until its subroutine returns. The frame of
the caller stays on the native stack all the while, below those of the invocations inside.
-/
inductive Nested (host : Host Runtime) (input : Submission) (caller : ExecutionContext Runtime) :
    ExecutionContext Runtime → Prop
  | entered {context : ExecutionContext Runtime} (step : Steps host input caller context)
      (invokes : caller.frameEvent host = .invokes) : Nested host input caller context
  | went {context next : ExecutionContext Runtime} (earlier : Nested host input caller context)
      (step : Steps host input context next)
      (waits : ¬ (context.frameEvent host = .ends ∧ Innermost caller context)) :
      Nested host input caller next

inductive NativeStep (frames : List InvokeFrame) (next : ExecutionContext Runtime) :
    FrameEvent → Prop
  | same {event : FrameEvent} (inside : event ≠ .invokes) (goesOn : event ≠ .ends)
      (waiting : next.invokeFrames = frames) : NativeStep frames next event
  | invoked (frame : InvokeFrame) (waiting : next.invokeFrames = frame :: frames) :
      NativeStep frames next .invokes
  | returned (waiting : next.invokeFrames = frames.tail) : NativeStep frames next .ends

section Heights

variable {host : Host Runtime} {input : Submission} {context next caller : ExecutionContext Runtime}

theorem steps_native (step : Steps host input context next) :
    NativeStep context.invokeFrames next (context.frameEvent host) := by
  have stepped := steps_buffer step
  generalize context.frameEvent host = event at stepped
  cases stepped with
  | passed short carried => exact .same nofun nofun carried.frames
  | same carried => exact .same nofun nofun carried.frames
  | invoked frame carried => exact .invoked frame carried.frames
  | finished last popped =>
      have left : next.invokeFrames = context.invokeFrames := by
        rw [popped]
        rfl
      rw [last] at left ⊢
      exact .returned left
  | delivered last carried received =>
      rw [last]
      exact .returned carried.frames

theorem runs_to_height (runs : RunsTo host input context) :
    context.runtimeStack.length = context.invocationStack.length := by
  rw [(runs_to_aligned runs).1, List.length_map]

/-- Below the invocation that runs, every invocation has its frame on the native stack. -/
theorem running_height (runs : RunsTo host input context) (running : context.runtimeStack ≠ []) :
    context.invocationStack.length = context.invokeFrames.length + 1 := by
  obtain ⟨results, reached⟩ := runs_to_iff_reaches.mp runs
  obtain ⟨stack, frames, framed, callers⟩ := reaches_well_framed reached
  have lengths := congrArg List.length callers
  rw [List.length_tail, List.length_map] at lengths
  have positive := List.length_pos_of_ne_nil running
  have same := runs_to_height runs
  rw [framed.runtimes] at positive same
  rw [framed.waiting]
  omega

/-- As long as an `INVOKE` waits, some invocation runs. -/
theorem waiting_runs (runs : RunsTo host input context) (waiting : context.invokeFrames ≠ []) :
    context.runtimeStack ≠ [] := by
  obtain ⟨results, reached⟩ := runs_to_iff_reaches.mp runs
  obtain ⟨stack, frames, framed, callers⟩ := reaches_well_framed reached
  rw [framed.runtimes]
  rw [framed.waiting] at waiting
  rintro rfl
  cases frames with
  | nil => exact waiting rfl
  | cons frame rest => cases callers

end Heights

/-! ## Inside a nested invocation -/

structure Above (caller context : ExecutionContext Runtime) : Prop where
  invocations : caller.invocationStack <:+ context.invocationStack
  runtimes : caller.runtimeStack <:+ context.runtimeStack
  frames : caller.invokeFrames <:+ context.invokeFrames
  deeper : caller.invokeFrames.length < context.invokeFrames.length

/-- A suffix of a list stays one when the list loses its head, unless it was all of it. -/
theorem suffix_tail {Item : Type} {below stack : List Item} (suffix : below <:+ stack)
    (deeper : below.length < stack.length) : below <:+ stack.tail := by
  cases stack with
  | nil => exact absurd deeper (Nat.not_lt_zero _)
  | cons top rest =>
      rcases List.suffix_cons_iff.mp suffix with rfl | inside
      · exact absurd deeper (Nat.lt_irrefl _)
      · exact inside

section Nested

variable {host : Host Runtime} {input : Submission} {context next caller : ExecutionContext Runtime}

/-- The frame of an `INVOKE` is the last exactly when no other frame is above it. -/
theorem innermost_iff (above : Above caller context) :
    Innermost caller context ↔
      context.invokeFrames.length = caller.invokeFrames.length + 1 := by
  constructor
  · rintro ⟨frame, waiting⟩
    rw [waiting, List.length_cons]
  · intro single
    obtain ⟨inner, frames⟩ := above.frames
    have one : inner.length = 1 := by
      have lengths := congrArg List.length frames
      rw [List.length_append] at lengths
      omega
    obtain ⟨frame, rfl⟩ := List.length_eq_one_iff.mp one
    exact ⟨frame, frames.symm⟩

/-- An `INVOKE` pushes one entry on each of the three stacks. -/
theorem invoke_pushes (runs : RunsTo host input caller) (step : Steps host input caller context)
    (invokes : caller.frameEvent host = .invokes) :
    ∃ callee frame, context.invocationStack = callee :: caller.invocationStack ∧
      context.runtimeStack = callee.addr :: caller.runtimeStack ∧
      context.invokeFrames = frame :: caller.invokeFrames := by
  have stacking := steps_stacks runs step
  have native := steps_native step
  rw [invokes] at stacking native
  cases stacking with
  | same inside => exact absurd rfl inside
  | invoked callee stacked =>
      cases native with
      | same inside => exact absurd rfl inside
      | invoked frame waiting =>
          exact ⟨callee, frame, stacked.invocations, stacked.runtimes, waiting⟩

theorem return_pops (runs : RunsTo host input context) (step : Steps host input context next)
    (ends : context.frameEvent host = .ends) :
    next.invocationStack = context.invocationStack.tail ∧
      next.runtimeStack = context.runtimeStack.tail ∧
      next.invokeFrames = context.invokeFrames.tail := by
  have stacking := steps_stacks runs step
  have native := steps_native step
  rw [ends] at stacking native
  cases stacking with
  | same inside goesOn => exact absurd rfl goesOn
  | returned stacked =>
      cases native with
      | same inside goesOn => exact absurd rfl goesOn
      | returned waiting => exact ⟨stacked.invocations, stacked.runtimes, waiting⟩

theorem other_leaves (runs : RunsTo host input context) (step : Steps host input context next)
    (inside : context.frameEvent host ≠ .invokes) (goesOn : context.frameEvent host ≠ .ends) :
    next.invocationStack = context.invocationStack ∧
      next.runtimeStack = context.runtimeStack ∧ next.invokeFrames = context.invokeFrames := by
  have stacking := steps_stacks runs step
  have native := steps_native step
  generalize context.frameEvent host = event at stacking native inside goesOn
  cases stacking with
  | invoked callee stacked => exact absurd rfl inside
  | returned stacked => exact absurd rfl goesOn
  | same _ _ stacked =>
      cases native with
      | invoked frame waiting => exact absurd rfl inside
      | returned waiting => exact absurd rfl goesOn
      | same _ _ waiting => exact ⟨stacked.invocations, stacked.runtimes, waiting⟩

theorem above_step (callerRuns : RunsTo host input caller) (running : caller.runtimeStack ≠ [])
    (runs : RunsTo host input context) (above : Above caller context)
    (waits : ¬ (context.frameEvent host = .ends ∧ Innermost caller context))
    (step : Steps host input context next) : Above caller next := by
  by_cases invokes : context.frameEvent host = .invokes
  · obtain ⟨callee, frame, invocations, runtimes, waiting⟩ := invoke_pushes runs step invokes
    refine ⟨?_, ?_, ?_, ?_⟩
    · rw [invocations]
      exact above.invocations.trans (List.suffix_cons _ _)
    · rw [runtimes]
      exact above.runtimes.trans (List.suffix_cons _ _)
    · rw [waiting]
      exact above.frames.trans (List.suffix_cons _ _)
    · rw [waiting]
      exact Nat.lt_succ_of_lt above.deeper
  · by_cases ends : context.frameEvent host = .ends
    · obtain ⟨invocations, runtimes, waiting⟩ := return_pops runs step ends
      have higher : caller.invokeFrames.length + 1 < context.invokeFrames.length := by
        have deeper := above.deeper
        have single := (innermost_iff above).not.mp fun innermost => waits ⟨ends, innermost⟩
        omega
      have callerHeight := running_height callerRuns running
      have height := running_height runs step.1
      have callerRuntimes := runs_to_height callerRuns
      have heldRuntimes := runs_to_height runs
      refine ⟨?_, ?_, ?_, ?_⟩
      · rw [invocations]
        exact suffix_tail above.invocations (by omega)
      · rw [runtimes]
        exact suffix_tail above.runtimes (by omega)
      · rw [waiting]
        exact suffix_tail above.frames above.deeper
      · rw [waiting, List.length_tail]
        omega
    · obtain ⟨invocations, runtimes, waiting⟩ := other_leaves runs step invokes ends
      exact ⟨invocations ▸ above.invocations, runtimes ▸ above.runtimes, waiting ▸ above.frames,
        waiting ▸ above.deeper⟩

theorem nested_caller (nested : Nested host input caller context) : caller.runtimeStack ≠ [] := by
  induction nested with
  | entered step invokes => exact step.1
  | went earlier step waits induction => exact induction

theorem nested_above (callerRuns : RunsTo host input caller)
    (nested : Nested host input caller context) :
    RunsTo host input context ∧ Above caller context := by
  induction nested with
  | entered step invokes =>
      obtain ⟨callee, frame, invocations, runtimes, waiting⟩ :=
        invoke_pushes callerRuns step invokes
      refine ⟨callerRuns.went step, ?_, ?_, ?_, ?_⟩
      · exact invocations ▸ List.suffix_cons _ _
      · exact runtimes ▸ List.suffix_cons _ _
      · exact waiting ▸ List.suffix_cons _ _
      · rw [waiting]
        exact Nat.lt_succ_self _
  | went earlier step waits induction =>
      obtain ⟨runs, above⟩ := induction
      exact ⟨runs.went step, above_step callerRuns (nested_caller earlier) runs above waits step⟩

theorem innermost_stack (callerRuns : RunsTo host input caller)
    (nested : Nested host input caller context) (innermost : Innermost caller context) :
    ∃ callee, context.invocationStack = callee :: caller.invocationStack ∧
      context.runtimeStack.tail = caller.runtimeStack := by
  obtain ⟨runs, above⟩ := nested_above callerRuns nested
  have waiting := (innermost_iff above).mp innermost
  have running : context.runtimeStack ≠ [] := by
    apply waiting_runs runs
    obtain ⟨frame, frames⟩ := innermost
    exact frames ▸ List.cons_ne_nil _ _
  have callerHeight := running_height callerRuns (nested_caller nested)
  have height := running_height runs running
  have callerRuntimes := runs_to_height callerRuns
  have heldRuntimes := runs_to_height runs
  obtain ⟨callees, stacked⟩ := above.invocations
  have one : callees.length = 1 := by
    have lengths := congrArg List.length stacked
    rw [List.length_append] at lengths
    omega
  obtain ⟨callee, rfl⟩ := List.length_eq_one_iff.mp one
  refine ⟨callee, stacked.symm, ?_⟩
  have below := suffix_tail above.runtimes (by omega)
  apply (below.eq_of_length _).symm
  rw [List.length_tail]
  omega

theorem returned_stacks (callerRuns : RunsTo host input caller)
    (nested : Nested host input caller context) (ends : context.frameEvent host = .ends)
    (innermost : Innermost caller context) (step : Steps host input context next) :
    next.invocationStack = caller.invocationStack ∧ next.runtimeStack = caller.runtimeStack ∧
      next.invokeFrames = caller.invokeFrames := by
  obtain ⟨runs, above⟩ := nested_above callerRuns nested
  obtain ⟨invocations, runtimes, waiting⟩ := return_pops runs step ends
  obtain ⟨callee, stack, below⟩ := innermost_stack callerRuns nested innermost
  obtain ⟨frame, frames⟩ := innermost
  refine ⟨?_, ?_, ?_⟩
  · rw [invocations, stack]
    rfl
  · rw [runtimes, below]
  · rw [waiting, frames]
    rfl

/-- Every frame on the native stack is that of an `INVOKE` whose subroutine is under way. -/
theorem frames_wait (runs : RunsTo host input context) {frame : InvokeFrame}
    {rest : List InvokeFrame} (waiting : frame :: rest <:+ context.invokeFrames) :
    ∃ caller, RunsTo host input caller ∧ Nested host input caller context ∧
      caller.invokeFrames = rest := by
  induction runs with
  | @entered context returned =>
      have carried := call_triple_returns (invoke_subroutine_carried host _) ⟨rfl, rfl⟩ returned
      rw [carried.frames] at waiting
      exact absurd (List.suffix_nil.mp waiting) (List.cons_ne_nil _ _)
  | @went context next earlier step induction =>
      by_cases invokes : context.frameEvent host = .invokes
      · obtain ⟨callee, last, _, _, frames⟩ := invoke_pushes earlier step invokes
        rw [frames] at waiting
        rcases List.suffix_cons_iff.mp waiting with same | inside
        · cases same
          exact ⟨context, earlier, .entered step invokes, rfl⟩
        · obtain ⟨caller, callerRuns, nested, same⟩ := induction inside
          refine ⟨caller, callerRuns, nested.went step ?_, same⟩
          rintro ⟨ends, _⟩
          cases invokes.symm.trans ends
      · by_cases ends : context.frameEvent host = .ends
        · obtain ⟨_, _, frames⟩ := return_pops earlier step ends
          rw [frames] at waiting
          obtain ⟨caller, callerRuns, nested, same⟩ :=
            induction (waiting.trans (List.tail_suffix _))
          refine ⟨caller, callerRuns, nested.went step ?_, same⟩
          rintro ⟨_, last, innermost⟩
          rw [innermost, List.tail_cons, same] at waiting
          exact absurd waiting.length_le (Nat.not_succ_le_self _)
        · obtain ⟨_, _, frames⟩ := other_leaves earlier step invokes ends
          rw [frames] at waiting
          obtain ⟨caller, callerRuns, nested, same⟩ := induction waiting
          exact ⟨caller, callerRuns, nested.went step fun both => ends both.1, same⟩

theorem msg_sender_second {callee sender : MethodInvocation} {others : List MethodInvocation}
    (stack : context.invocationStack = callee :: sender :: others) :
    getMsgSender context = .done (sender.addr, context) := by
  cases context with
  | mk activeRuntimes invocationStack runtimeStack invokeFrames gasUsed returnBuf logs =>
      cases stack
      rfl

theorem nested_sender (callerRuns : RunsTo host input caller)
    (nested : Nested host input caller context) (innermost : Innermost caller context)
    {invoker : Address} {rest : List Address} (invoking : caller.runtimeStack = invoker :: rest) :
    getMsgSender context = .done (invoker, context) := by
  obtain ⟨callee, stack, _⟩ := innermost_stack callerRuns nested innermost
  have aligned := (runs_to_aligned callerRuns).1
  rw [invoking] at aligned
  cases callers : caller.invocationStack with
  | nil =>
      rw [callers] at aligned
      cases aligned
  | cons sender others =>
      rw [callers] at aligned stack
      cases aligned
      exact msg_sender_second stack

end Nested

/-! ## The discipline of every execution -/

section Isolated

variable (host : Host Runtime) (input : Submission)

/-- Every frame keeps to the storage of its contract. The two stacks tell in step which
contract that is and which one has invoked it: `INVOKE` pushes its subroutine on both, the
end of an invocation pops both, nothing else changes them, and once a subroutine has
returned they are those of its `INVOKE`. -/
structure Isolated : Prop where
  root : (invokeSubroutine host (.ofRoot input.tx.tx.invocation) .start).Calls
    (fun call => call.key? = none) fun _ => True
  keys : ∀ {context : ExecutionContext Runtime} {running : Address} {rest : List Address},
    RunsTo host input context → context.runtimeStack = running :: rest →
      (ExecutionContext.step host input context).Calls (OnContract running) fun _ => True
  height : ∀ {context : ExecutionContext Runtime}, RunsTo host input context →
    context.invocationStack.length = context.runtimeStack.length
  top : ∀ {context : ExecutionContext Runtime} {running : Address} {rest : List Address},
    RunsTo host input context → context.runtimeStack = running :: rest →
      context.invocationStack.head?.map MethodInvocation.addr = some running ∧
        context.activeRuntimes running ≠ none
  invoked : ∀ {caller context : ExecutionContext Runtime}, RunsTo host input caller →
    Steps host input caller context → caller.frameEvent host = .invokes →
      ∃ callee frame, context.invocationStack = callee :: caller.invocationStack ∧
        context.runtimeStack = callee.addr :: caller.runtimeStack ∧
        context.invokeFrames = frame :: caller.invokeFrames
  kept : ∀ {context next : ExecutionContext Runtime}, RunsTo host input context →
    Steps host input context next → context.frameEvent host ≠ .invokes →
      context.frameEvent host ≠ .ends →
        next.invocationStack = context.invocationStack ∧
          next.runtimeStack = context.runtimeStack ∧ next.invokeFrames = context.invokeFrames
  popped : ∀ {context next : ExecutionContext Runtime}, RunsTo host input context →
    Steps host input context next → context.frameEvent host = .ends →
      next.invocationStack = context.invocationStack.tail ∧
        next.runtimeStack = context.runtimeStack.tail ∧
        next.invokeFrames = context.invokeFrames.tail
  waiting : ∀ {context : ExecutionContext Runtime} {frame : InvokeFrame}
    {rest : List InvokeFrame}, RunsTo host input context →
      frame :: rest <:+ context.invokeFrames →
        ∃ caller, RunsTo host input caller ∧ Nested host input caller context ∧
          caller.invokeFrames = rest
  sender : ∀ {caller context : ExecutionContext Runtime} {invoker : Address}
    {rest : List Address}, RunsTo host input caller → Nested host input caller context →
      Innermost caller context → caller.runtimeStack = invoker :: rest →
        getMsgSender context = .done (invoker, context)
  returned : ∀ {caller context next : ExecutionContext Runtime}, RunsTo host input caller →
    Nested host input caller context → context.frameEvent host = .ends →
      Innermost caller context → Steps host input context next →
        next.invocationStack = caller.invocationStack ∧
          next.runtimeStack = caller.runtimeStack ∧ next.invokeFrames = caller.invokeFrames

/-- Whatever the contracts do, wherever they fail and whatever the proxies answer: a storage
call names a key of the contract that makes it, an invocation pushes itself on each stack,
and once it has returned, however deep the calls inside it went, its caller finds the stacks
as it left them. -/
theorem storage_isolated : Isolated host input where
  root := by
    have entered := (invoke_subroutine_pushes host (.ofRoot input.tx.tx.invocation)
      fun call plain => plain).every .start ⟨rfl, rfl⟩
    exact calls_mono (fun _ _ => trivial) entered
  keys := by
    intro context running rest runs top
    obtain ⟨invocation, callers, stack⟩ :=
      invocations_nonempty runs (top ▸ List.cons_ne_nil running rest)
    have aligned := (runs_to_aligned runs).1
    rw [stack, top] at aligned
    cases aligned
    exact calls_mono (fun _ _ => trivial)
      ((step_stacks host input ⟨stack, rfl⟩).every context rfl)
  height runs := (runs_to_height runs).symm
  top := by
    intro context running rest runs top
    obtain ⟨aligned, active⟩ := runs_to_aligned runs
    rw [← List.head?_map, ← aligned, top]
    exact ⟨rfl, active running (top ▸ List.mem_cons_self)⟩
  invoked runs step invokes := invoke_pushes runs step invokes
  kept runs step inside goesOn := other_leaves runs step inside goesOn
  popped runs step ends := return_pops runs step ends
  waiting runs waiting := frames_wait runs waiting
  sender callerRuns nested innermost invoking := nested_sender callerRuns nested innermost invoking
  returned callerRuns nested ends innermost step :=
    returned_stacks callerRuns nested ends innermost step

end Isolated

/-- The root invokes a contract that invokes another. Both look up a key. -/
def lookUpTwice : List UInt8 → List RuntimeEvent
  | [0] => [.syscall 601 1 0 0 0 0 0]
  | [1] => [.syscall 601 2 0 0 0 0 0, .syscall 607 5 0 0 0 0 0]
  | [2] => [.syscall 607 5 0 0 0 0 0]
  | _ => []

/-- Once the innermost contract has returned, the other looks up a key of its own, sees
the root as its sender, and returns to the stacks of the root. -/
theorem storage_isolated_nested : ∃ caller back ending last,
    RunsTo (scripted lookUpTwice) (invokes 0) caller ∧
      Nested (scripted lookUpTwice) (invokes 0) caller back ∧
      back.runtimeStack = [1, 0] ∧
      (ExecutionContext.step (scripted lookUpTwice) (invokes 0) back).Calls (OnContract 1)
        (fun _ => True) ∧
      getMsgSender back = .done (0, back) ∧
      Steps (scripted lookUpTwice) (invokes 0) back ending ∧
      Steps (scripted lookUpTwice) (invokes 0) ending last ∧
      caller.runtimeStack = [0] ∧ last.invocationStack = caller.invocationStack ∧
      last.runtimeStack = caller.runtimeStack := by
  have ran : ∃ root middle inner done back ending last,
      (invokeSubroutine (scripted lookUpTwice) (.ofRoot (invokes 0).tx.tx.invocation)
        .start).answered [.script (some [0])] = some ((), root) ∧
      (ExecutionContext.step (scripted lookUpTwice) (invokes 0) root).answered
        [.script (some [1])] = some ((), middle) ∧
      (ExecutionContext.step (scripted lookUpTwice) (invokes 0) middle).answered
        [.script (some [2])] = some ((), inner) ∧
      (ExecutionContext.step (scripted lookUpTwice) (invokes 0) inner).answered
        [.value none] = some ((), done) ∧
      (ExecutionContext.step (scripted lookUpTwice) (invokes 0) done).answered [] =
        some ((), back) ∧
      (ExecutionContext.step (scripted lookUpTwice) (invokes 0) back).answered
        [.value none] = some ((), ending) ∧
      (ExecutionContext.step (scripted lookUpTwice) (invokes 0) ending).answered [] =
        some ((), last) ∧
      [root, middle, inner, done, back, ending].map (ExecutionContext.frameEvent
        (scripted lookUpTwice)) = [.invokes, .invokes, .other, .ends, .other, .ends] ∧
      [root, middle, inner, done, back, ending].map ExecutionContext.runtimeStack =
        [[0], [1, 0], [2, 1, 0], [2, 1, 0], [1, 0], [1, 0]] ∧
      [root, done, back, ending].map (fun context => context.invokeFrames.length) = [0, 2, 1, 1] :=
    ⟨_, _, _, _, _, _, _, rfl, rfl, rfl, rfl, rfl, rfl, rfl, rfl, rfl, rfl⟩
  obtain ⟨root, middle, inner, done, back, ending, last, entered, first, second, third, fourth,
    fifth, sixth, events, stacked, heights⟩ := ran
  simp only [List.map_cons, List.map_nil, List.cons.injEq, and_true] at events stacked heights
  obtain ⟨rootEvent, middleEvent, innerEvent, doneEvent, backEvent, endingEvent⟩ := events
  obtain ⟨rootStack, middleStack, innerStack, doneStack, backStack, endingStack⟩ := stacked
  obtain ⟨rootHeight, doneHeight, backHeight, endingHeight⟩ := heights
  have steps {context next : ExecutionContext (List RuntimeEvent)} {running : Address}
      {rest : List Address} {answers : List CallResult}
      (stack : context.runtimeStack = running :: rest)
      (answered : (ExecutionContext.step (scripted lookUpTwice) (invokes 0) context).answered
        answers = some ((), next)) : Steps (scripted lookUpTwice) (invokes 0) context next :=
    ⟨stack ▸ List.cons_ne_nil _ _, answered_returns answered⟩
  have runs : RunsTo (scripted lookUpTwice) (invokes 0) root := .entered (answered_returns entered)
  have inMiddle := Nested.entered (steps rootStack first) rootEvent
  have inInner := inMiddle.went (steps middleStack second) fun both => by
    cases middleEvent.symm.trans both.1
  have inDone := inInner.went (steps innerStack third) fun both => by
    cases innerEvent.symm.trans both.1
  -- the frame of the innermost contract is above the one of the root's `INVOKE`
  have inBack := inDone.went (steps doneStack fourth) fun both => by
    have single := (innermost_iff (nested_above runs inDone).2).mp both.2
    omega
  have inEnding := inBack.went (steps backStack fifth) fun both => by
    cases backEvent.symm.trans both.1
  have backRuns := (nested_above runs inBack).1
  have backInnermost := (innermost_iff (nested_above runs inBack).2).mpr (by omega)
  have endingInnermost := (innermost_iff (nested_above runs inEnding).2).mpr (by omega)
  have isolated := storage_isolated (scripted lookUpTwice) (invokes 0)
  have returned := isolated.returned runs inEnding endingEvent endingInnermost
    (steps endingStack sixth)
  exact ⟨root, back, ending, last, runs, inBack, backStack, isolated.keys backRuns backStack,
    isolated.sender runs inBack backInnermost rootStack, steps backStack fifth,
    steps endingStack sixth, rootStack, returned.1, returned.2.1⟩

end Scs
