import Mathlib.Algebra.Order.BigOperators.Group.List
import Scs.TransactionContext.ReturnData

/-!
# The gas of an execution

Every step of an execution consumes its charge, exactly and once, and the gas used is
the sum of the charges. So it is the cost of what the calls have asked for exactly in
the executions whose charges have not wrapped.
-/

namespace Scs

set_option autoImplicit false

open Handler Interaction

variable {Runtime Value : Type}

namespace ExecutionContext

def calldata (context : ExecutionContext Runtime) : List UInt8 :=
  match context.invocationStack with
  | [] => []
  | invocation :: _ => invocation.calldata

def event? (host : Host Runtime) (context : ExecutionContext Runtime) : Option RuntimeEvent :=
  (context.runtimeStack.head?.bind context.activeRuntimes).map host.wasm.next

/-- What the next step consumes if it does not fail. -/
def charge (host : Host Runtime) (input : Submission) (context : ExecutionContext Runtime) :
    UInt64 :=
  match context.event? host with
  | none => 0
  | some event => event.charge input context.calldata

def request (host : Host Runtime) (input : Submission) (context : ExecutionContext Runtime) :
    GasRequest :=
  match context.event? host with
  | none => .flat 0
  | some event => event.request input context.calldata

def ChargeFits (host : Host Runtime) (input : Submission) (context : ExecutionContext Runtime) :
    Prop :=
  match context.event? host with
  | none => True
  | some event => event.ChargeFits input

theorem charge_fits_of_event {host : Host Runtime} {input : Submission}
    {context : ExecutionContext Runtime} {event : RuntimeEvent}
    (happens : context.event? host = some event) (fits : event.ChargeFits input) :
    context.ChargeFits host input := by
  unfold ChargeFits
  rw [happens]
  exact fits

theorem bills (host : Host Runtime) (input : Submission) (context : ExecutionContext Runtime) :
    Bills (context.charge host input) (context.request host input)
      (context.ChargeFits host input) := by
  unfold charge request ChargeFits
  cases context.event? host with
  | none => exact bills_flat 0
  | some event => exact event_bills input context.calldata event

end ExecutionContext

structure Due (gasUsed : UInt64) (calldata : List UInt8)
    (context : ExecutionContext Runtime) : Prop where
  used : context.gasUsed = gasUsed
  calldata : context.calldata = calldata

/-- What has been used after a charge. A charge that is made stays below the limit, so the
sum of the gas never wraps. -/
structure Spent (input : Submission) (gasUsed cost : UInt64)
    (context : ExecutionContext Runtime) : Prop where
  total : context.gasUsed.toNat = gasUsed.toNat + cost.toNat
  within : context.gasUsed = gasUsed ∨ context.gasUsed < input.tx.tx.gasLimit

/-! ## One step -/

section Steps

variable {host : Host Runtime} {input : Submission} {pointer : Address} {gasUsed cost : UInt64}
  {calldata : List UInt8} {context next : ExecutionContext Runtime}

theorem spent_memory {target : Address} {runtime : Runtime}
    (spent : Spent input gasUsed cost context) :
    Spent input gasUsed cost (context.setRuntime target runtime) where
  total := spent.total
  within := spent.within

theorem spent_nothing (same : context.gasUsed = gasUsed) : Spent input gasUsed 0 context where
  total := by rw [same, UInt64.toNat_zero, Nat.add_zero]
  within := .inl same

theorem consume_gas_spends (input : Submission) (cost : UInt64) :
    CallTriple (Due gasUsed calldata) (fun _ => True)
      (consumeGas input cost : HandlerM Runtime Unit) fun _ => Spent input gasUsed cost := by
  apply call_triple_read
  intro context due
  dsimp only
  rw [due.used]
  by_cases overflow : UInt64.size ≤ gasUsed.toNat + cost.toNat
  · rw [if_pos overflow]
    trivial
  · rw [if_neg overflow]
    have total : (gasUsed + cost).toNat = gasUsed.toNat + cost.toNat := by
      rw [UInt64.toNat_add]
      exact Nat.mod_eq_of_lt (Nat.not_le.mp overflow)
    by_cases reached : input.tx.tx.gasLimit ≤ gasUsed + cost
    · rw [if_pos reached]
      trivial
    · rw [if_neg reached]
      exact ⟨total, .inr (UInt64.not_le.mp reached)⟩

theorem current_invocation_due :
    CallTriple (Due gasUsed calldata) (fun _ => True)
      (getCurrentMethodInvocation : HandlerM Runtime MethodInvocation)
      fun current context => Due gasUsed calldata context ∧ current.calldata = calldata := by
  apply call_triple_read
  intro context due
  have read := due.calldata
  unfold ExecutionContext.calldata at read
  cases stack : context.invocationStack with
  | nil => trivial
  | cons invocation callers =>
      rw [stack] at read
      exact ⟨due, read⟩

theorem Metered.spends {own : AddressAndKey → Prop} {price : List UInt8 → UInt64}
    {handler : HandlerM Runtime Value} (metered : Metered host input pointer own price handler) :
    CallTriple (Due gasUsed calldata) (fun _ => True) handler
      fun _ => Spent input gasUsed (price calldata) := by
  induction metered with
  | free unmetered =>
      constructor
      intro context due
      have kept : CallKeeps (fun other : ExecutionContext Runtime => other.gasUsed = gasUsed)
          (fun _ => True) _ :=
        unmetered.leaves (fun same => same) (fun same => same) grants_any fun _ _ _ _ => trivial
      exact calls_mono (fun _ => spent_nothing) (kept.every context due.used)
  | charged later =>
      apply call_triple_bind (consume_gas_spends input _)
      intro paid
      exact (later paid).leaves spent_memory (fun spent => ⟨spent.total, spent.within⟩) grants_any
        fun _ _ _ _ => trivial
  | fails what => exact call_triple_raise
  | invocation later laterSpends =>
      apply call_triple_bind current_invocation_due
      intro current
      apply call_triple_given
      intro read
      rw [← read]
      rw [← read] at laterSpends
      exact laterSpends current

variable (host input)

theorem invokes_spends (arg0 arg1 arg2 arg3 arg4 arg5 : UInt64) :
    CallTriple (Due gasUsed calldata) (fun _ => True)
      (syscallHandler host input pointer .invoke arg0 arg1 arg2 arg3 arg4 arg5)
      fun _ => Spent input gasUsed
        (Syscall.charge input calldata arg0 arg1 arg2 arg3 arg5 .invoke) := by
  have called : CallTriple (Due gasUsed calldata) (fun _ => True)
      (handleInvoke host input pointer arg0 arg1 arg2 arg3 arg4 arg5)
      fun _ => Spent input gasUsed (gasInvoke (arg3.toUInt32 + arg5.toUInt32).toUInt64) := by
    apply leaves_handle_invoke host spent_memory input
      (fun _ => Spent input gasUsed (gasInvoke (arg3.toUInt32 + arg5.toUInt32).toUInt64))
      (consume_gas_spends input _) spent_memory fun _ _ => trivial
    · exact fun _ _ spent => ⟨spent.total, spent.within⟩
    · exact fun _ _ spent => ⟨spent.total, spent.within⟩
  exact call_triple_bind called fun _ => leaves_pure none

theorem returns_spends (arg0 arg1 arg2 arg3 arg4 arg5 : UInt64) :
    CallTriple (Due gasUsed calldata) (fun _ => True)
      (syscallHandler host input pointer .returns arg0 arg1 arg2 arg3 arg4 arg5)
      fun _ => Spent input gasUsed
        (Syscall.charge input calldata arg0 arg1 arg2 arg3 arg5 .returns) := by
  have buffered (bytes : List UInt8) :
      CallKeeps (Spent input gasUsed (gasReturn arg1.toUInt32.toUInt64)) (fun _ => True)
        (modify fun context => { context with returnBuf := bytes } : HandlerM Runtime Unit) :=
    call_triple_modify fun _ spent => ⟨spent.total, spent.within⟩
  apply call_triple_bind (consume_gas_spends input _)
  intro _
  apply call_triple_bind (leaves_load host _ _)
  intro bytes
  exact call_triple_bind (buffered bytes.toList) fun _ => leaves_pure _

theorem returned_spends :
    CallTriple (Due gasUsed calldata) (fun _ => True) (handleEvent host input pointer .returned)
      fun _ => Spent input gasUsed 0 := by
  constructor
  intro context due
  have kept : CallTriple (Due gasUsed calldata) (fun _ => True)
      (handleEvent host input pointer .returned) fun _ other => other.gasUsed = gasUsed :=
    leaves_returned host (fun same => same) input (fun _ due => due.used) (fun same => same)
      fun same => same
  exact calls_mono (fun _ => spent_nothing) (kept.every context due)

/-- Every call into the host consumes its charge and nothing else. -/
theorem handle_event_spends (event : RuntimeEvent) :
    CallTriple (Due gasUsed calldata) (fun _ => True) (handleEvent host input pointer event)
      fun _ => Spent input gasUsed (event.charge input calldata) := by
  cases event.bears with
  | ordinary ordinary =>
      have metered : Metered host input pointer (fun _ => False) (fun calldata =>
          event.charge input calldata) (handleEvent host input pointer event) :=
        event_metered ordinary
      exact metered.spends
  | invokes known =>
      unfold handleEvent RuntimeEvent.charge
      dsimp only
      rw [known]
      exact invokes_spends host input _ _ _ _ _ _
  | passes known =>
      unfold handleEvent RuntimeEvent.charge
      dsimp only
      rw [known]
      exact returns_spends host input _ _ _ _ _ _
  | ends => exact returned_spends host input

theorem step_spends :
    CallTriple (fun state => state = context) (fun _ => True) (ExecutionContext.step host input)
      fun _ => Spent input context.gasUsed (context.charge host input) := by
  apply call_triple_bind current_runtime_exact
  intro pointer
  apply call_triple_given
  intro top
  apply call_triple_bind deref_exact
  intro runtime
  apply call_triple_given
  intro found
  have charged : context.charge host input =
      (host.wasm.next runtime).charge input context.calldata := by
    unfold ExecutionContext.charge ExecutionContext.event?
    rw [top, Option.bind_some, found]
    rfl
  have handled : CallTriple (fun state => state = context) (fun _ => True)
      (handleEvent host input pointer (host.wasm.next runtime))
      fun _ => Spent input context.gasUsed (context.charge host input) := by
    rw [charged]
    constructor
    intro state same
    rw [same]
    exact (handle_event_spends host input _).every context ⟨rfl, rfl⟩
  apply call_triple_bind handled
  intro ret
  exact leaves_finished host spent_memory ret

variable {host input}

theorem steps_spend (step : Steps host input context next) :
    Spent input context.gasUsed (context.charge host input) next := by
  have spent := call_triple_returns (step_spends host input) rfl step.2
  exact spent

end Steps

/-! ## Whole executions -/

section Runs

variable {host : Host Runtime} {input : Submission} {context next : ExecutionContext Runtime}

/-- The contexts that an execution has gone on from, up to one of its contexts. -/
inductive RunsThrough (host : Host Runtime) (input : Submission) :
    List (ExecutionContext Runtime) → ExecutionContext Runtime → Prop
  | entered {context : ExecutionContext Runtime}
      (returned : CanReturn ((), context)
        (invokeSubroutine host (.ofRoot input.tx.tx.invocation) .start)) :
      RunsThrough host input [] context
  | went {passed : List (ExecutionContext Runtime)} {context next : ExecutionContext Runtime}
      (earlier : RunsThrough host input passed context) (step : Steps host input context next) :
      RunsThrough host input (passed ++ [context]) next

def chargedGas (host : Host Runtime) (input : Submission)
    (passed : List (ExecutionContext Runtime)) : ℕ :=
  (passed.map fun context => (context.charge host input).toNat).sum

def requestedGas (host : Host Runtime) (input : Submission)
    (passed : List (ExecutionContext Runtime)) : ℕ :=
  (passed.map fun context => (context.request host input).cost).sum

variable {passed : List (ExecutionContext Runtime)}

theorem charged_gas_snoc :
    chargedGas host input (passed ++ [context]) =
      chargedGas host input passed + (context.charge host input).toNat := by
  unfold chargedGas
  rw [List.map_append, List.sum_append, List.map_singleton, List.sum_singleton]

theorem entered_unspent (returned : CanReturn ((), context)
    (invokeSubroutine host (.ofRoot input.tx.tx.invocation) .start)) : context.gasUsed = 0 := by
  have kept : CallKeeps (fun other : ExecutionContext Runtime => other.gasUsed = 0)
      (fun _ => True) (invokeSubroutine host (.ofRoot input.tx.tx.invocation)) :=
    leaves_invoke_subroutine host (fun same => same) (fun same => same) (fun _ _ => trivial)
      fun _ same => same
  have unspent := call_triple_returns kept rfl returned
  exact unspent

theorem runs_through_runs (runs : RunsThrough host input passed context) :
    RunsTo host input context := by
  induction runs with
  | entered returned => exact .entered returned
  | went earlier step induction => exact .went induction step

theorem runs_to_iff_runs_through :
    RunsTo host input context ↔ ∃ passed, RunsThrough host input passed context := by
  constructor
  · intro runs
    induction runs with
    | entered returned => exact ⟨[], .entered returned⟩
    | went earlier step induction =>
        cases induction with
        | intro passed runs => exact ⟨_, runs.went step⟩
  · intro ⟨passed, runs⟩
    exact runs_through_runs runs

theorem gas_used_charged (runs : RunsThrough host input passed context) :
    context.gasUsed.toNat = chargedGas host input passed := by
  induction runs with
  | entered returned =>
      rw [entered_unspent returned]
      rfl
  | went earlier step induction =>
      rw [charged_gas_snoc, (steps_spend step).total, induction]

theorem charged_gas_exact_iff (passed : List (ExecutionContext Runtime)) :
    chargedGas host input passed = requestedGas host input passed ↔
      ∀ context ∈ passed, context.ChargeFits host input := by
  constructor
  · intro exact context member
    by_contra wraps
    have charge := context.bills host input
    have short : (context.charge host input).toNat < (context.request host input).cost :=
      lt_of_le_of_ne charge.le fun same => wraps (charge.exact_iff.mp same)
    have less : chargedGas host input passed < requestedGas host input passed :=
      List.sum_lt_sum _ _ (fun other _ => (other.bills host input).le) ⟨context, member, short⟩
    exact less.ne exact
  · intro fits
    unfold chargedGas requestedGas
    congr 1
    apply List.map_congr_left
    intro context member
    exact (context.bills host input).exact_iff.mpr (fits context member)

theorem gas_used_within (runs : RunsTo host input context) :
    context.gasUsed = 0 ∨ context.gasUsed < input.tx.tx.gasLimit := by
  induction runs with
  | entered returned => exact .inl (entered_unspent returned)
  | went earlier step induction =>
      cases (steps_spend step).within with
      | inl same => rwa [same]
      | inr below => exact .inr below

theorem below_limit_iff (runs : RunsTo host input context) :
    context.gasUsed < input.tx.tx.gasLimit ↔ 0 < input.tx.tx.gasLimit := by
  constructor
  · intro below
    exact UInt64.lt_of_le_of_lt UInt64.zero_le below
  · intro positive
    cases gas_used_within runs with
    | inl unspent =>
        rw [unspent]
        exact positive
    | inr below => exact below

end Runs

/-! ## Gas is charged for what is requested -/

/-- The gas of every execution: it fails with `HostError` only, a step consumes what it
asks for exactly if its charge does not wrap, and so does a whole run. The gas used stays
below every limit but 0. -/
structure ExactGas (host : Host Runtime) (input : Submission) : Prop where
  failed : ∀ {results : List CallResult} {thrown : Thrown},
    Reaches host input results (.throws thrown) → thrown.IsHostError
  charged_iff : ∀ {context next : ExecutionContext Runtime}, Steps host input context next →
    (next.gasUsed.toNat = context.gasUsed.toNat + (context.request host input).cost ↔
      context.ChargeFits host input)
  traced : ∀ {context : ExecutionContext Runtime}, RunsTo host input context ↔
    ∃ passed, RunsThrough host input passed context
  total : ∀ {passed : List (ExecutionContext Runtime)} {context : ExecutionContext Runtime},
    RunsThrough host input passed context →
      context.gasUsed.toNat = chargedGas host input passed
  exact_iff : ∀ {passed : List (ExecutionContext Runtime)} {context : ExecutionContext Runtime},
    RunsThrough host input passed context →
      (context.gasUsed.toNat = requestedGas host input passed ↔
        ∀ earlier ∈ passed, earlier.ChargeFits host input)
  below_iff : ∀ {context : ExecutionContext Runtime}, RunsTo host input context →
    (context.gasUsed < input.tx.tx.gasLimit ↔ 0 < input.tx.tx.gasLimit)

/-- Whatever the contracts do and whatever the proxies answer, a step consumes what it has
asked for exactly when its charge does not wrap, and so does a whole run. -/
theorem gas_charged_iff (host : Host Runtime) (input : Submission) : ExactGas host input where
  failed := reaches_host_error
  charged_iff := by
    intro context next step
    rw [(steps_spend step).total, Nat.add_left_cancel_iff]
    exact (context.bills host input).exact_iff
  traced := runs_to_iff_runs_through
  total := gas_used_charged
  exact_iff := by
    intro passed context runs
    rw [gas_used_charged runs]
    exact charged_gas_exact_iff passed
  below_iff := below_limit_iff

/-- The root hands two bytes to a contract, which passes one back. -/
def takesOne : List UInt8 → List RuntimeEvent
  | [0] => [.syscall 601 1 0 0 2 0 1]
  | [1] => [.syscall 626 0 1 0 0 0 0]
  | _ => []

theorem gas_charged_nested : ∃ passed context,
    RunsThrough (scripted takesOne) (invokes 0) passed context ∧ context.runtimeStack = [] ∧
      context.gasUsed.toNat = requestedGas (scripted takesOne) (invokes 0) passed := by
  have ran : ∃ entered invoked passed returned last,
      (invokeSubroutine (scripted takesOne) (.ofRoot (invokes 0).tx.tx.invocation)
        .start).answered [.script (some [0])] = some ((), entered) ∧
      (ExecutionContext.step (scripted takesOne) (invokes 0) entered).answered
        [.script (some [1])] = some ((), invoked) ∧
      (ExecutionContext.step (scripted takesOne) (invokes 0) invoked).answered [] =
        some ((), passed) ∧
      (ExecutionContext.step (scripted takesOne) (invokes 0) passed).answered [] =
        some ((), returned) ∧
      (ExecutionContext.step (scripted takesOne) (invokes 0) returned).answered [] =
        some ((), last) ∧
      entered.runtimeStack ≠ [] ∧ invoked.runtimeStack ≠ [] ∧ passed.runtimeStack ≠ [] ∧
      returned.runtimeStack ≠ [] ∧ last.runtimeStack = [] ∧
      [entered, invoked, passed, returned].map (ExecutionContext.event? (scripted takesOne)) =
        [some (.syscall 601 1 0 0 2 0 1), some (.syscall 626 0 1 0 0 0 0), some .returned,
          some .returned] :=
    ⟨_, _, _, _, _, rfl, rfl, rfl, rfl, rfl, List.cons_ne_nil _ _, List.cons_ne_nil _ _,
      List.cons_ne_nil _ _, List.cons_ne_nil _ _, rfl, rfl⟩
  obtain ⟨entered, invoked, passed, returned, last, enters, goesIn, passes, comesBack, ends, atRoot,
    inside, still, back, empty, events⟩ := ran
  have first := RunsThrough.entered (answered_returns enters)
  have second := first.went ⟨atRoot, answered_returns goesIn⟩
  have third := second.went ⟨inside, answered_returns passes⟩
  have fourth := third.went ⟨still, answered_returns comesBack⟩
  have finished := fourth.went ⟨back, answered_returns ends⟩
  refine ⟨_, last, finished, empty,
    ((gas_charged_iff (scripted takesOne) (invokes 0)).exact_iff finished).mpr ?_⟩
  intro earlier member
  have happens := List.mem_map_of_mem (f := ExecutionContext.event? (scripted takesOne)) member
  change _ ∈ [entered, invoked, passed, returned].map
    (ExecutionContext.event? (scripted takesOne)) at happens
  rw [events] at happens
  simp only [List.mem_cons, List.not_mem_nil, or_false] at happens
  rcases happens with invoke | pass | halt | halt
  · exact ExecutionContext.charge_fits_of_event invoke (show _ + _ < _ by decide)
  · exact ExecutionContext.charge_fits_of_event pass trivial
  · exact ExecutionContext.charge_fits_of_event halt trivial
  · exact ExecutionContext.charge_fits_of_event halt trivial

/-! ## A sum of lengths that wraps -/

/-- The root hands one byte to a contract that does nothing, and takes as much back as
a length can say. -/
def takesAll : List UInt8 → List RuntimeEvent
  | [0] => [.syscall 601 1 0 0 1 0 0xFFFFFFFF]
  | _ => []

/-- The execution returns, and has paid for none of the bytes that its one `INVOKE` has
asked for. -/
theorem wrapped_invoke_underpays : ∃ passed context,
    RunsThrough (scripted takesAll) (invokes 0) passed context ∧ context.runtimeStack = [] ∧
      context.gasUsed = 10000 ∧
      requestedGas (scripted takesAll) (invokes 0) passed = 10000 + 2 * 2 ^ 32 := by
  have ran : ∃ entered invoked returned last,
      (invokeSubroutine (scripted takesAll) (.ofRoot (invokes 0).tx.tx.invocation)
        .start).answered [.script (some [0])] = some ((), entered) ∧
      (ExecutionContext.step (scripted takesAll) (invokes 0) entered).answered
        [.script (some [1])] = some ((), invoked) ∧
      (ExecutionContext.step (scripted takesAll) (invokes 0) invoked).answered [] =
        some ((), returned) ∧
      (ExecutionContext.step (scripted takesAll) (invokes 0) returned).answered [] =
        some ((), last) ∧
      entered.runtimeStack ≠ [] ∧ invoked.runtimeStack ≠ [] ∧ returned.runtimeStack ≠ [] ∧
      last.runtimeStack = [] ∧ last.gasUsed = 10000 ∧
      requestedGas (scripted takesAll) (invokes 0) [entered, invoked, returned] =
        10000 + 2 * 2 ^ 32 :=
    ⟨_, _, _, _, rfl, rfl, rfl, rfl, List.cons_ne_nil _ _, List.cons_ne_nil _ _,
      List.cons_ne_nil _ _, rfl, rfl, rfl⟩
  obtain ⟨entered, invoked, returned, last, enters, invokes, returns, ends, atRoot, inside, back,
    empty, used, requested⟩ := ran
  have first := RunsThrough.entered (answered_returns enters)
  have second := first.went ⟨atRoot, answered_returns invokes⟩
  have third := second.went ⟨inside, answered_returns returns⟩
  have finished := third.went ⟨back, answered_returns ends⟩
  exact ⟨_, last, finished, empty, used, requested⟩

end Scs
