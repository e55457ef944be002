import Mathlib.Data.List.Basic

/-!
# Programs that ask

A program returns a value, throws an error, or asks its environment and goes on
with the answer. What holds of it holds for all answers.
-/

namespace Scs

set_option autoImplicit false

universe u v

inductive Interaction (Call Answer : Type u) (Error : Type v) (Value : Type u) :
    Type (max u v) where
  | done (value : Value)
  | throws (error : Error)
  | asks (call : Call) (next : Answer → Interaction Call Answer Error Value)

namespace Interaction

variable {Call Answer : Type u} {Error : Type v} {Value Next : Type u}

def bind (program : Interaction Call Answer Error Value)
    (next : Value → Interaction Call Answer Error Next) :
    Interaction Call Answer Error Next :=
  match program with
  | .done value => next value
  | .throws error => .throws error
  | .asks call later => .asks call fun answer => (later answer).bind next

instance : Monad (Interaction Call Answer Error) where
  pure := .done
  bind := .bind

/-- Every value that the program can return is in `post`, and every error that it
can throw in `good`. -/
def Every (good : Error → Prop) (post : Value → Prop) :
    Interaction Call Answer Error Value → Prop
  | .done value => post value
  | .throws error => good error
  | .asks _ next => ∀ answer, (next answer).Every good post

variable {good : Error → Prop} {post : Value → Prop}
  {program : Interaction Call Answer Error Value}
  {next : Value → Interaction Call Answer Error Next}

theorem every_bind {later : Next → Prop} :
    (program >>= next).Every good later ↔
      program.Every good fun value => (next value).Every good later := by
  induction program with
  | done value => rfl
  | throws error => rfl
  | asks call rest induction => exact forall_congr' induction

theorem every_mono {wider : Value → Prop} (imply : ∀ value, post value → wider value)
    (every : program.Every good post) : program.Every good wider := by
  induction program with
  | done value => exact imply value every
  | throws error => exact every
  | asks call rest induction => exact fun answer => induction answer (every answer)

/-- Every call that the program makes is in `good`, and every value that it can
return in `post`. -/
def Calls (good : Call → Prop) (post : Value → Prop) :
    Interaction Call Answer Error Value → Prop
  | .done value => post value
  | .throws _ => True
  | .asks call next => good call ∧ ∀ answer, (next answer).Calls good post

theorem calls_bind {fine : Call → Prop} {later : Next → Prop} :
    (program >>= next).Calls fine later ↔
      program.Calls fine fun value => (next value).Calls fine later := by
  induction program with
  | done value => rfl
  | throws error => rfl
  | asks call rest induction => exact and_congr_right fun _ => forall_congr' induction

theorem calls_mono {fine : Call → Prop} {wider : Value → Prop}
    (imply : ∀ value, post value → wider value) (calls : program.Calls fine post) :
    program.Calls fine wider := by
  induction program with
  | done value => exact imply value calls
  | throws error => trivial
  | asks call rest induction => exact ⟨calls.1, fun answer => induction answer (calls.2 answer)⟩

inductive CanReturn (value : Value) : Interaction Call Answer Error Value → Prop
  | done : CanReturn value (.done value)
  | answered {call : Call} {next : Answer → Interaction Call Answer Error Value} (answer : Answer)
      (later : CanReturn value (next answer)) : CanReturn value (.asks call next)

theorem calls_return {fine : Call → Prop} {value : Value} (calls : program.Calls fine post)
    (returned : CanReturn value program) : post value := by
  induction returned with
  | done => exact calls
  | answered answer later induction => exact induction (calls.2 answer)

def answered : List Answer → Interaction Call Answer Error Value → Option Value
  | [], .done value => some value
  | answer :: later, .asks _ next => (next answer).answered later
  | _, _ => none

theorem answered_returns {answers : List Answer} {value : Value}
    (ran : program.answered answers = some value) : CanReturn value program := by
  induction program generalizing answers with
  | done result =>
      cases answers with
      | nil =>
          cases ran
          exact .done
      | cons answer later => cases ran
  | throws error => cases answers <;> cases ran
  | asks call next induction =>
      cases answers with
      | nil => cases ran
      | cons answer later => exact .answered answer (induction answer ran)

/-- The program returns the value after these calls, whatever they were answered. -/
inductive Makes (value : Value) : List Call → Interaction Call Answer Error Value → Prop
  | done : Makes value [] (.done value)
  | answered {call : Call} {calls : List Call} {next : Answer → Interaction Call Answer Error Value}
      (answer : Answer) (later : Makes value calls (next answer)) :
      Makes value (call :: calls) (.asks call next)

theorem makes_pure {result value : Value} {calls : List Call} :
    Makes value calls (pure result : Interaction Call Answer Error Value) ↔
      calls = [] ∧ value = result := by
  constructor
  · intro made
    cases made with
    | done => exact ⟨rfl, rfl⟩
  · rintro ⟨rfl, rfl⟩
    exact .done

theorem makes_bind {value : Next} {calls : List Call} :
    Makes value calls (program >>= next) ↔
      ∃ middle earlier later, calls = earlier ++ later ∧ Makes middle earlier program ∧
        Makes value later (next middle) := by
  constructor
  · intro made
    induction program generalizing calls with
    | done middle => exact ⟨middle, [], calls, rfl, .done, made⟩
    | throws error => cases made
    | asks call rest induction =>
        cases made with
        | answered answer later =>
            obtain ⟨middle, earlier, last, rfl, first, second⟩ := induction answer later
            exact ⟨middle, _ :: earlier, last, rfl, .answered answer first, second⟩
  · rintro ⟨middle, earlier, later, rfl, first, second⟩
    induction first with
    | done => exact second
    | answered answer before induction => exact .answered answer induction

end Interaction

/-! ## Programs with a state -/

abbrev Handler (State Call Answer : Type u) (Error : Type v) :=
  StateT State (Interaction Call Answer Error)

namespace Handler

variable {State Call Answer : Type u} {Error : Type v} {Value Next : Type u}

def ask (call : Call) : Handler State Call Answer Error Answer :=
  fun state => .asks call fun answer => .done (answer, state)

def raise (error : Error) : Handler State Call Answer Error Value := fun _ => .throws error

/-- From a state in `pre` the program returns in `post` or throws a good error. -/
structure Triple (pre : State → Prop) (good : Error → Prop)
    (handler : Handler State Call Answer Error Value) (post : Value → State → Prop) : Prop where
  every : ∀ state, pre state → (handler state).Every good fun result => post result.1 result.2

/-- The program keeps the invariant and throws good errors only. -/
abbrev Keeps (invariant : State → Prop) (good : Error → Prop)
    (handler : Handler State Call Answer Error Value) : Prop :=
  Triple invariant good handler fun _ => invariant

variable {pre invariant : State → Prop} {good : Error → Prop} {post : Next → State → Prop}
  {handler : Handler State Call Answer Error Value}
  {next : Value → Handler State Call Answer Error Next}

theorem triple_pure {answer : Next} (holds : ∀ state, pre state → post answer state) :
    Triple pre good (pure answer : Handler State Call Answer Error Next) post :=
  ⟨fun state before => holds state before⟩

theorem triple_bind {middle : Value → State → Prop} (first : Triple pre good handler middle)
    (later : ∀ value, Triple (middle value) good (next value) post) :
    Triple pre good (handler >>= next) post := by
  constructor
  intro state before
  apply Interaction.every_bind.mpr
  apply Interaction.every_mono _ (first.every state before)
  exact fun result between => (later result.1).every result.2 between

theorem triple_raise {error : Error} (fine : good error) :
    Triple pre good (raise error : Handler State Call Answer Error Next) post :=
  ⟨fun _ _ => fine⟩

theorem triple_get : Triple pre good (get : Handler State Call Answer Error State)
    fun value state => value = state ∧ pre state :=
  ⟨fun _ before => ⟨rfl, before⟩⟩

theorem triple_modify {change : State → State} {after : State → Prop}
    (changes : ∀ state, pre state → after (change state)) :
    Triple pre good (modify change : Handler State Call Answer Error PUnit) fun _ => after :=
  ⟨fun state before => changes state before⟩

theorem triple_weaken {stronger : State → Prop} {after : Value → State → Prop}
    (imply : ∀ state, stronger state → pre state) (triple : Triple pre good handler after) :
    Triple stronger good handler after :=
  ⟨fun state before => triple.every state (imply state before)⟩

theorem triple_relax {handler : Handler State Call Answer Error Next}
    {wider : Next → State → Prop} (triple : Triple pre good handler post)
    (imply : ∀ value state, post value state → wider value state) :
    Triple pre good handler wider :=
  ⟨fun state before =>
    Interaction.every_mono (fun result => imply result.1 result.2) (triple.every state before)⟩

theorem triple_read {next : State → Handler State Call Answer Error Next}
    (later : ∀ state, pre state → ((next state) state).Every good fun result =>
      post result.1 result.2) : Triple pre good (get >>= next) post :=
  ⟨later⟩

theorem keeps_ask (call : Call) :
    Keeps invariant good (ask call : Handler State Call Answer Error Answer) :=
  ⟨fun _ holds _ => holds⟩

/-- From a state in `pre` the program makes good calls only, and returns in `post`
if it returns. -/
structure CallTriple (pre : State → Prop) (fine : Call → Prop)
    (handler : Handler State Call Answer Error Value) (post : Value → State → Prop) : Prop where
  every : ∀ state, pre state → (handler state).Calls fine fun result => post result.1 result.2

abbrev CallKeeps (invariant : State → Prop) (fine : Call → Prop)
    (handler : Handler State Call Answer Error Value) : Prop :=
  CallTriple invariant fine handler fun _ => invariant

section CallTriple

variable {fine : Call → Prop}

theorem call_triple_pure {answer : Next} (holds : ∀ state, pre state → post answer state) :
    CallTriple pre fine (pure answer : Handler State Call Answer Error Next) post :=
  ⟨fun state before => holds state before⟩

theorem call_triple_bind {middle : Value → State → Prop}
    (first : CallTriple pre fine handler middle)
    (later : ∀ value, CallTriple (middle value) fine (next value) post) :
    CallTriple pre fine (handler >>= next) post := by
  constructor
  intro state before
  apply Interaction.calls_bind.mpr
  apply Interaction.calls_mono _ (first.every state before)
  exact fun result between => (later result.1).every result.2 between

theorem call_triple_raise {error : Error} :
    CallTriple pre fine (raise error : Handler State Call Answer Error Next) post :=
  ⟨fun _ _ => trivial⟩

theorem call_triple_modify {change : State → State} {after : State → Prop}
    (changes : ∀ state, pre state → after (change state)) :
    CallTriple pre fine (modify change : Handler State Call Answer Error PUnit) fun _ => after :=
  ⟨fun state before => changes state before⟩

theorem call_triple_read {next : State → Handler State Call Answer Error Next}
    (later : ∀ state, pre state → ((next state) state).Calls fine fun result =>
      post result.1 result.2) : CallTriple pre fine (get >>= next) post :=
  ⟨later⟩

/-- What goes on with a state that has been read, whatever was read. -/
theorem call_triple_get {next : State → Handler State Call Answer Error Next}
    (later : ∀ value, CallTriple pre fine (next value) post) :
    CallTriple pre fine (get >>= next) post :=
  ⟨fun state before => (later state).every state before⟩

theorem call_triple_given {fact : Prop} {handler : Handler State Call Answer Error Next}
    (later : fact → CallTriple pre fine handler post) :
    CallTriple (fun state => pre state ∧ fact) fine handler post :=
  ⟨fun state before => (later before.2).every state before.1⟩

theorem call_triple_ask {call : Call} (good : fine call) :
    CallTriple pre fine (ask call : Handler State Call Answer Error Answer) fun _ => pre :=
  ⟨fun _ holds => ⟨good, fun _ => holds⟩⟩

theorem call_triple_returns {handler : Handler State Call Answer Error Next} {value : Next}
    {state after : State} (triple : CallTriple pre fine handler post) (before : pre state)
    (returned : Interaction.CanReturn (value, after) (handler state)) : post value after := by
  have holds := Interaction.calls_return (triple.every state before) returned
  exact holds

end CallTriple

end Handler

end Scs
