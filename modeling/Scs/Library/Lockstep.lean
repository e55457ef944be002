import Mathlib.Data.List.Forall2
import Mathlib.Data.Option.Basic

/-!
# Two executions in lockstep

Relational rules for computations that may fail, and for what an observer sees
of a sequence of operations. Related states answer alike as long as every
operation relates their successors.
-/

namespace Lockstep

set_option autoImplicit false

section Returns

universe u

variable {Fault : Type*} {First Second Third Fourth : Type u}

/-- Both computations fail in the same way, or return related values. -/
inductive Returns (related : First → Second → Prop) :
    Except Fault First → Except Fault Second → Prop
  | fault (fault : Fault) : Returns related (.error fault) (.error fault)
  | value {left : First} {right : Second} (same : related left right) :
      Returns related (.ok left) (.ok right)

variable {related : First → Second → Prop} {next : Third → Fourth → Prop}
  {left : Except Fault First} {right : Except Fault Second}

theorem returns_bind {leftNext : First → Except Fault Third}
    {rightNext : Second → Except Fault Fourth} (first : Returns related left right)
    (rest : ∀ leftValue rightValue, related leftValue rightValue →
      Returns next (leftNext leftValue) (rightNext rightValue)) :
    Returns next (left >>= leftNext) (right >>= rightNext) := by
  cases first with
  | fault fault => exact .fault fault
  | value same => exact rest _ _ same

theorem to_option_some {computed : Except Fault First} {value : First}
    (some_value : computed.toOption = some value) : computed = .ok value := by
  cases computed with
  | error fault => cases some_value
  | ok other =>
      cases some_value
      rfl

/-- A sequence of two computations returns exactly when both do. -/
theorem bind_ok_iff {computed : Except Fault First} {rest : First → Except Fault Third}
    {result : Third} :
    computed >>= rest = .ok result ↔
      ∃ value, computed = .ok value ∧ rest value = .ok result := by
  cases computed with
  | error fault =>
      constructor
      · intro impossible
        cases impossible
      · rintro ⟨value, impossible, _⟩
        cases impossible
  | ok value =>
      constructor
      · intro returned
        exact ⟨value, rfl, returned⟩
      · rintro ⟨other, same, returned⟩
        cases same
        exact returned

end Returns

section Observe

variable {State Operation Observation : Type*}
  (perform : State → Operation → Observation × Option State)

/-- What a sequence of operations shows, up to the first that does not return. -/
def observe : List Operation → State → List Observation
  | [], _ => []
  | operation :: rest, state =>
      match perform state operation with
      | (observation, some next) => observation :: observe rest next
      | (observation, none) => [observation]

variable {perform}

theorem observe_related (related : State → State → Prop) (same : Operation → Operation → Prop)
    (respects : ∀ left right operation other, related left right → same operation other →
      (perform left operation).1 = (perform right other).1 ∧
        Option.Rel related (perform left operation).2 (perform right other).2)
    {operations others : List Operation} (paired : List.Forall₂ same operations others)
    {left right : State} (states : related left right) :
    observe perform operations left = observe perform others right := by
  induction paired generalizing left right with
  | nil => rfl
  | @cons operation other rest otherRest pair _ induction =>
      obtain ⟨shown, nexts⟩ := respects left right operation other states pair
      simp only [observe]
      generalize perform left operation = first at shown nexts
      generalize perform right other = second at shown nexts
      obtain ⟨leftShown, leftNext⟩ := first
      obtain ⟨rightShown, rightNext⟩ := second
      cases nexts with
      | none => exact congrArg (fun observation => [observation]) shown
      | some states => exact congrArg₂ List.cons shown (induction states)

theorem observe_head (operation : Operation) (rest : List Operation) (state : State) :
    (observe perform (operation :: rest) state).head? = some (perform state operation).1 := by
  simp only [observe]
  generalize perform state operation = result
  obtain ⟨shown, next⟩ := result
  cases next <;> rfl

theorem observe_tail {operation : Operation} {state next : State}
    (returned : (perform state operation).2 = some next) (rest : List Operation) :
    (observe perform (operation :: rest) state).tail = observe perform rest next := by
  simp only [observe]
  generalize perform state operation = result at returned
  obtain ⟨shown, after⟩ := result
  simp only at returned
  subst returned
  rfl

/-- A condition on every operation of a sequence, in the state it starts from. -/
def Along (perform : State → Operation → Observation × Option State)
    (allowed : Operation → State → Prop) : List Operation → State → Prop
  | [], _ => True
  | operation :: rest, state =>
      allowed operation state ∧
        ∀ next, (perform state operation).2 = some next → Along perform allowed rest next

instance decidableAlong (perform : State → Operation → Observation × Option State)
    (allowed : Operation → State → Prop) [∀ operation state, Decidable (allowed operation state)] :
    ∀ operations state, Decidable (Along perform allowed operations state)
  | [], _ => inferInstanceAs (Decidable True)
  | operation :: rest, state =>
      have (next : State) : Decidable (Along perform allowed rest next) :=
        decidableAlong perform allowed rest next
      inferInstanceAs (Decidable (allowed operation state ∧
        ∀ next ∈ (perform state operation).2, Along perform allowed rest next))

/-- Two systems show the same along operations that keep them related. -/
theorem observe_along {Other : Type*}
    {performOther : Other → Operation → Observation × Option Other}
    {allowed : Operation → State → Prop} (related : State → Other → Prop)
    (respects : ∀ left right operation, related left right → allowed operation left →
      (perform left operation).1 = (performOther right operation).1 ∧
        Option.Rel related (perform left operation).2 (performOther right operation).2)
    {operations : List Operation} {left : State} {right : Other}
    (along : Along perform allowed operations left) (states : related left right) :
    observe perform operations left = observe performOther operations right := by
  induction operations generalizing left right with
  | nil => rfl
  | cons operation rest induction =>
      obtain ⟨here, later⟩ := along
      obtain ⟨shown, nexts⟩ := respects left right operation states here
      simp only [observe]
      generalize perform left operation = first at shown nexts later
      generalize performOther right operation = second at shown nexts
      obtain ⟨leftShown, leftNext⟩ := first
      obtain ⟨rightShown, rightNext⟩ := second
      cases nexts with
      | none => exact congrArg (fun observation => [observation]) shown
      | some states => exact congrArg₂ List.cons shown (induction (later _ rfl) states)

end Observe

end Lockstep
