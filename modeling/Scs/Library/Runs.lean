import Mathlib.Logic.Function.Iterate
import Mathlib.Data.List.Count
import Mathlib.Order.Basic

/-!
# Runs of a labelled transition system

A run is a finite sequence of labelled steps. The rules here carry an
invariant through a run, cut a run in two, and compute one party's private
view from the number of its own steps when everything it reads is frozen.
-/

namespace Runs

set_option autoImplicit false

variable {State Label : Type*}

inductive Run (step : State → Label → State → Prop) : State → List Label → State → Prop
  | nil (state : State) : Run step state [] state
  | cons {state middle final : State} {label : Label} {labels : List Label}
      (first : step state label middle) (rest : Run step middle labels final) :
      Run step state (label :: labels) final

variable {step : State → Label → State → Prop}

theorem run_append {start middle final : State} {left right : List Label}
    (first : Run step start left middle) (second : Run step middle right final) :
    Run step start (left ++ right) final := by
  induction first with
  | nil state => exact second
  | cons head _ induction => exact Run.cons head (induction second)

theorem run_snoc {start middle final : State} {labels : List Label} {label : Label}
    (first : Run step start labels middle) (last : step middle label final) :
    Run step start (labels ++ [label]) final :=
  run_append first (Run.cons last (Run.nil final))

theorem run_of_fold {perform : State → Label → Option State} {start final : State}
    {labels : List Label} (folded : labels.foldlM perform start = some final) :
    Run (fun state label next => perform state label = some next) start labels final := by
  induction labels generalizing start with
  | nil =>
      cases folded
      exact Run.nil _
  | cons label rest induction =>
      rw [List.foldlM_cons] at folded
      obtain ⟨middle, first, later⟩ := Option.bind_eq_some_iff.mp folded
      exact Run.cons first (induction later)

/-- A property of the start that every step keeps holds at the end. -/
theorem run_invariant (invariant : State → Prop)
    (preserved : ∀ state label next, invariant state → step state label next → invariant next)
    {start final : State} {labels : List Label} (initial : invariant start)
    (run : Run step start labels final) : invariant final := by
  induction run with
  | nil state => exact initial
  | cons first _ induction => exact induction (preserved _ _ _ initial first)

theorem run_mono {weaker : State → Label → State → Prop}
    (weakens : ∀ state label next, step state label next → weaker state label next)
    {start final : State} {labels : List Label} (run : Run step start labels final) :
    Run weaker start labels final := by
  induction run with
  | nil state => exact Run.nil state
  | cons first _ induction => exact Run.cons (weakens _ _ _ first) induction

theorem run_within (invariant : State → Prop)
    (preserved : ∀ state label next, invariant state → step state label next → invariant next)
    {start final : State} {labels : List Label} (initial : invariant start)
    (run : Run step start labels final) :
    Run (fun state label next => invariant state ∧ step state label next) start labels final := by
  induction run with
  | nil state => exact Run.nil state
  | cons first _ induction =>
      exact Run.cons ⟨initial, first⟩ (induction (preserved _ _ _ initial first))

theorem run_between {start final : State} {labels : List Label}
    (run : Run step start labels final) :
    Run (fun state label next => step state label next ∧
      (∃ before, Run step start before state) ∧ ∃ after, Run step next after final)
      start labels final := by
  induction run with
  | nil state => exact Run.nil state
  | cons first rest induction =>
      apply Run.cons ⟨first, ⟨[], Run.nil _⟩, ⟨_, rest⟩⟩
      apply run_mono _ induction
      rintro state label next ⟨now, ⟨before, reached⟩, later⟩
      exact ⟨now, ⟨_, Run.cons first reached⟩, later⟩

/-- A cost that no step lowers and that only free steps leave unchanged: a run that
ends at the cost it started with takes free steps alone. -/
theorem run_costless {Cost : Type*} [PartialOrder Cost] {free : State → Label → State → Prop}
    (cost : State → Cost)
    (grows : ∀ state label next, step state label next → cost state ≤ cost next)
    (charged : ∀ state label next, step state label next → cost next = cost state →
      free state label next)
    {start final : State} {labels : List Label} (run : Run step start labels final) :
    cost start ≤ cost final ∧ (cost final = cost start → Run free start labels final) := by
  induction run with
  | nil state => exact ⟨le_refl _, fun _ => Run.nil state⟩
  | cons first _ induction =>
      obtain ⟨later, costless⟩ := induction
      have now := grows _ _ _ first
      constructor
      · exact now.trans later
      · intro same
        have unchanged := le_antisymm (later.trans same.le) now
        exact Run.cons (charged _ _ _ first unchanged) (costless (same.trans unchanged.symm))

/-- The reflexive form: a preorder that every step respects relates the ends. -/
theorem run_related (related : State → State → Prop)
    (reflexive : ∀ state, related state state)
    (transitive : ∀ first second third, related first second → related second third →
      related first third)
    (respects : ∀ state label next, step state label next → related state next)
    {start final : State} {labels : List Label} (run : Run step start labels final) :
    related start final := by
  induction run with
  | nil state => exact reflexive state
  | cons first _ induction => exact transitive _ _ _ (respects _ _ _ first) induction

/-- One party's view of a run. When nothing the party reads ever changes, its
view after the run is its own deterministic step iterated as often as it moved:
neither the other parties nor the interleaving appear in the result. -/
theorem view_iterates {View Frozen : Type*} (view : State → View) (frozen : State → Frozen)
    (advance : Frozen → View → View) (moves : Label → Bool)
    (frozen_kept : ∀ state label next, step state label next → frozen next = frozen state)
    (own : ∀ state label next, step state label next → moves label = true →
      view next = advance (frozen state) (view state))
    (other : ∀ state label next, step state label next → moves label = false →
      view next = view state)
    {start final : State} {labels : List Label} (run : Run step start labels final) :
    view final = (advance (frozen start))^[labels.countP moves] (view start) := by
  induction run with
  | nil state => rfl
  | @cons state middle final label labels first _ induction =>
      rw [induction, frozen_kept _ _ _ first]
      cases moved : moves label with
      | false => rw [List.countP_cons_of_neg (by simp [moved]), other _ _ _ first moved]
      | true =>
          rw [List.countP_cons_of_pos moved, Function.iterate_succ_apply,
            own _ _ _ first moved]

end Runs
