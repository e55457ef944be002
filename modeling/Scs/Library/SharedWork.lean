import Mathlib.Algebra.BigOperators.Group.List.Basic
import Mathlib.Algebra.Ring.Nat
import Scs.Library.Runs

/-!
# Work that is shared out

Every step of a run does one unit of the work of one party, or is none of theirs and
leaves all work. The steps they made and the work that is left are then the work at
the start.
-/

namespace Runs

set_option autoImplicit false

variable {State Label Party : Type*} {step : State → Label → State → Prop} {parties : List Party}

theorem sum_one_less {before after : Party → ℕ} (distinct : parties.Nodup) {party : Party}
    (member : party ∈ parties) (less : after party + 1 = before party)
    (others : ∀ other ∈ parties, other ≠ party → after other = before other) :
    (parties.map after).sum + 1 = (parties.map before).sum := by
  induction parties with
  | nil => cases member
  | cons first rest induction =>
      obtain ⟨stranger, later⟩ := List.nodup_cons.mp distinct
      rw [List.map_cons, List.map_cons, List.sum_cons, List.sum_cons]
      by_cases same : party = first
      · subst same
        have unchanged : rest.map after = rest.map before := by
          apply List.map_congr_left
          intro other inside
          apply others other (List.mem_cons_of_mem party inside)
          rintro rfl
          exact stranger inside
        rw [unchanged]
        omega
      · have inside : party ∈ rest := (List.mem_cons.mp member).resolve_left same
        have rests := induction later inside fun other there =>
          others other (List.mem_cons_of_mem first there)
        rw [others first List.mem_cons_self fun equal => same equal.symm]
        omega

/-- If every step that counts does one unit of the work of one party, and no other step
does any, a run counts as many steps as the work that it has done. -/
theorem run_works (work : State → Party → ℕ) (counts : Label → Bool) (distinct : parties.Nodup)
    (works : ∀ state label next, step state label next → counts label = true →
      ∃ party ∈ parties, work next party + 1 = work state party ∧
        ∀ other ∈ parties, other ≠ party → work next other = work state other)
    (idles : ∀ state label next, step state label next → counts label = false →
      ∀ party ∈ parties, work next party = work state party)
    {start final : State} {labels : List Label} (run : Run step start labels final) :
    labels.countP counts + (parties.map (work final)).sum = (parties.map (work start)).sum := by
  induction run with
  | nil state => exact Nat.zero_add _
  | @cons _ _ _ label _ first _ induction =>
      rw [List.countP_cons]
      cases counted : counts label with
      | true =>
          obtain ⟨party, member, less, others⟩ := works _ _ _ first counted
          have now := sum_one_less distinct member less others
          rw [if_pos rfl]
          omega
      | false =>
          have now := congrArg List.sum (List.map_congr_left (idles _ _ _ first counted))
          rw [if_neg Bool.false_ne_true]
          omega

end Runs
