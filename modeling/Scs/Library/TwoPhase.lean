import Mathlib.Algebra.BigOperators.Group.Multiset.Basic
import Mathlib.Algebra.BigOperators.Group.List.Basic
import Mathlib.Algebra.Order.Group.Multiset
import Mathlib.Logic.Function.Basic

/-!
# Two-phase transactions

A transaction pushes the items of its program one by one and receives a ticket
for each. It then passes the threshold and commits its tickets, or it gives up
and destroys them. The books of such a system balance: whatever a transaction
past the threshold has promised is either committed or still held, so nothing
is lost or counted twice in any interleaving.
-/

namespace TwoPhase

set_option autoImplicit false

variable {Tx Ticket Item : Type*}

inductive Phase (Item : Type*) where
  | pushing (remaining : List Item)
  | committing
  | aborting

/-- The transactions past the threshold are listed in the order they passed it. What a
transaction holds is committed or given back only after it has left the first phase. -/
structure Books (Tx Ticket Item : Type*) where
  phase : Tx → Phase Item
  held : List (Tx × Ticket)
  committed : Multiset Item
  order : List Tx

namespace Books

variable [DecidableEq Tx]

def start (program : Tx → List Item) : Books Tx Ticket Item where
  phase tx := .pushing (program tx)
  held := []
  committed := 0
  order := []

def begin (books : Books Tx Ticket Item) (tx : Tx) (items : List Item) : Books Tx Ticket Item :=
  { books with phase := Function.update books.phase tx (.pushing items) }

def accept (books : Books Tx Ticket Item) (tx : Tx) (ticket : Ticket) (rest : List Item) :
    Books Tx Ticket Item :=
  { books with
    phase := Function.update books.phase tx (.pushing rest)
    held := (tx, ticket) :: books.held }

def refuse (books : Books Tx Ticket Item) (tx : Tx) : Books Tx Ticket Item :=
  { books with phase := Function.update books.phase tx .aborting }

def decide (books : Books Tx Ticket Item) (tx : Tx) : Books Tx Ticket Item :=
  { books with
    phase := Function.update books.phase tx .committing
    order := books.order ++ [tx] }

def commitAt (books : Books Tx Ticket Item) (position : Nat) (item : Item) :
    Books Tx Ticket Item :=
  { books with
    held := books.held.eraseIdx position
    committed := item ::ₘ books.committed }

def destroyAt (books : Books Tx Ticket Item) (position : Nat) : Books Tx Ticket Item :=
  { books with held := books.held.eraseIdx position }

end Books

/-! ## Sums over the tickets of some owners -/

def promised (program : Tx → List Item) (order : List Tx) : Multiset Item :=
  (order.map fun tx => (program tx : Multiset Item)).sum

@[simp] theorem promised_nil (program : Tx → List Item) : promised program [] = 0 := rfl

theorem promised_snoc (program : Tx → List Item) (order : List Tx) (tx : Tx) :
    promised program (order ++ [tx]) = promised program order + ↑(program tx) := by
  rw [promised, List.map_append, List.sum_append, List.map_singleton, List.sum_singleton]
  rfl

theorem promised_perm {program other : Tx → List Item} {order otherOrder : List Tx}
    (perm : order.Perm otherOrder) (same : ∀ tx ∈ order, program tx = other tx) :
    promised program order = promised other otherOrder := by
  have each : order.map (fun tx => (program tx : Multiset Item)) =
      order.map fun tx => (other tx : Multiset Item) :=
    List.map_congr_left fun tx listed => congrArg _ (same tx listed)
  rw [promised, promised, each, (perm.map _).sum_eq]

theorem mem_promised {program : Tx → List Item} {order : List Tx} {item : Item} :
    item ∈ promised program order ↔ ∃ tx ∈ order, item ∈ program tx := by
  induction order with
  | nil =>
      constructor
      · intro impossible
        exact absurd impossible (Multiset.notMem_zero item)
      · rintro ⟨tx, impossible, _⟩
        cases impossible
  | cons first rest induction =>
      have split : promised program (first :: rest) =
          (program first : Multiset Item) + promised program rest := rfl
      rw [split, Multiset.mem_add, Multiset.mem_coe, induction]
      simp only [List.mem_cons, exists_eq_or_imp]

def heldItems (item : Ticket → Item) (held : List (Tx × Ticket)) : Multiset Item :=
  ↑(held.map fun entry => item entry.2)

section Owned

variable [DecidableEq Tx] (item : Ticket → Item)

def owned (owners : List Tx) (held : List (Tx × Ticket)) : Multiset Item :=
  heldItems item (held.filter fun entry => entry.1 ∈ owners)

@[simp] theorem owned_nil (owners : List Tx) :
    owned item owners ([] : List (Tx × Ticket)) = 0 := rfl

theorem owned_cons_mem {owners : List Tx} {tx : Tx} (member : tx ∈ owners) (ticket : Ticket)
    (held : List (Tx × Ticket)) :
    owned item owners ((tx, ticket) :: held) = item ticket ::ₘ owned item owners held := by
  rw [owned, List.filter_cons_of_pos (by simpa using member)]
  rfl

theorem owned_cons_not_mem {owners : List Tx} {tx : Tx} (stranger : tx ∉ owners)
    (ticket : Ticket) (held : List (Tx × Ticket)) :
    owned item owners ((tx, ticket) :: held) = owned item owners held := by
  rw [owned, List.filter_cons_of_neg (by simpa using stranger)]
  rfl

theorem owned_perm (owners : List Tx) {held other : List (Tx × Ticket)}
    (same : held.Perm other) : owned item owners held = owned item owners other :=
  Multiset.coe_eq_coe.mpr ((same.filter _).map _)

theorem owned_le (owners : List Tx) (held : List (Tx × Ticket)) :
    owned item owners held ≤ heldItems item held :=
  Multiset.coe_le.mpr ((List.filter_sublist.map _).subperm)

theorem owned_all {owners : List Tx} {held : List (Tx × Ticket)}
    (listed : ∀ entry ∈ held, entry.1 ∈ owners) : owned item owners held = heldItems item held := by
  rw [owned, List.filter_eq_self.mpr fun entry member => decide_eq_true (listed entry member)]

theorem owned_none {owners : List Tx} {held : List (Tx × Ticket)}
    (strange : ∀ entry ∈ held, entry.1 ∉ owners) : owned item owners held = 0 := by
  rw [owned, List.filter_eq_nil_iff.mpr fun entry member inside =>
    strange entry member (of_decide_eq_true inside)]
  rfl

theorem owned_snoc {owners : List Tx} {tx : Tx} (stranger : tx ∉ owners)
    (held : List (Tx × Ticket)) :
    owned item (owners ++ [tx]) held = owned item owners held + owned item [tx] held := by
  induction held with
  | nil => rfl
  | cons entry rest induction =>
      obtain ⟨owner, ticket⟩ := entry
      by_cases own : owner = tx
      · subst own
        rw [owned_cons_mem item (List.mem_append_right _ (List.mem_singleton_self _)),
          owned_cons_not_mem item stranger, owned_cons_mem item (List.mem_singleton_self _),
          induction, Multiset.add_cons]
      · have apart : owner ∉ [tx] := fun inside => own (List.mem_singleton.mp inside)
        by_cases listed : owner ∈ owners
        · rw [owned_cons_mem item (List.mem_append_left _ listed), owned_cons_mem item listed,
            owned_cons_not_mem item apart, induction, Multiset.cons_add]
        · have absent : owner ∉ owners ++ [tx] := by
            rw [List.mem_append]
            exact fun either => either.elim listed apart
          rw [owned_cons_not_mem item absent, owned_cons_not_mem item listed,
            owned_cons_not_mem item apart, induction]

omit [DecidableEq Tx] in
theorem erase_perm {held : List (Tx × Ticket)} {position : Nat} {entry : Tx × Ticket}
    (found : held[position]? = some entry) :
    (entry :: held.eraseIdx position).Perm held := by
  obtain ⟨inside, same⟩ := List.getElem?_eq_some_iff.mp found
  rw [← same]
  exact List.getElem_cons_eraseIdx_perm inside

end Owned

/-! ## The balance -/

/-- Every item of a program is remaining, held or committed, exactly once: nothing is lost
between the phases and nothing is committed twice. -/
structure Balanced [DecidableEq Tx] (item : Ticket → Item) (program : Tx → List Item)
    (books : Books Tx Ticket Item) : Prop where
  pushing : ∀ tx remaining, books.phase tx = .pushing remaining →
    owned item [tx] books.held + ↑remaining = (program tx : Multiset Item)
  listed : ∀ tx, tx ∈ books.order ↔ books.phase tx = .committing
  settled : books.committed + owned item books.order books.held = promised program books.order

section Balance

variable [DecidableEq Tx] {item : Ticket → Item} {program : Tx → List Item}
  {books : Books Tx Ticket Item} {tx : Tx}

theorem balanced_start :
    Balanced item program (Books.start program : Books Tx Ticket Item) where
  pushing tx remaining phase := by
    cases phase
    exact zero_add _
  listed tx := by
    constructor
    · intro impossible
      cases impossible
    · intro impossible
      cases impossible
  settled := rfl

theorem undecided_not_listed (balanced : Balanced item program books) {remaining : List Item}
    (phase : books.phase tx = .pushing remaining) : tx ∉ books.order := by
  rw [balanced.listed, phase]
  intro impossible
  cases impossible

/-- Whoever has pushed nothing yet may still find out what to push. -/
theorem balanced_begin (balanced : Balanced item program books)
    (phase : books.phase tx = .pushing []) (idle : program tx = []) (items : List Item) :
    Balanced item (Function.update program tx items) (books.begin tx items) where
  pushing other remaining now := by
    by_cases same : other = tx
    · subst same
      simp only [Books.begin, Function.update_self] at now ⊢
      cases now
      have own := balanced.pushing other [] phase
      rw [idle, Multiset.coe_nil, add_zero] at own
      rw [own, zero_add]
    · simp only [Books.begin, Function.update_of_ne same] at now ⊢
      exact balanced.pushing other remaining now
  listed other := by
    by_cases same : other = tx
    · subst same
      simp only [Books.begin, Function.update_self]
      constructor
      · intro inside
        exact absurd inside (undecided_not_listed balanced phase)
      · intro impossible
        cases impossible
    · simp only [Books.begin, Function.update_of_ne same]
      exact balanced.listed other
  settled := by
    have same : promised (Function.update program tx items) books.order =
        promised program books.order := by
      unfold promised
      congr 1
      apply List.map_congr_left
      intro other member
      have apart : other ≠ tx := by
        rintro rfl
        exact undecided_not_listed balanced phase member
      rw [Function.update_of_ne apart]
    rw [Books.begin, same]
    exact balanced.settled

theorem balanced_accept (balanced : Balanced item program books) {ticket : Ticket}
    {rest : List Item} (phase : books.phase tx = .pushing (item ticket :: rest)) :
    Balanced item program (books.accept tx ticket rest) where
  pushing other remaining now := by
    by_cases same : other = tx
    · subst same
      simp only [Books.accept, Function.update_self] at now
      cases now
      have before := balanced.pushing other _ phase
      rw [← Multiset.cons_coe, Multiset.add_cons] at before
      rw [Books.accept, owned_cons_mem item (List.mem_singleton_self _), Multiset.cons_add]
      exact before
    · simp only [Books.accept, Function.update_of_ne same] at now
      have apart : tx ∉ [other] := fun inside => same (List.mem_singleton.mp inside).symm
      rw [Books.accept, owned_cons_not_mem item apart]
      exact balanced.pushing other remaining now
  listed other := by
    by_cases same : other = tx
    · subst same
      simp only [Books.accept, Function.update_self]
      constructor
      · intro inside
        exact absurd inside (undecided_not_listed balanced phase)
      · intro impossible
        cases impossible
    · simp only [Books.accept, Function.update_of_ne same]
      exact balanced.listed other
  settled := by
    rw [Books.accept, owned_cons_not_mem item (undecided_not_listed balanced phase)]
    exact balanced.settled

theorem balanced_refuse (balanced : Balanced item program books) {remaining : List Item}
    (phase : books.phase tx = .pushing remaining) :
    Balanced item program (books.refuse tx) where
  pushing other left now := by
    by_cases same : other = tx
    · subst same
      simp only [Books.refuse, Function.update_self] at now
      cases now
    · simp only [Books.refuse, Function.update_of_ne same] at now
      exact balanced.pushing other left now
  listed other := by
    by_cases same : other = tx
    · subst same
      simp only [Books.refuse, Function.update_self]
      constructor
      · intro inside
        exact absurd inside (undecided_not_listed balanced phase)
      · intro impossible
        cases impossible
    · simp only [Books.refuse, Function.update_of_ne same]
      exact balanced.listed other
  settled := balanced.settled

theorem balanced_decide (balanced : Balanced item program books)
    (phase : books.phase tx = .pushing []) : Balanced item program (books.decide tx) where
  pushing other left now := by
    by_cases same : other = tx
    · subst same
      simp only [Books.decide, Function.update_self] at now
      cases now
    · simp only [Books.decide, Function.update_of_ne same] at now
      exact balanced.pushing other left now
  listed other := by
    simp only [Books.decide, List.mem_append, List.mem_singleton]
    by_cases same : other = tx
    · subst same
      rw [Function.update_self]
      exact ⟨fun _ => rfl, fun _ => Or.inr rfl⟩
    · rw [Function.update_of_ne same, balanced.listed other]
      exact or_iff_left same
  settled := by
    have own := balanced.pushing tx [] phase
    rw [Multiset.coe_nil, add_zero] at own
    rw [Books.decide, owned_snoc item (undecided_not_listed balanced phase), promised_snoc,
      ← own, ← balanced.settled, add_assoc]

/-- Whoever takes a ticket out of the books while not pushing changes no
pushing transaction. -/
theorem owned_erase (owners : List Tx) {held : List (Tx × Ticket)} {position : Nat}
    {ticket : Ticket} (found : held[position]? = some (tx, ticket)) (stranger : tx ∉ owners) :
    owned item owners (held.eraseIdx position) = owned item owners held := by
  rw [← owned_perm item owners (erase_perm found), owned_cons_not_mem item stranger]

theorem balanced_commit (balanced : Balanced item program books) {position : Nat}
    {ticket : Ticket} (found : books.held[position]? = some (tx, ticket))
    (phase : books.phase tx = .committing) :
    Balanced item program (books.commitAt position (item ticket)) where
  pushing other left now := by
    have apart : tx ∉ [other] := by
      intro inside
      cases List.mem_singleton.mp inside
      rw [Books.commitAt, phase] at now
      cases now
    rw [Books.commitAt, owned_erase [other] found apart]
    exact balanced.pushing other left now
  listed := balanced.listed
  settled := by
    have own := (balanced.listed tx).mpr phase
    have settled := balanced.settled
    rw [← owned_perm item books.order (erase_perm found), owned_cons_mem item own,
      Multiset.add_cons] at settled
    rw [Books.commitAt, Multiset.cons_add]
    exact settled

theorem balanced_destroy (balanced : Balanced item program books) {position : Nat}
    {ticket : Ticket} (found : books.held[position]? = some (tx, ticket))
    (phase : books.phase tx = .aborting) :
    Balanced item program (books.destroyAt position) where
  pushing other left now := by
    have apart : tx ∉ [other] := by
      intro inside
      cases List.mem_singleton.mp inside
      rw [Books.destroyAt, phase] at now
      cases now
    rw [Books.destroyAt, owned_erase [other] found apart]
    exact balanced.pushing other left now
  listed := balanced.listed
  settled := by
    have absent : tx ∉ books.order := by
      rw [balanced.listed, phase]
      intro impossible
      cases impossible
    rw [Books.destroyAt, owned_erase books.order found absent]
    exact balanced.settled

/-! ## At the threshold and at the end -/

theorem committed_le_promised (balanced : Balanced item program books) :
    books.committed ≤ promised program books.order := by
  rw [← balanced.settled]
  exact Multiset.le_add_right _ _

/-- A transaction at the threshold: everything promised before and its whole
program is held or committed. -/
theorem promised_le_live (balanced : Balanced item program books)
    (phase : books.phase tx = .pushing []) :
    ↑(program tx) + promised program books.order ≤
      heldItems item books.held + books.committed := by
  have next := (balanced_decide balanced phase).settled
  have together := owned_le item (books.order ++ [tx]) books.held
  have whole : ↑(program tx) + promised program books.order =
      owned item (books.order ++ [tx]) books.held + books.committed := by
    rw [add_comm _ books.committed, add_comm (program tx : Multiset Item), ← promised_snoc]
    exact next.symm
  rw [whole]
  exact Multiset.add_le_add_right together

theorem finished_committed (balanced : Balanced item program books)
    (finished : books.held = []) : books.committed = promised program books.order := by
  have settled := balanced.settled
  rw [finished, owned_nil, add_zero] at settled
  exact settled

/-- Each transaction of the list fits behind the ones before it. -/
inductive InOrder (fits : List Tx → Tx → Prop) : List Tx → Prop
  | nil : InOrder fits []
  | snoc {order : List Tx} {tx : Tx} (earlier : InOrder fits order) (fit : fits order tx) :
      InOrder fits (order ++ [tx])

end Balance

end TwoPhase
