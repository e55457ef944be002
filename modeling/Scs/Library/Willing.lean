import Scs.Library.TwoPhase

/-!
# Two-phase transactions that never give up

If none of the transactions that take part in the books gives up, then whatever
they have promised is committed, held or still to be pushed, each item once.
-/

namespace TwoPhase

set_option autoImplicit false

variable {Tx Ticket Item : Type*}

def Phase.remaining : Phase Item → List Item
  | .pushing remaining => remaining
  | .committing => []
  | .aborting => []

def pending (books : Books Tx Ticket Item) (all : List Tx) : Multiset Item :=
  promised (fun tx => (books.phase tx).remaining) all

theorem promised_append (program : Tx → List Item) (first second : List Tx) :
    promised program (first ++ second) = promised program first + promised program second := by
  rw [promised, List.map_append, List.sum_append]
  rfl

theorem promised_mono {fewer more : Tx → List Item} {all : List Tx}
    (within : ∀ tx ∈ all, (fewer tx : Multiset Item) ≤ more tx) :
    promised fewer all ≤ promised more all := by
  induction all with
  | nil => exact le_refl _
  | cons tx rest induction =>
      have first := within tx List.mem_cons_self
      have later := induction fun other member => within other (List.mem_cons_of_mem tx member)
      exact add_le_add first later

theorem le_promised (program : Tx → List Item) {all : List Tx} {tx : Tx} (listed : tx ∈ all) :
    (program tx : Multiset Item) ≤ promised program all := by
  obtain ⟨before, after, rfl⟩ := List.append_of_mem listed
  rw [promised_append]
  exact (Multiset.le_add_right _ _).trans (Multiset.le_add_left _ _)

theorem promised_map {Other : Type*} (view : Item → Other) (program : Tx → List Item)
    (all : List Tx) :
    (promised program all).map view = promised (fun tx => (program tx).map view) all := by
  induction all with
  | nil => rfl
  | cons tx rest induction =>
      have split : promised program (tx :: rest) = ↑(program tx) + promised program rest := rfl
      rw [split, Multiset.map_add, induction, Multiset.map_coe]
      rfl

theorem promised_nodup {program : Tx → List Item} {all : List Tx}
    (each : ∀ tx ∈ all, (program tx).Nodup)
    (apart : all.Pairwise fun tx other => ∀ item ∈ program tx, item ∉ program other) :
    (promised program all).Nodup := by
  induction all with
  | nil => exact Multiset.nodup_zero
  | cons tx rest induction =>
      obtain ⟨first, later⟩ := List.pairwise_cons.mp apart
      have split : promised program (tx :: rest) = ↑(program tx) + promised program rest := rfl
      rw [split, Multiset.nodup_add]
      refine ⟨each tx List.mem_cons_self,
        induction (fun other member => each other (List.mem_cons_of_mem tx member)) later, ?_⟩
      rw [Multiset.disjoint_left]
      intro item own others
      obtain ⟨other, member, there⟩ := mem_promised.mp others
      exact first other member item own there

section Balance

variable [DecidableEq Tx] {item : Ticket → Item} {program : Tx → List Item}
  {books : Books Tx Ticket Item}

/-- The tickets of some owners, and of others one after another. -/
theorem owned_append (owners others : List Tx) (apart : (owners ++ others).Nodup)
    (held : List (Tx × Ticket)) :
    owned item (owners ++ others) held =
      owned item owners held + (others.map fun tx => owned item [tx] held).sum := by
  induction others using List.reverseRecOn with
  | nil => rw [List.append_nil, List.map_nil, List.sum_nil, add_zero]
  | append_singleton earlier tx induction =>
      rw [← List.append_assoc] at apart ⊢
      obtain ⟨distinct, _, disjoint⟩ := List.nodup_append'.mp apart
      have stranger : tx ∉ owners ++ earlier := fun inside =>
        disjoint inside (List.mem_singleton_self tx)
      rw [owned_snoc item stranger, induction distinct, List.map_append, List.sum_append,
        List.map_singleton, List.sum_singleton, add_assoc]

theorem pushing_promised (balanced : Balanced item program books) {waiting : List Tx}
    (pushing : ∀ tx ∈ waiting, ∃ remaining, books.phase tx = .pushing remaining) :
    (waiting.map fun tx => owned item [tx] books.held).sum + pending books waiting =
      promised program waiting := by
  induction waiting with
  | nil => rfl
  | cons tx rest induction =>
      have later := induction fun other member => pushing other (List.mem_cons_of_mem tx member)
      obtain ⟨remaining, phase⟩ := pushing tx List.mem_cons_self
      have own := balanced.pushing tx remaining phase
      have left : (books.phase tx).remaining = remaining := by
        rw [phase]
        rfl
      have split : pending books (tx :: rest) = ↑remaining + pending books rest := by
        rw [pending, promised, List.map_cons, List.sum_cons, left]
        rfl
      have whole : promised program (tx :: rest) = ↑(program tx) + promised program rest := rfl
      rw [whole, split, ← own, ← later, List.map_cons, List.sum_cons]
      exact add_add_add_comm _ _ _ _

theorem willing_promised (balanced : Balanced item program books) (once : books.order.Nodup)
    {all : List Tx} (distinct : all.Nodup) (passed : ∀ tx ∈ books.order, tx ∈ all)
    (owners : ∀ entry ∈ books.held, entry.1 ∈ all)
    (willing : ∀ tx ∈ all, books.phase tx ≠ .aborting) :
    heldItems item books.held + books.committed + pending books all = promised program all := by
  let waiting := all.filter fun tx => tx ∉ books.order
  have perm : (books.order ++ waiting).Perm all := by
    apply (List.perm_ext_iff_of_nodup _ distinct).mpr
    · intro tx
      simp only [waiting, List.mem_append, List.mem_filter, decide_eq_true_eq]
      constructor
      · intro either
        exact either.elim (passed tx) And.left
      · intro listed
        exact (em (tx ∈ books.order)).imp_right fun stranger => ⟨listed, stranger⟩
    · apply List.Nodup.append once (distinct.filter _)
      intro tx inside outside
      exact of_decide_eq_true (List.mem_filter.mp outside).2 inside
  have pushing : ∀ tx ∈ waiting, ∃ remaining, books.phase tx = .pushing remaining := by
    intro tx member
    obtain ⟨listed, stranger⟩ := List.mem_filter.mp member
    cases phase : books.phase tx with
    | pushing remaining => exact ⟨remaining, rfl⟩
    | committing => exact absurd ((balanced.listed tx).mpr phase) (of_decide_eq_true stranger)
    | aborting => exact absurd phase (willing tx listed)
  have decided : pending books books.order = 0 := by
    have nothing : ∀ tx ∈ books.order,
        ((books.phase tx).remaining : Multiset Item) ≤ ((fun _ => []) tx : List Item) := by
      intro tx member
      rw [(balanced.listed tx).mp member]
      exact le_refl _
    apply Multiset.le_zero.mp
    have none : promised (fun _ : Tx => ([] : List Item)) books.order = 0 := by
      apply Multiset.eq_zero_of_forall_notMem
      intro item member
      obtain ⟨_, _, impossible⟩ := mem_promised.mp member
      cases impossible
    exact none ▸ promised_mono nothing
  have everyone : heldItems item books.held = owned item (books.order ++ waiting) books.held :=
    (owned_all item fun entry member => perm.mem_iff.mpr (owners entry member)).symm
  have together : pending books all = pending books waiting := by
    rw [pending, ← promised_perm perm fun _ _ => rfl, promised_append]
    exact (congrArg (· + _) decided).trans (zero_add _)
  calc heldItems item books.held + books.committed + pending books all
      = (books.committed + owned item books.order books.held) +
          ((waiting.map fun tx => owned item [tx] books.held).sum + pending books waiting) := by
        rw [everyone, owned_append _ _ (perm.nodup_iff.mpr distinct), together,
          add_right_comm (owned _ _ _), add_comm (owned _ _ _), add_assoc]
    _ = promised program books.order + promised program waiting := by
        rw [balanced.settled, pushing_promised balanced pushing]
    _ = promised program all := by
        rw [← promised_append, promised_perm perm fun _ _ => rfl]

/-- What a willing transaction is about to push is promised on top of all that is
held and committed. -/
theorem willing_next (balanced : Balanced item program books) (once : books.order.Nodup)
    {all : List Tx} (distinct : all.Nodup) (passed : ∀ tx ∈ books.order, tx ∈ all)
    (owners : ∀ entry ∈ books.held, entry.1 ∈ all)
    (willing : ∀ tx ∈ all, books.phase tx ≠ .aborting) {tx : Tx} (listed : tx ∈ all)
    {next : Item} {rest : List Item} (phase : books.phase tx = .pushing (next :: rest)) :
    next ::ₘ (heldItems item books.held + books.committed) ≤ promised program all := by
  have due : {next} ≤ pending books all := by
    apply le_trans _ (le_promised (fun tx => (books.phase tx).remaining) listed)
    rw [phase]
    exact Multiset.singleton_le.mpr List.mem_cons_self
  rw [← willing_promised balanced once distinct passed owners willing, ← Multiset.singleton_add,
    add_comm]
  exact add_le_add_right due _

end Balance

end TwoPhase
