import Scs.Object.BaseInterleaving

/-!
# Stages of a base value

The tag and the pointer pass through five stages, and each stage says which tasks
can be under way. The windows between a compare-exchange and its store are stages
of their own: every read in them is torn.
-/

namespace Scs

set_option autoImplicit false

open Runs Threads

inductive BaseStage where
  | empty
  | storing (value : StorageDeltaClass)
  | standing (value : StorageDeltaClass) (holders : ℕ)
  | nulling (value : StorageDeltaClass)
  | fixed (value : StorageDeltaClass)

namespace BaseStage

def Words (base : RevertableBaseObject) : BaseStage → Prop
  | .empty => lowWord base.tag = 0 ∧ base.obj = none
  | .storing _ => lowWord base.tag = 256 ∧ base.obj = none
  | .standing value holders =>
      0 < holders ∧ holders < 256 ∧ lowWord base.tag = 256 * holders ∧ base.obj = some value
  | .nulling value => lowWord base.tag = 0 ∧ base.obj = some value
  | .fixed value => lowWord base.tag % 2 = 1 ∧ base.obj = some value

def Allows : BaseStage → BaseRole → Prop
  | _, .passive => True
  | .storing value, .storing other => other = value
  | .standing value _, .holding other => other = value
  | .nulling _, .nulling => True
  | .fixed value, .holding other => other = value
  | .fixed value, .settled other => other = value
  | _, _ => False

/-- The number of tasks that are not passive, where the words bound it. -/
def active? : BaseStage → Option ℕ
  | .empty => some 0
  | .storing _ => some 1
  | .standing _ holders => some holders
  | .nulling _ => some 1
  | .fixed _ => none

theorem allows_passive (stage : BaseStage) : stage.Allows .passive := by
  cases stage <;> trivial

theorem allows_recount {value : StorageDeltaClass} {holders : ℕ} (others : ℕ) {role : BaseRole}
    (allowed : (standing value holders).Allows role) : (standing value others).Allows role := by
  cases role <;> exact allowed

theorem allows_fixed {value : StorageDeltaClass} {holders : ℕ} {role : BaseRole}
    (allowed : (standing value holders).Allows role) : (fixed value).Allows role := by
  cases role with
  | passive => trivial
  | holding other => exact allowed
  | storing other => exact allowed.elim
  | settled other => exact allowed.elim
  | nulling => exact allowed.elim

end BaseStage

def BaseTask.active (task : BaseTask) : Bool :=
  match task.role with
  | .passive => false
  | _ => true

theorem active_false_iff {task : BaseTask} : task.active = false ↔ task.role = .passive := by
  unfold BaseTask.active
  cases task.role <;> simp

def activeCount (tasks : Multiset BaseTask) : ℕ := tasks.countP fun task => task.active = true

theorem active_count_add (left rest : Multiset BaseTask) :
    activeCount (left + rest) = activeCount left + activeCount rest :=
  Multiset.countP_add _ _ _

theorem active_count_cons (task : BaseTask) (rest : Multiset BaseTask) :
    activeCount (task ::ₘ rest) = activeCount {task} + activeCount rest := by
  rw [← Multiset.singleton_add, active_count_add]

theorem active_count_singleton (task : BaseTask) :
    activeCount {task} = if task.active = true then 1 else 0 := by
  unfold activeCount
  rw [← Multiset.cons_zero, Multiset.countP_cons, Multiset.countP_zero, Nat.zero_add]

structure Staged (stage : BaseStage) (base : RevertableBaseObject) (tasks : Multiset BaseTask) :
    Prop where
  words : stage.Words base
  allows : ∀ task ∈ tasks, stage.Allows task.role
  counts : ∀ count, stage.active? = some count → activeCount tasks = count

section Staged

variable {base after : RevertableBaseObject} {task : BaseTask} {left rest : Multiset BaseTask}
  {stage next : BaseStage}

theorem rest_passive (none_active : activeCount rest = 0) (other : BaseTask)
    (member : other ∈ rest) : other.role = .passive := by
  apply active_false_iff.mp
  have never := Multiset.countP_eq_zero.mp none_active other member
  exact Bool.eq_false_iff.mpr never

/-- Where only the moving task was active, it may enter any stage. -/
theorem staged_alone (alone : activeCount rest = 0) (words : next.Words after)
    (allows : ∀ other ∈ left, next.Allows other.role)
    (counts : ∀ count, next.active? = some count → activeCount left = count) :
    Staged next after (left + rest) where
  words := words
  allows other member := by
    rcases Multiset.mem_add.mp member with fresh | old
    · exact allows other fresh
    · rw [rest_passive alone other old]
      exact next.allows_passive
  counts count known := by
    rw [active_count_add, alone, Nat.add_zero]
    exact counts count known

theorem staged_same {other : BaseTask} (staged : Staged stage base (task ::ₘ rest))
    (same : other.role = task.role) : Staged stage base ({other} + rest) where
  words := staged.words
  allows one member := by
    rcases Multiset.mem_add.mp member with fresh | old
    · rw [Multiset.mem_singleton.mp fresh, same]
      exact staged.allows task (Multiset.mem_cons_self _ _)
    · exact staged.allows one (Multiset.mem_cons_of_mem old)
  counts count known := by
    have before := staged.counts count known
    rw [active_count_cons, active_count_singleton] at before
    rw [active_count_add, active_count_singleton]
    unfold BaseTask.active at before ⊢
    rw [same]
    exact before

theorem staged_leaves (staged : Staged stage base (task ::ₘ rest))
    (passive : task.role = .passive) : Staged stage base (0 + rest) where
  words := staged.words
  allows one member := by
    rw [Multiset.zero_add] at member
    exact staged.allows one (Multiset.mem_cons_of_mem member)
  counts count known := by
    have before := staged.counts count known
    rw [active_count_cons, active_count_singleton, active_false_iff.mpr passive] at before
    rw [Multiset.zero_add]
    simpa using before

/-- Once the value is fixed the number of rewinds does not matter. -/
theorem staged_fixed {value : StorageDeltaClass}
    (staged : Staged stage base (task ::ₘ rest))
    (spreads : ∀ role, stage.Allows role → (BaseStage.fixed value).Allows role)
    (words : (BaseStage.fixed value).Words after)
    (allows : ∀ other ∈ left, (BaseStage.fixed value).Allows other.role) :
    Staged (.fixed value) after (left + rest) where
  words := words
  allows other member := by
    rcases Multiset.mem_add.mp member with fresh | old
    · exact allows other fresh
    · exact spreads _ (staged.allows other (Multiset.mem_cons_of_mem old))
  counts _ known := by cases known

theorem staged_recount {value : StorageDeltaClass} {holders others : ℕ}
    (staged : Staged (.standing value holders) base (task ::ₘ rest))
    (words : (BaseStage.standing value others).Words after)
    (allows : ∀ other ∈ left, (BaseStage.standing value others).Allows other.role)
    (counts : activeCount left + activeCount rest = others) :
    Staged (.standing value others) after (left + rest) where
  words := words
  allows other member := by
    rcases Multiset.mem_add.mp member with fresh | old
    · exact allows other fresh
    · exact BaseStage.allows_recount others
        (staged.allows other (Multiset.mem_cons_of_mem old))
  counts count known := by
    rw [active_count_add, counts]
    exact Option.some_inj.mp known

end Staged

/-! ## One step -/

theorem shorn_none (t : UInt64) : shornRead t none = false ↔ lowWord t = 0 := by
  have nonnull := expect_nonnull_iff t
  unfold shornRead
  by_cases zero : lowWord t = 0 <;> simp_all

theorem shorn_some (t : UInt64) (value : StorageDeltaClass) :
    shornRead t (some value) = false ↔ lowWord t ≠ 0 := by
  have nonnull := expect_nonnull_iff t
  unfold shornRead
  by_cases zero : lowWord t = 0 <;> simp_all

theorem not_finalized {tag : UInt64} (unfixed : isFinalized tag = false) :
    lowWord tag % 2 ≠ 1 := by
  intro odd
  rw [(is_finalized_iff tag).mpr odd] at unfixed
  cases unfixed

section Words

variable {base : RevertableBaseObject} {tasks : Multiset BaseTask} {stage : BaseStage}

theorem stage_empty (staged : Staged stage base tasks) (zero : lowWord base.tag = 0)
    (null : base.obj = none) : stage = .empty := by
  have words := staged.words
  cases stage with
  | empty => rfl
  | storing value =>
      have counted : lowWord base.tag = 256 := words.1
      omega
  | standing value holders =>
      have pointed := words.2.2.2
      rw [null] at pointed
      cases pointed
  | nulling value =>
      have pointed := words.2
      rw [null] at pointed
      cases pointed
  | fixed value =>
      have pointed := words.2
      rw [null] at pointed
      cases pointed

theorem stage_standing {value : StorageDeltaClass} (staged : Staged stage base tasks)
    (nonzero : lowWord base.tag ≠ 0) (even : lowWord base.tag % 2 ≠ 1)
    (pointed : base.obj = some value) : ∃ holders, stage = .standing value holders := by
  have words := staged.words
  cases stage with
  | empty => exact absurd words.1 nonzero
  | storing other =>
      have null := words.2
      rw [pointed] at null
      cases null
  | standing other holders =>
      have same := words.2.2.2
      rw [pointed] at same
      cases same
      exact ⟨holders, rfl⟩
  | nulling other => exact absurd words.1 nonzero
  | fixed other => exact absurd words.1 even

theorem stage_fixed (staged : Staged stage base tasks) (odd : lowWord base.tag % 2 = 1) :
    ∃ value, stage = .fixed value ∧ base.obj = some value := by
  have words := staged.words
  cases stage with
  | empty =>
      have zero : lowWord base.tag = 0 := words.1
      omega
  | storing value =>
      have one : lowWord base.tag = 256 := words.1
      omega
  | standing value holders =>
      have counted : lowWord base.tag = 256 * holders := words.2.2.1
      omega
  | nulling value =>
      have zero : lowWord base.tag = 0 := words.1
      omega
  | fixed value => exact ⟨value, rfl, words.2⟩

theorem open_rewinds_standing {value : StorageDeltaClass} {holders : ℕ}
    (allows : ∀ task ∈ tasks, (BaseStage.standing value holders).Allows task.role) :
    openRewinds ⟨base, tasks⟩ = activeCount tasks := by
  apply Multiset.countP_congr rfl
  intro task member
  have allowed := allows task member
  unfold BaseTask.holds BaseTask.active
  cases role : task.role with
  | passive => rfl
  | storing other => rfl
  | holding other => rfl
  | settled other =>
      rw [role] at allowed
      exact allowed.elim
  | nulling =>
      rw [role] at allowed
      exact allowed.elim

theorem allows_storing {value : StorageDeltaClass} (allowed : stage.Allows (.storing value)) :
    stage = .storing value := by
  cases stage with
  | storing other => exact congrArg BaseStage.storing (Eq.symm allowed)
  | _ => exact allowed.elim

theorem allows_holding {value : StorageDeltaClass} (allowed : stage.Allows (.holding value)) :
    (∃ holders, stage = .standing value holders) ∨ stage = .fixed value := by
  cases stage with
  | standing other holders =>
      have same : value = other := allowed
      exact .inl ⟨holders, by rw [same]⟩
  | fixed other => exact .inr (congrArg BaseStage.fixed (Eq.symm allowed))
  | _ => exact allowed.elim

theorem allows_settled {value : StorageDeltaClass} (allowed : stage.Allows (.settled value)) :
    stage = .fixed value := by
  cases stage with
  | fixed other => exact congrArg BaseStage.fixed (Eq.symm allowed)
  | _ => exact allowed.elim

theorem allows_nulling (allowed : stage.Allows .nulling) : ∃ value, stage = .nulling value := by
  cases stage with
  | nulling value => exact ⟨value, rfl⟩
  | _ => exact allowed.elim

end Words

structure BaseInvariant (base : RevertableBaseObject) (tasks : Multiset BaseTask) : Prop where
  known : Known base tasks
  staged : ∃ stage, Staged stage base tasks

section Steps

variable {base : RevertableBaseObject} {task other : BaseTask} {rest : Multiset BaseTask}
  {life : RewindLife} {t : UInt64} {current : Option StorageDeltaClass}

theorem every_single {holds : BaseTask → Prop} (one : holds other) :
    ∀ next ∈ ({other} : Multiset BaseTask), holds next := by
  intro next member
  rw [Multiset.mem_singleton.mp member]
  exact one

theorem every_none {holds : BaseTask → Prop} : ∀ next ∈ (0 : Multiset BaseTask), holds next :=
  fun _ member => absurd member (Multiset.notMem_zero _)

theorem alone_after {stage : BaseStage} (staged : Staged stage base (task ::ₘ rest))
    (one : stage.active? = some 1) (active : task.active = true) : activeCount rest = 0 := by
  have counted := staged.counts 1 one
  rw [active_count_cons, active_count_singleton, if_pos active] at counted
  omega

theorem BaseInvariant.continues (kept : BaseInvariant base (task ::ₘ rest))
    (same : other.role = task.role) (unspent : other.unspent = task.unspent)
    (loaded : ∀ t, other.loaded? = some t → task.loaded? = some t ∨ t = base.tag)
    (read : ∀ t current, other.read? = some (t, current) → current = base.obj) :
    BaseInvariant base ({other} + rest) := by
  obtain ⟨known, stage, staged⟩ := kept
  have fewer : unspentIds {other} ≤ task.unspent := by
    rw [unspent_ids_singleton, unspent]
  exact ⟨known_local known fewer (every_single loaded) (every_single read), stage,
    staged_same staged same⟩

theorem BaseInvariant.restarts (kept : BaseInvariant base (task ::ₘ rest))
    (same : other.role = task.role) (unspent : other.unspent = task.unspent)
    (silent : other.loaded? = none) : BaseInvariant base ({other} + rest) := by
  apply kept.continues same unspent
  · intro t seen
    rw [silent] at seen
    cases seen
  · intro t current seen
    have loaded := read_loaded seen
    rw [silent] at loaded
    cases loaded

theorem known_leaves (known : Known base (task ::ₘ rest)) : Known base (0 + rest) :=
  known_local known (Multiset.zero_le _) every_none every_none

theorem BaseInvariant.leaves (kept : BaseInvariant base (task ::ₘ rest))
    (passive : task.role = .passive) : BaseInvariant base (0 + rest) := by
  obtain ⟨known, stage, staged⟩ := kept
  exact ⟨known_leaves known, stage, staged_leaves staged passive⟩

/-- A settled task holds no tag, so it may stand for one that spent its ids: the invariant
only counts what a task may still install. -/
theorem known_settles (known : Known base (task ::ₘ rest)) (unspent : other.unspent = 0)
    (silent : other.loaded? = none) : Known base ({other} + rest) := by
  apply known_local known
  · rw [unspent_ids_singleton, unspent]
    exact Multiset.zero_le _
  · intro one member t seen
    rw [Multiset.mem_singleton.mp member, silent] at seen
    cases seen
  · intro one member t current seen
    have loaded := read_loaded seen
    rw [Multiset.mem_singleton.mp member, silent] at loaded
    cases loaded

theorem BaseInvariant.set_first (kept : BaseInvariant base (.setDecides life t none ::ₘ rest))
    (whole : shornRead t none = false) (unchanged : base.tag = t) :
    BaseInvariant { base with tag := addInflight (swapId t life.setId) }
      ({.storing life} + rest) := by
  obtain ⟨known, stage, staged⟩ := kept
  have null := known.whole _ (Multiset.mem_cons_self _ _) t none rfl unchanged whole
  subst unchanged
  have zero := (shorn_none base.tag).mp whole
  have empty := stage_empty staged zero null
  subst empty
  have low : lowWord (swapId base.tag life.setId) = 0 := by
    rw [low_word_swap_id, zero]
  have idle := staged.counts 0 rfl
  rw [active_count_cons] at idle
  constructor
  · apply known_swap known
    · apply Bool.eq_false_iff.mpr
      intro fixed
      have odd := (is_finalized_iff base.tag).mp fixed
      omega
    · rw [tag_id_add_inflight (by omega), unspent_ids_singleton]
      rfl
    · exact every_single rfl
  · refine ⟨.storing life.value, staged_alone (by omega) ?_ ?_ ?_⟩
    · refine ⟨?_, null⟩
      rw [low_word_add_inflight, low]
      rfl
    · exact every_single rfl
    · intro count counted
      cases counted
      rfl

theorem BaseInvariant.set_again
    (kept : BaseInvariant base (.setDecides life t (some life.value) ::ₘ rest))
    (whole : shornRead t (some life.value) = false) (unfixed : isFinalized t = false)
    (unchanged : base.tag = t)
    (room : openRewinds ⟨{ base with tag := addInflight (swapId t life.setId) },
      {.granted life true} + rest⟩ < 256) :
    BaseInvariant { base with tag := addInflight (swapId t life.setId) }
      ({.granted life true} + rest) := by
  obtain ⟨known, stage, staged⟩ := kept
  have pointed := known.whole _ (Multiset.mem_cons_self _ _) t _ rfl unchanged whole
  subst unchanged
  have nonzero := (shorn_some base.tag life.value).mp whole
  obtain ⟨holders, stands⟩ := stage_standing staged nonzero (not_finalized unfixed) pointed
  subst stands
  obtain ⟨positive, fewer, counted, -⟩ := staged.words
  have before := staged.counts holders rfl
  rw [active_count_cons] at before
  have passive : activeCount {.setDecides life base.tag (some life.value)} = 0 := rfl
  have single : activeCount {.granted life true} = 1 := rfl
  have allows : ∀ one ∈ ({.granted life true} : Multiset BaseTask) + rest,
      (BaseStage.standing life.value holders).Allows one.role := by
    intro one member
    rcases Multiset.mem_add.mp member with fresh | old
    · rw [Multiset.mem_singleton.mp fresh]
      rfl
    · exact staged.allows one (Multiset.mem_cons_of_mem old)
  rw [open_rewinds_standing allows, active_count_add] at room
  constructor
  · apply known_swap known unfixed
    · rw [tag_id_add_inflight (by omega), unspent_ids_singleton]
      rfl
    · exact every_single rfl
  · refine ⟨.standing life.value (holders + 1), staged_recount staged ?_ ?_ (by omega)⟩
    · refine ⟨by omega, by omega, ?_, pointed⟩
      rw [low_word_add_inflight, low_word_swap_id, counted]
      omega
    · exact every_single rfl

theorem BaseInvariant.set_final
    (kept : BaseInvariant base (.setDecides life t (some life.value) ::ₘ rest))
    (whole : shornRead t (some life.value) = false) (fixed : isFinalized t = true) :
    BaseInvariant base ({.granted life false} + rest) := by
  obtain ⟨known, stage, staged⟩ := kept
  have first : BaseTask.setDecides life t (some life.value) ∈
      BaseTask.setDecides life t (some life.value) ::ₘ rest := Multiset.mem_cons_self _ _
  have unchanged := known.final _ first t rfl fixed
  have pointed := known.whole _ first t _ rfl unchanged whole
  rw [← unchanged] at fixed
  obtain ⟨value, stands, held⟩ := stage_fixed staged ((is_finalized_iff base.tag).mp fixed)
  rw [pointed] at held
  cases held
  subst stands
  exact ⟨known_settles known rfl rfl, .fixed life.value,
    staged_fixed staged (fun _ allowed => allowed) staged.words (every_single rfl)⟩

theorem BaseInvariant.stores (kept : BaseInvariant base (.storing life ::ₘ rest)) :
    BaseInvariant { base with obj := some life.value } ({.granted life true} + rest) := by
  obtain ⟨known, stage, staged⟩ := kept
  have stands := allows_storing (staged.allows _ (Multiset.mem_cons_self _ _))
  subst stands
  obtain ⟨counted, null⟩ := staged.words
  have torn : shornRead base.tag base.obj = true := by
    rw [null]
    apply Bool.eq_true_of_not_eq_false
    rw [shorn_none, counted]
    decide
  constructor
  · apply known_store known torn
    · rw [unspent_ids_singleton]
      rfl
    · exact every_single rfl
  · refine ⟨.standing life.value 1, staged_alone (alone_after staged rfl rfl) ?_ ?_ ?_⟩
    · exact ⟨Nat.one_pos, by decide, counted, rfl⟩
    · exact every_single rfl
    · intro count known
      cases known
      rfl

/-- The flag of a tag is set for good. A rewind commits only what it was granted, so the
pointer is in place by then. -/
theorem BaseInvariant.commits {doRevert : Bool}
    (kept : BaseInvariant base (.granted life doRevert ::ₘ rest)) :
    BaseInvariant (Rewind.commit ⟨doRevert⟩ base) ({.committed life} + rest) := by
  obtain ⟨known, stage, staged⟩ := kept
  have allowed := staged.allows _ (Multiset.mem_cons_self _ _)
  cases doRevert with
  | false =>
      have stands := allows_settled allowed
      subst stands
      exact ⟨known_settles known rfl rfl, .fixed life.value,
        staged_fixed staged (fun _ allowed => allowed) staged.words (every_single rfl)⟩
  | true =>
      have odd : lowWord (base.tag ||| 1) % 2 = 1 := by
        rw [low_word_or_one]
        omega
      have committed : Known base.commit ({.committed life} + rest) :=
        known_commit known (Multiset.zero_le _) (every_single rfl)
      rcases allows_holding allowed with ⟨holders, stands⟩ | stands
      · subst stands
        exact ⟨committed, .fixed life.value,
          staged_fixed staged (fun _ allowed => BaseStage.allows_fixed allowed)
            ⟨odd, staged.words.2.2.2⟩ (every_single rfl)⟩
      · subst stands
        exact ⟨committed, .fixed life.value,
          staged_fixed staged (fun _ allowed => allowed) ⟨odd, staged.words.2⟩
            (every_single rfl)⟩

theorem BaseInvariant.drops (kept : BaseInvariant base (.granted life false ::ₘ rest)) :
    BaseInvariant base (0 + rest) := by
  obtain ⟨known, stage, staged⟩ := kept
  have stands := allows_settled (staged.allows _ (Multiset.mem_cons_self _ _))
  subst stands
  exact ⟨known_leaves known, .fixed life.value,
    staged_fixed staged (fun _ allowed => allowed) staged.words every_none⟩

theorem BaseInvariant.revert_final
    (kept : BaseInvariant base (.revertDecides life t current ::ₘ rest))
    (fixed : isFinalized t = true) : BaseInvariant base (0 + rest) := by
  obtain ⟨known, stage, staged⟩ := kept
  have unchanged := known.final _ (Multiset.mem_cons_self _ _) t rfl fixed
  rw [← unchanged] at fixed
  obtain ⟨value, stands, -⟩ := stage_fixed staged ((is_finalized_iff base.tag).mp fixed)
  subst stands
  exact ⟨known_leaves known, .fixed value,
    staged_fixed staged (fun _ allowed => allowed) staged.words every_none⟩

/-- The last open rewind leaves a count of zero under a pointer that it still
has to null. -/
theorem BaseInvariant.revert_swaps
    (kept : BaseInvariant base (.revertDecides life t current ::ₘ rest))
    (unfixed : isFinalized t = false) (unchanged : base.tag = t) :
    BaseInvariant { base with tag := removeInflight (swapId t life.revertId) }
      ((if hasInflight (removeInflight (swapId t life.revertId)) then 0 else {.nulling}) +
        rest) := by
  obtain ⟨known, stage, staged⟩ := kept
  subst unchanged
  rcases allows_holding (staged.allows _ (Multiset.mem_cons_self _ _)) with
    ⟨holders, stands⟩ | stands
  · subst stands
    obtain ⟨positive, fewer, counted, pointed⟩ := staged.words
    have before := staged.counts holders rfl
    have single : activeCount {.revertDecides life base.tag current} = 1 := rfl
    rw [active_count_cons, single] at before
    have low : lowWord (removeInflight (swapId base.tag life.revertId)) =
        256 * (holders - 1) := by
      rw [low_word_remove_inflight, low_word_swap_id, counted]
      omega
    have spent : tagId (removeInflight (swapId base.tag life.revertId)) =
        tagId life.revertId.word := tag_id_remove_inflight (by omega)
    by_cases last : holders = 1
    · have drained : ¬ hasInflight (removeInflight (swapId base.tag life.revertId)) = true := by
        rw [has_inflight_iff, low, last]
        decide
      rw [if_neg drained]
      constructor
      · apply known_swap known unfixed
        · rw [spent, unspent_ids_singleton]
          rfl
        · exact every_single rfl
      · refine ⟨.nulling life.value, staged_alone (by omega) ?_ (every_single trivial) ?_⟩
        · refine ⟨?_, pointed⟩
          rw [low, last]
        · intro count known
          cases known
          rfl
    · have inflight : hasInflight (removeInflight (swapId base.tag life.revertId)) = true := by
        rw [has_inflight_iff, low]
        omega
      rw [if_pos inflight]
      constructor
      · apply known_swap known unfixed
        · rw [spent]
          rfl
        · exact every_none
      · refine ⟨.standing life.value (holders - 1), staged_recount staged ?_ every_none ?_⟩
        · exact ⟨by omega, by omega, low, pointed⟩
        · have ended : activeCount 0 = 0 := rfl
          omega
  · subst stands
    exact absurd staged.words.1 (not_finalized unfixed)

theorem BaseInvariant.nulls (kept : BaseInvariant base (.nulling ::ₘ rest)) :
    BaseInvariant { base with obj := none } (0 + rest) := by
  obtain ⟨known, stage, staged⟩ := kept
  obtain ⟨value, stands⟩ := allows_nulling (staged.allows _ (Multiset.mem_cons_self _ _))
  subst stands
  obtain ⟨zero, pointed⟩ := staged.words
  have torn : shornRead base.tag base.obj = true := by
    rw [pointed]
    apply Bool.eq_true_of_not_eq_false
    rw [shorn_some, zero]
    decide
  refine ⟨known_store known torn (Multiset.zero_le _) every_none, .empty,
    staged_alone (alone_after staged rfl rfl) ⟨zero, rfl⟩ every_none ?_⟩
  intro count known
  cases known
  rfl

theorem BaseInvariant.step {pool next : BasePool} {label : BaseTask}
    (kept : BaseInvariant pool.shared pool.tasks) (step : BaseStep pool label next) :
    BaseInvariant next.shared next.tasks := by
  obtain ⟨step, room⟩ := step
  cases step with
  | move rest moved =>
      cases moved with
      | wrongType wrong => exact kept.leaves rfl
      | conflicts whole different => exact kept.leaves rfl
      | starts allowed => exact kept.restarts rfl rfl rfl
      | setLoadsTag =>
          exact kept.continues rfl rfl (fun t seen => .inr (Option.some_inj.mp seen).symm)
            (fun _ _ seen => by cases seen)
      | setLoadsObj =>
          refine kept.continues rfl rfl (fun t seen => .inl seen) ?_
          intro t current seen
          cases seen
          rfl
      | setShorn torn => exact kept.restarts rfl rfl rfl
      | setFirst whole unchanged => exact kept.set_first whole unchanged
      | setFirstFails whole => exact kept.restarts rfl rfl rfl
      | setFinal whole fixed => exact kept.set_final whole fixed
      | setAgain whole unfixed unchanged => exact kept.set_again whole unfixed unchanged room
      | setAgainFails whole unfixed => exact kept.restarts rfl rfl rfl
      | stores => exact kept.stores
      | commits => exact kept.commits
      | destroys => exact kept.restarts rfl rfl rfl
      | drops => exact kept.drops
      | revertLoadsTag =>
          exact kept.continues rfl rfl (fun t seen => .inr (Option.some_inj.mp seen).symm)
            (fun _ _ seen => by cases seen)
      | revertLoadsObj =>
          refine kept.continues rfl rfl (fun t seen => .inl seen) ?_
          intro t current seen
          cases seen
          rfl
      | revertShorn torn => exact kept.restarts rfl rfl rfl
      | revertFinal whole fixed => exact kept.revert_final fixed
      | revertSwaps whole unfixed unchanged => exact kept.revert_swaps unfixed unchanged
      | revertFails whole unfixed => exact kept.restarts rfl rfl rfl
      | nulls => exact kept.nulls

end Steps

/-! ## Every interleaving -/

section Runs

variable {base after : RevertableBaseObject} {task : BaseTask} {tasks left : Multiset BaseTask}
  {value : StorageDeltaClass}

theorem BaseInvariant.pointed (kept : BaseInvariant base tasks) (member : task ∈ tasks)
    (granted : task.grantedValue? = some value) : base.obj = some value := by
  obtain ⟨-, stage, staged⟩ := kept
  have allowed := staged.allows task member
  unfold BaseTask.grantedValue? at granted
  cases role : task.role with
  | holding other =>
      rw [role] at granted allowed
      cases granted
      rcases allows_holding allowed with ⟨holders, stands⟩ | stands
      · subst stands
        exact staged.words.2.2.2
      · subst stands
        exact staged.words.2
  | settled other =>
      rw [role] at granted allowed
      cases granted
      have stands := allows_settled allowed
      subst stands
      exact staged.words.2
  | passive =>
      rw [role] at granted
      cases granted
  | storing other =>
      rw [role] at granted
      cases granted
  | nulling =>
      rw [role] at granted
      cases granted

theorem nulled_by_nulling (moved : BaseMoves base task after left) (set : base.obj ≠ none)
    (null : after.obj = none) : task = .nulling := by
  cases moved with
  | nulls => rfl
  | stores => cases null
  | @commits _ _ doRevert =>
      cases doRevert with
      | false => exact absurd null set
      | true => exact absurd null set
  | _ => exact absurd null set

theorem BaseInvariant.nulling_alone (kept : BaseInvariant base tasks)
    (member : BaseTask.nulling ∈ tasks) (one : task ∈ tasks) : task.grantedValue? = none := by
  obtain ⟨-, stage, staged⟩ := kept
  obtain ⟨value, stands⟩ := allows_nulling (staged.allows _ member)
  subst stands
  have allowed := staged.allows task one
  unfold BaseTask.grantedValue?
  cases role : task.role with
  | passive => rfl
  | storing other => rfl
  | nulling => rfl
  | holding other =>
      rw [role] at allowed
      exact allowed.elim
  | settled other =>
      rw [role] at allowed
      exact allowed.elim

theorem committed_stays {life : RewindLife} {pool next : BasePool} {label : BaseTask}
    (step : BaseStep pool label next) (member : BaseTask.committed life ∈ pool.tasks) :
    BaseTask.committed life ∈ next.tasks := by
  obtain ⟨step, -⟩ := step
  cases step with
  | move rest moved =>
      apply Multiset.mem_add.mpr
      right
      rcases Multiset.mem_cons.mp member with moving | old
      · subst moving
        cases moved
      · exact old

theorem BaseInvariant.run {start final : BasePool} {labels : List BaseTask}
    (kept : BaseInvariant start.shared start.tasks) (run : Run BaseStep start labels final) :
    BaseInvariant final.shared final.tasks :=
  run_invariant (fun pool => BaseInvariant pool.shared pool.tasks)
    (fun _ _ _ kept step => kept.step step) kept run

end Runs

def drawnIds (lives : Multiset RewindLife) : Multiset ℕ := (lives.map RewindLife.ids).sum

theorem base_pool_invariant {required : Option ObjectType} {lives : Multiset RewindLife}
    (distinct : (0 ::ₘ drawnIds lives).Nodup) :
    BaseInvariant (basePool required lives).shared (basePool required lives).tasks := by
  have unspent : unspentIds (basePool required lives).tasks = drawnIds lives := by
    simp only [unspentIds, drawnIds, basePool, Multiset.map_map]
    rfl
  have starting : ∀ task ∈ (basePool required lives).tasks, ∃ life, task = .setStarts life := by
    intro task member
    obtain ⟨life, -, same⟩ := Multiset.mem_map.mp member
    exact ⟨life, same.symm⟩
  have silent : ∀ task ∈ (basePool required lives).tasks, task.loaded? = none := by
    intro task member
    obtain ⟨life, rfl⟩ := starting task member
    rfl
  obtain ⟨fresh, nodup⟩ := Multiset.nodup_cons.mp distinct
  constructor
  · refine ⟨?_, ?_, ?_, ?_, ?_⟩
    · rwa [unspent]
    · have zero : tagId (basePool required lives).shared.tag = 0 := Nat.zero_div _
      rwa [unspent, zero]
    · intro task member t seen
      rw [silent task member] at seen
      cases seen
    · intro task member t seen
      rw [silent task member] at seen
      cases seen
    · intro task member t current seen
      have loaded := read_loaded seen
      rw [silent task member] at loaded
      cases loaded
  · refine ⟨.empty, ⟨rfl, rfl⟩, ?_, ?_⟩
    · intro task member
      obtain ⟨life, rfl⟩ := starting task member
      trivial
    · intro count counted
      cases counted
      apply Multiset.countP_eq_zero.mpr
      intro task member
      obtain ⟨life, rfl⟩ := starting task member
      exact Bool.false_ne_true

/-- In every interleaving with distinct ids, none that of the first tag, the
granted rewinds agree, a committed value stays, and the pointer is nulled only
when no rewind is granted. -/
theorem base_values_agree {required : Option ObjectType} {lives : Multiset RewindLife}
    {labels : List BaseTask} {pool : BasePool} (distinct : (0 ::ₘ drawnIds lives).Nodup)
    (run : Run BaseStep (basePool required lives) labels pool) :
    (∀ one ∈ pool.tasks, ∀ other ∈ pool.tasks, ∀ value held, one.grantedValue? = some value →
      other.grantedValue? = some held → value = held) ∧
    (∀ life, BaseTask.committed life ∈ pool.tasks → ∀ more later,
      Run BaseStep pool more later → later.shared.obj = some life.value) ∧
    (∀ label next, BaseStep pool label next → pool.shared.obj ≠ none → next.shared.obj = none →
      ∀ task ∈ pool.tasks, task.grantedValue? = none) := by
  have kept := (base_pool_invariant distinct).run run
  refine ⟨?_, ?_, ?_⟩
  · intro one first other second value held granted also
    have left := kept.pointed first granted
    have right := kept.pointed second also
    rw [left] at right
    exact Option.some_inj.mp right
  · intro life member more later further
    have stays := run_invariant (fun pool => BaseTask.committed life ∈ pool.tasks)
      (fun _ _ _ member step => committed_stays step member) member further
    exact (kept.run further).pointed stays rfl
  · intro label next step set null task member
    obtain ⟨step, -⟩ := step
    cases step with
    | move rest moved =>
        have nulling := nulled_by_nulling moved set null
        subst nulling
        exact kept.nulling_alone (Multiset.mem_cons_self _ _) member

/-! ## Two rewinds on one value -/

theorem pair_moves {base after : RevertableBaseObject} {task next : BaseTask} (other : BaseTask)
    (moved : BaseMoves base task after {next}) :
    BaseStep ⟨base, task ::ₘ {other}⟩ task ⟨after, next ::ₘ {other}⟩ := by
  refine ⟨.move {other} moved, ?_⟩
  have fits := Multiset.countP_le_card (fun task : BaseTask => task.holds = true)
    (next ::ₘ {other})
  rw [Multiset.card_cons, Multiset.card_singleton] at fits
  exact Nat.lt_of_le_of_lt fits (by decide)

theorem pair_ends {base after : RevertableBaseObject} {task : BaseTask} (other : BaseTask)
    (moved : BaseMoves base task after 0) :
    BaseStep ⟨base, task ::ₘ {other}⟩ task ⟨after, {other}⟩ := by
  refine ⟨.move {other} moved, ?_⟩
  have fits := Multiset.countP_le_card (fun task : BaseTask => task.holds = true) {other}
  exact Nat.lt_of_le_of_lt fits (by simp)

def firstSetter : RewindLife := ⟨.hashSet, ⟨0x10000, rfl⟩, ⟨0x20000, rfl⟩⟩
def secondSetter : RewindLife := ⟨.hashSet, ⟨0x30000, rfl⟩, ⟨0x40000, rfl⟩⟩

def tagged (tag : UInt64) (obj : Option StorageDeltaClass) : RevertableBaseObject where
  tag := tag
  obj := obj
  requiredType := none

/-- The first rewind is taken back while the other one holds the value. -/
theorem base_values_agree_shared :
    ∃ labels pool, Run BaseStep (basePool none {firstSetter, secondSetter}) labels pool ∧
      pool.tasks = {.committed secondSetter} ∧ pool.shared.obj = some .hashSet := by
  have allowed (life : RewindLife) : typeAllows none life.value := by
    intro type impossible
    cases impossible
  let firstTag := addInflight (swapId 0 firstSetter.setId)
  let secondTag := addInflight (swapId firstTag secondSetter.setId)
  let thirdTag := removeInflight (swapId secondTag firstSetter.revertId)
  have sets : Run BaseStep ⟨tagged 0 none, .setStarts firstSetter ::ₘ {.setStarts secondSetter}⟩ _
      ⟨tagged firstTag (some .hashSet),
        .granted firstSetter true ::ₘ {.setStarts secondSetter}⟩ :=
    .cons (pair_moves _ (.starts (allowed _)))
      (.cons (pair_moves _ .setLoadsTag)
        (.cons (pair_moves _ .setLoadsObj)
          (.cons (pair_moves _ (.setFirst ((shorn_none 0).mpr rfl) rfl))
            (.cons (pair_moves _ .stores) (.nil _)))))
  have firstWhole : shornRead firstTag (some .hashSet) = false := by decide
  have firstOpen : isFinalized firstTag = false := by decide
  have secondWhole : shornRead secondTag (some .hashSet) = false := by decide
  have secondOpen : isFinalized secondTag = false := by decide
  have joins : Run BaseStep
      ⟨tagged firstTag (some .hashSet), .setStarts secondSetter ::ₘ {.granted firstSetter true}⟩ _
      ⟨tagged secondTag (some .hashSet),
        .granted secondSetter true ::ₘ {.granted firstSetter true}⟩ :=
    .cons (pair_moves _ (.starts (allowed _)))
      (.cons (pair_moves _ .setLoadsTag)
        (.cons (pair_moves _ .setLoadsObj)
          (.cons (pair_moves _ (.setAgain firstWhole firstOpen rfl)) (.nil _))))
  have released : BaseMoves (tagged secondTag (some .hashSet))
      (.revertDecides firstSetter secondTag (some .hashSet)) (tagged thirdTag (some .hashSet))
      (if hasInflight thirdTag then 0 else {.nulling}) :=
    .revertSwaps secondWhole secondOpen rfl
  rw [if_pos (by decide)] at released
  have leaves : Run BaseStep
      ⟨tagged secondTag (some .hashSet),
        .granted firstSetter true ::ₘ {.granted secondSetter true}⟩ _
      ⟨tagged thirdTag (some .hashSet), {.granted secondSetter true}⟩ :=
    .cons (pair_moves _ .destroys)
      (.cons (pair_moves _ .revertLoadsTag)
        (.cons (pair_moves _ .revertLoadsObj) (.cons (pair_ends _ released) (.nil _))))
  have commits : BaseStep ⟨tagged thirdTag (some .hashSet), {.granted secondSetter true}⟩ _
      ⟨Rewind.commit ⟨true⟩ (tagged thirdTag (some .hashSet)), {.committed secondSetter} + 0⟩ :=
    ⟨.move 0 .commits, Nat.lt_of_le_of_lt (Multiset.countP_le_card _ _) (by simp)⟩
  have swapped (one other : BaseTask) :
      one ::ₘ ({other} : Multiset BaseTask) = other ::ₘ {one} := Multiset.pair_comm one other
  rw [swapped (.setStarts secondSetter)] at joins
  rw [swapped (.granted firstSetter true)] at leaves
  have run : Run BaseStep (basePool none {firstSetter, secondSetter}) _ _ :=
    run_snoc (run_append (run_append sets joins) leaves) commits
  have distinct : (0 ::ₘ drawnIds {firstSetter, secondSetter}).Nodup := by decide
  exact ⟨_, _, run, rfl, (base_values_agree distinct run).2.1 secondSetter
    (Multiset.mem_singleton_self _) [] _ (.nil _)⟩

end Scs
