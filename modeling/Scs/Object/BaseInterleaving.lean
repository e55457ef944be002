import Mathlib.Data.Multiset.Count
import Mathlib.Data.Multiset.Basic
import Scs.Library.Threads
import Scs.Object.RevertableBaseObject

/-!
# Base-value agreement, access by access (`RevertableBaseObject`)

Any number of sets, commits and destructions of rewinds on one object within a
round. One move is one load, compare-exchange, fetch-or or store of the tag or of
the pointer; the weak compare-exchange may also fail where the tag is unchanged.
Fewer than 256 rewinds are ever open at once, so the count never carries.
-/

namespace Scs

set_option autoImplicit false

open Runs Threads

/-- One call of `try_set`, with the swap id that it draws and the one that the
destructor of its rewind would draw. -/
structure RewindLife where
  value : StorageDeltaClass
  setId : UniqueId
  revertId : UniqueId

/-- A rewind from the call of `try_set` on, by the access it makes next. -/
inductive BaseTask where
  | setStarts (life : RewindLife)
  | setLoads (life : RewindLife)
  | setLoaded (life : RewindLife) (t : UInt64)
  | setDecides (life : RewindLife) (t : UInt64) (current : Option StorageDeltaClass)
  | storing (life : RewindLife)
  | granted (life : RewindLife) (doRevert : Bool)
  | committed (life : RewindLife)
  | revertLoads (life : RewindLife)
  | revertLoaded (life : RewindLife) (t : UInt64)
  | revertDecides (life : RewindLife) (t : UInt64) (current : Option StorageDeltaClass)
  | nulling

def shornRead (t : UInt64) (current : Option StorageDeltaClass) : Bool :=
  (expectNonnull t && current.isNone) || (!expectNonnull t && current.isSome)

inductive BaseMoves : Threads.Moves RevertableBaseObject BaseTask
  -- `try_set`
  | wrongType {base : RevertableBaseObject} {life : RewindLife}
      (wrong : ¬ typeAllows base.requiredType life.value) :
      BaseMoves base (.setStarts life) base 0
  | starts {base : RevertableBaseObject} {life : RewindLife}
      (allowed : typeAllows base.requiredType life.value) :
      BaseMoves base (.setStarts life) base {.setLoads life}
  | setLoadsTag {base : RevertableBaseObject} {life : RewindLife} :
      BaseMoves base (.setLoads life) base {.setLoaded life base.tag}
  | setLoadsObj {base : RevertableBaseObject} {life : RewindLife} {t : UInt64} :
      BaseMoves base (.setLoaded life t) base {.setDecides life t base.obj}
  | setShorn {base : RevertableBaseObject} {life : RewindLife} {t : UInt64}
      {current : Option StorageDeltaClass} (torn : shornRead t current = true) :
      BaseMoves base (.setDecides life t current) base {.setLoads life}
  | setFirst {base : RevertableBaseObject} {life : RewindLife} {t : UInt64}
      (whole : shornRead t none = false) (unchanged : base.tag = t) :
      BaseMoves base (.setDecides life t none)
        { base with tag := addInflight (swapId t life.setId) } {.storing life}
  | setFirstFails {base : RevertableBaseObject} {life : RewindLife} {t : UInt64}
      (whole : shornRead t none = false) :
      BaseMoves base (.setDecides life t none) base {.setLoads life}
  | conflicts {base : RevertableBaseObject} {life : RewindLife} {t : UInt64}
      {current : StorageDeltaClass} (whole : shornRead t (some current) = false)
      (different : current ≠ life.value) :
      BaseMoves base (.setDecides life t (some current)) base 0
  | setFinal {base : RevertableBaseObject} {life : RewindLife} {t : UInt64}
      (whole : shornRead t (some life.value) = false) (fixed : isFinalized t = true) :
      BaseMoves base (.setDecides life t (some life.value)) base {.granted life false}
  | setAgain {base : RevertableBaseObject} {life : RewindLife} {t : UInt64}
      (whole : shornRead t (some life.value) = false) (unfixed : isFinalized t = false)
      (unchanged : base.tag = t) :
      BaseMoves base (.setDecides life t (some life.value))
        { base with tag := addInflight (swapId t life.setId) } {.granted life true}
  | setAgainFails {base : RevertableBaseObject} {life : RewindLife} {t : UInt64}
      (whole : shornRead t (some life.value) = false) (unfixed : isFinalized t = false) :
      BaseMoves base (.setDecides life t (some life.value)) base {.setLoads life}
  | stores {base : RevertableBaseObject} {life : RewindLife} :
      BaseMoves base (.storing life) { base with obj := some life.value } {.granted life true}
  -- The rewind
  | commits {base : RevertableBaseObject} {life : RewindLife} {doRevert : Bool} :
      BaseMoves base (.granted life doRevert) (Rewind.commit ⟨doRevert⟩ base) {.committed life}
  | destroys {base : RevertableBaseObject} {life : RewindLife} :
      BaseMoves base (.granted life true) base {.revertLoads life}
  | drops {base : RevertableBaseObject} {life : RewindLife} :
      BaseMoves base (.granted life false) base 0
  -- `revert`
  | revertLoadsTag {base : RevertableBaseObject} {life : RewindLife} :
      BaseMoves base (.revertLoads life) base {.revertLoaded life base.tag}
  | revertLoadsObj {base : RevertableBaseObject} {life : RewindLife} {t : UInt64} :
      BaseMoves base (.revertLoaded life t) base {.revertDecides life t base.obj}
  | revertShorn {base : RevertableBaseObject} {life : RewindLife} {t : UInt64}
      {current : Option StorageDeltaClass} (torn : shornRead t current = true) :
      BaseMoves base (.revertDecides life t current) base {.revertLoads life}
  | revertFinal {base : RevertableBaseObject} {life : RewindLife} {t : UInt64}
      {current : Option StorageDeltaClass} (whole : shornRead t current = false)
      (fixed : isFinalized t = true) :
      BaseMoves base (.revertDecides life t current) base 0
  | revertSwaps {base : RevertableBaseObject} {life : RewindLife} {t : UInt64}
      {current : Option StorageDeltaClass} (whole : shornRead t current = false)
      (unfixed : isFinalized t = false) (unchanged : base.tag = t) :
      BaseMoves base (.revertDecides life t current)
        { base with tag := removeInflight (swapId t life.revertId) }
        (if hasInflight (removeInflight (swapId t life.revertId)) then 0 else {.nulling})
  | revertFails {base : RevertableBaseObject} {life : RewindLife} {t : UInt64}
      {current : Option StorageDeltaClass} (whole : shornRead t current = false)
      (unfixed : isFinalized t = false) :
      BaseMoves base (.revertDecides life t current) base {.revertLoads life}
  | nulls {base : RevertableBaseObject} :
      BaseMoves base .nulling { base with obj := none } 0

abbrev BasePool := Pool RevertableBaseObject BaseTask

inductive BaseRole where
  | passive
  | storing (value : StorageDeltaClass)
  | holding (value : StorageDeltaClass)
  | settled (value : StorageDeltaClass)
  | nulling

namespace BaseTask

def role : BaseTask → BaseRole
  | .storing life => .storing life.value
  | .granted life true => .holding life.value
  | .granted life false => .settled life.value
  | .committed life => .settled life.value
  | .revertLoads life => .holding life.value
  | .revertLoaded life _ => .holding life.value
  | .revertDecides life _ _ => .holding life.value
  | .nulling => .nulling
  | _ => .passive

def holds (task : BaseTask) : Bool :=
  match task.role with
  | .storing _ => true
  | .holding _ => true
  | _ => false

def nulls (task : BaseTask) : Bool :=
  match task.role with
  | .nulling => true
  | _ => false

def grantedValue? (task : BaseTask) : Option StorageDeltaClass :=
  match task.role with
  | .holding value => some value
  | .settled value => some value
  | _ => none

end BaseTask

def openRewinds (pool : BasePool) : ℕ := pool.tasks.countP fun task => task.holds = true

/-- A move after which fewer than 256 rewinds are open. The count of the tag has eight bits,
and a carry would reach the swap id. -/
def BaseStep (pool : BasePool) (label : BaseTask) (next : BasePool) : Prop :=
  Threads.Step BaseMoves pool label next ∧ openRewinds next < 256

def basePool (required : Option ObjectType) (lives : Multiset RewindLife) : BasePool where
  shared := { tag := 0, obj := none, requiredType := required }
  tasks := lives.map .setStarts

/-! ## Swap ids -/

def tagId (tag : UInt64) : ℕ := tag.toNat / 2 ^ 16

theorem tag_id_add_inflight {t : UInt64} {newId : UniqueId} (room : lowWord t + 256 < 2 ^ 16) :
    tagId (addInflight (swapId t newId)) = tagId newId.word := by
  have one : ((1 : UInt64) <<< 8).toNat = 256 := rfl
  have aligned := newId.aligned
  have bounded := newId.word.toNat_lt
  unfold tagId addInflight swapId
  rw [UInt64.toNat_add, UInt64.toNat_add, to_nat_and_mask, one]
  omega

theorem tag_id_remove_inflight {t : UInt64} {newId : UniqueId} (held : 256 ≤ lowWord t) :
    tagId (removeInflight (swapId t newId)) = tagId newId.word := by
  have one : ((1 : UInt64) <<< 8).toNat = 256 := rfl
  have aligned := newId.aligned
  have bounded := newId.word.toNat_lt
  have low : lowWord t < 2 ^ 16 := Nat.mod_lt _ (by decide)
  unfold tagId removeInflight swapId
  rw [UInt64.toNat_sub, UInt64.toNat_add, to_nat_and_mask, one]
  omega

theorem tag_id_or_one (tag : UInt64) : tagId (tag ||| 1) = tagId tag := by
  have one : (1 : UInt64).toNat = 1 := rfl
  have halves : (tag.toNat ||| 1) / 2 = tag.toNat / 2 := by
    have shifted : (tag.toNat ||| 1) >>> 1 = tag.toNat >>> 1 := by
      rw [Nat.shiftRight_or_distrib]
      simp
    simpa only [Nat.shiftRight_eq_div_pow, pow_one] using shifted
  unfold tagId
  rw [UInt64.toNat_or, one]
  omega

theorem or_one_of_finalized {tag : UInt64} (fixed : isFinalized tag = true) : tag ||| 1 = tag := by
  have odd := (is_finalized_iff tag).mp fixed
  have low := low_word_or_one tag
  have upper := tag_id_or_one tag
  apply UInt64.toNat_inj.mp
  unfold tagId lowWord at *
  omega

def RewindLife.ids (life : RewindLife) : Multiset ℕ :=
  {tagId life.setId.word, tagId life.revertId.word}

def BaseTask.unspent : BaseTask → Multiset ℕ
  | .setStarts life => life.ids
  | .setLoads life => life.ids
  | .setLoaded life _ => life.ids
  | .setDecides life _ _ => life.ids
  | .storing life => {tagId life.revertId.word}
  | .granted life true => {tagId life.revertId.word}
  | .revertLoads life => {tagId life.revertId.word}
  | .revertLoaded life _ => {tagId life.revertId.word}
  | .revertDecides life _ _ => {tagId life.revertId.word}
  | _ => 0

def BaseTask.loaded? : BaseTask → Option UInt64
  | .setLoaded _ t => some t
  | .setDecides _ t _ => some t
  | .revertLoaded _ t => some t
  | .revertDecides _ t _ => some t
  | _ => none

def BaseTask.read? : BaseTask → Option (UInt64 × Option StorageDeltaClass)
  | .setDecides _ t current => some (t, current)
  | .revertDecides _ t current => some (t, current)
  | _ => none

def unspentIds (tasks : Multiset BaseTask) : Multiset ℕ := (tasks.map BaseTask.unspent).sum

theorem unspent_ids_cons (task : BaseTask) (rest : Multiset BaseTask) :
    unspentIds (task ::ₘ rest) = task.unspent + unspentIds rest := by
  simp only [unspentIds, Multiset.map_cons, Multiset.sum_cons]

theorem unspent_ids_add (left rest : Multiset BaseTask) :
    unspentIds (left + rest) = unspentIds left + unspentIds rest := by
  simp only [unspentIds, Multiset.map_add, Multiset.sum_add]

theorem unspent_ids_singleton (task : BaseTask) : unspentIds {task} = task.unspent := by
  simp only [unspentIds, Multiset.map_singleton, Multiset.sum_singleton]

/-- No tag that was seen comes back: its id is spent. A whole read of the tag in
place is a read of the pointer in place. -/
structure Known (base : RevertableBaseObject) (tasks : Multiset BaseTask) : Prop where
  distinct : (unspentIds tasks).Nodup
  current : tagId base.tag ∉ unspentIds tasks
  spent : ∀ task ∈ tasks, ∀ t, task.loaded? = some t → tagId t ∉ unspentIds tasks
  final : ∀ task ∈ tasks, ∀ t, task.loaded? = some t → isFinalized t = true → base.tag = t
  whole : ∀ task ∈ tasks, ∀ t current, task.read? = some (t, current) → base.tag = t →
    shornRead t current = false → base.obj = current

section Known

variable {base : RevertableBaseObject} {task : BaseTask} {left rest : Multiset BaseTask}

theorem read_loaded {t : UInt64} {current : Option StorageDeltaClass}
    (read : task.read? = some (t, current)) : task.loaded? = some t := by
  cases task <;> cases read <;> rfl

theorem unspent_ids_mono (fewer : unspentIds left ≤ task.unspent) :
    unspentIds (left + rest) ≤ unspentIds (task ::ₘ rest) := by
  rw [unspent_ids_add, unspent_ids_cons]
  exact Multiset.add_le_add_right fewer

theorem known_local (known : Known base (task ::ₘ rest))
    (fewer : unspentIds left ≤ task.unspent)
    (loaded : ∀ other ∈ left, ∀ t, other.loaded? = some t → task.loaded? = some t ∨ t = base.tag)
    (read : ∀ other ∈ left, ∀ t current, other.read? = some (t, current) →
      current = base.obj) : Known base (left + rest) where
  distinct := Multiset.nodup_of_le (unspent_ids_mono fewer) known.distinct
  current member := known.current (Multiset.mem_of_le (unspent_ids_mono fewer) member)
  spent other member t seen unspent := by
    have before := Multiset.mem_of_le (unspent_ids_mono fewer) unspent
    rcases Multiset.mem_add.mp member with fresh | old
    · rcases loaded other fresh t seen with own | rfl
      · exact known.spent task (Multiset.mem_cons_self _ _) t own before
      · exact known.current before
    · exact known.spent other (Multiset.mem_cons_of_mem old) t seen before
  final other member t seen fixed := by
    rcases Multiset.mem_add.mp member with fresh | old
    · rcases loaded other fresh t seen with own | rfl
      · exact known.final task (Multiset.mem_cons_self _ _) t own fixed
      · rfl
    · exact known.final other (Multiset.mem_cons_of_mem old) t seen fixed
  whole other member t current seen same untorn := by
    rcases Multiset.mem_add.mp member with fresh | old
    · exact (read other fresh t current seen).symm
    · exact known.whole other (Multiset.mem_cons_of_mem old) t current seen same untorn

theorem known_swap (known : Known base (task ::ₘ rest)) {newTag : UInt64}
    (unfixed : isFinalized base.tag = false)
    (spends : task.unspent = tagId newTag ::ₘ unspentIds left)
    (silent : ∀ other ∈ left, other.loaded? = none) :
    Known { base with tag := newTag } (left + rest) := by
  have whole := known.distinct
  rw [unspent_ids_cons, spends, Multiset.cons_add, ← unspent_ids_add, Multiset.nodup_cons] at whole
  have fewer : unspentIds left ≤ task.unspent := by
    rw [spends]
    exact Multiset.le_cons_self _ _
  have own : tagId newTag ∈ unspentIds (task ::ₘ rest) := by
    rw [unspent_ids_cons, spends]
    exact Multiset.mem_add.mpr (.inl (Multiset.mem_cons_self _ _))
  have others : ∀ other ∈ left + rest, ∀ t, other.loaded? = some t →
      tagId t ∉ unspentIds (task ::ₘ rest) ∧ (isFinalized t = true → base.tag = t) := by
    intro other member t seen
    rcases Multiset.mem_add.mp member with fresh | old
    · rw [silent other fresh] at seen
      cases seen
    · have before : other ∈ task ::ₘ rest := Multiset.mem_cons_of_mem old
      exact ⟨known.spent other before t seen, known.final other before t seen⟩
  refine ⟨whole.2, whole.1, ?_, ?_, ?_⟩
  · intro other member t seen unspent
    exact (others other member t seen).1 (Multiset.mem_of_le (unspent_ids_mono fewer) unspent)
  · intro other member t seen fixed
    have same := (others other member t seen).2 fixed
    rw [same, fixed] at unfixed
    cases unfixed
  · intro other member t current seen same
    have unspent := (others other member t (read_loaded seen)).1
    have installed : newTag = t := same
    rw [← installed] at unspent
    exact absurd own unspent

theorem known_store (known : Known base (task ::ₘ rest)) {obj : Option StorageDeltaClass}
    (torn : shornRead base.tag base.obj = true) (fewer : unspentIds left ≤ task.unspent)
    (silent : ∀ other ∈ left, other.loaded? = none) :
    Known { base with obj := obj } (left + rest) := by
  have kept := known_local known fewer
    (fun other fresh t seen => by rw [silent other fresh] at seen; cases seen)
    (fun other fresh t current seen => by
      have loaded := read_loaded seen
      rw [silent other fresh] at loaded
      cases loaded)
  refine ⟨kept.distinct, kept.current, kept.spent, kept.final, ?_⟩
  intro other member t current seen same untorn
  have placed := kept.whole other member t current seen same untorn
  have installed : base.tag = t := same
  rw [placed, installed, untorn] at torn
  cases torn

theorem known_commit (known : Known base (task ::ₘ rest)) (fewer : unspentIds left ≤ task.unspent)
    (silent : ∀ other ∈ left, other.loaded? = none) : Known base.commit (left + rest) := by
  have kept := known_local known fewer
    (fun other fresh t seen => by rw [silent other fresh] at seen; cases seen)
    (fun other fresh t current seen => by
      have loaded := read_loaded seen
      rw [silent other fresh] at loaded
      cases loaded)
  by_cases fixed : isFinalized base.tag = true
  · have same : base.commit = base := by
      unfold RevertableBaseObject.commit
      rw [or_one_of_finalized fixed]
    rw [same]
    exact kept
  · have odd : isFinalized (base.tag ||| 1) = true := by
      rw [is_finalized_iff, low_word_or_one]
      omega
    refine ⟨kept.distinct, ?_, kept.spent, ?_, ?_⟩
    · have upper := tag_id_or_one base.tag
      simp only [RevertableBaseObject.commit, upper]
      exact kept.current
    · intro other member t seen final
      have same := kept.final other member t seen final
      rw [same] at fixed
      exact absurd final fixed
    · intro other member t current seen same
      have installed : base.tag ||| 1 = t := same
      have final : isFinalized t = true := installed ▸ odd
      have before := kept.final other member t (read_loaded seen) final
      rw [before] at fixed
      exact absurd final fixed

end Known

end Scs
