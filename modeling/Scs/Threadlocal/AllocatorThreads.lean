import Scs.HashSet.HashIndices
import Scs.Library.Runs

/-!
# Allocations by several threads (`threadlocal/allocator.h`)

A thread makes its buffer, takes a position and writes its entry in steps of
their own, with those of other threads in between. Each write completes one call
of `allocate` on the allocator that does not show positions taken but not written.
-/

namespace Scs

set_option autoImplicit false

open Runs

/-! ## Indices as words -/

/-- `TLCACHE_BITS_REQUIRED`. -/
def tlcacheBitsRequired : UInt32 := 9

def bufferMask : UInt32 := 0xFFFFFFFF >>> tlcacheBitsRequired

namespace BlockAllocator

variable {Value : Type}

def bufferIdx (thread : Fin tlcacheSize) : UInt32 :=
  UInt32.ofNat thread.val <<< (32 - tlcacheBitsRequired)

/-- `out + buffer_idx`, with the offset after its increment. -/
def wordIndex (thread : Fin tlcacheSize) (offset : ℕ) : UInt32 :=
  UInt32.ofNat offset + bufferIdx thread

def getWord (idx : UInt32) (allocator : BlockAllocator Value) : Except Fault Value :=
  let bufferIdx := idx >>> (32 - tlcacheBitsRequired)
  if inside : bufferIdx.toNat < tlcacheSize then
    match allocator.cache ⟨bufferIdx.toNat, inside⟩ with
    | none => .error (.runtimeError "invalid HashAllocator access")
    | some buffer => .ok (buffer.buffer ((idx &&& bufferMask) - 1).toNat)
  else .error .outOfRange

theorem buffer_idx_to_nat (thread : Fin tlcacheSize) :
    (bufferIdx thread).toNat = thread.val * 2 ^ bufferBits := by
  have few := thread.isLt
  unfold tlcacheSize at few
  have shift : (32 - tlcacheBitsRequired).toNat % 32 = 23 := rfl
  have small : (UInt32.ofNat thread.val).toNat = thread.val :=
    UInt32.toNat_ofNat_of_lt' (few.trans (by decide))
  rw [bufferIdx, UInt32.toNat_shiftLeft, shift, small, Nat.shiftLeft_eq, bufferBits]
  omega

theorem word_index_eq {thread : Fin tlcacheSize} {position : ℕ} (inside : position < allocSize) :
    wordIndex thread (position + 1) = allocIndex thread position := by
  have few := thread.isLt
  have buffer := buffer_idx_to_nat thread
  have index : (allocIndex thread position).toNat = _ := alloc_index_to_nat inside
  unfold allocSize at inside
  unfold tlcacheSize at few
  have small : (UInt32.ofNat (position + 1)).toNat = position + 1 := by
    apply UInt32.toNat_ofNat_of_lt'
    exact lt_of_le_of_lt inside (by decide)
  apply UInt32.toNat_inj.mp
  rw [wordIndex, UInt32.toNat_add, buffer, small, index, bufferBits]
  omega

/-- Shifting and masking split an index as division does. -/
theorem get_word_eq {idx : UInt32} (positive : 0 < idx.toNat % 2 ^ bufferBits)
    (allocator : BlockAllocator Value) : allocator.getWord idx = allocator.get idx := by
  have shift : (32 - tlcacheBitsRequired).toNat % 32 = 23 := rfl
  have quotient : (idx >>> (32 - tlcacheBitsRequired)).toNat = idx.toNat / 2 ^ bufferBits := by
    rw [UInt32.toNat_shiftRight, shift, Nat.shiftRight_eq_div_pow, bufferBits]
  have mask : bufferMask.toNat = 2 ^ bufferBits - 1 := rfl
  have masked : (idx &&& bufferMask).toNat = idx.toNat % 2 ^ bufferBits := by
    rw [UInt32.toNat_and, mask, Nat.and_two_pow_sub_one_eq_mod]
  have remainder : ((idx &&& bufferMask) - 1).toNat = idx.toNat % 2 ^ bufferBits - 1 := by
    have one : (1 : UInt32).toNat = 1 := rfl
    have bound := (idx &&& bufferMask).toNat_lt
    rw [UInt32.toNat_sub, one, masked]
    omega
  have inside : idx.toNat / 2 ^ bufferBits < tlcacheSize := by
    rw [tlcacheSize]
    exact Nat.div_lt_of_lt_mul idx.toNat_lt
  have read : allocator.getWord idx =
      match allocator.cache ⟨idx.toNat / 2 ^ bufferBits, inside⟩ with
      | none => .error (.runtimeError "invalid HashAllocator access")
      | some buffer => .ok (buffer.buffer (idx.toNat % 2 ^ bufferBits - 1)) := by
    simp only [getWord, quotient, remainder, dif_pos inside]
  exact read

end BlockAllocator

/-! ## Steps of a call -/

inductive AllocationStage (Value : Type) where
  | idle
  | opened (h : Value)
  | claimed (h : Value)

/-- `given` lists the indices that were returned since the reset, and for what. -/
structure AllocatorPool (Value : Type) where
  allocator : BlockAllocator Value
  stage : Fin tlcacheSize → AllocationStage Value
  given : List (UInt32 × Value)

namespace AllocatorPool

variable {Value : Type}

def afterReset (allocator : BlockAllocator Value) : AllocatorPool Value where
  allocator := allocator.reset
  stage _ := .idle
  given := []

def setStage (thread : Fin tlcacheSize) (stage : AllocationStage Value)
    (pool : AllocatorPool Value) : AllocatorPool Value :=
  { pool with stage := Function.update pool.stage thread stage }

def setBuffer (thread : Fin tlcacheSize) (buffer : ThreadlocalBlockAllocator Value)
    (pool : AllocatorPool Value) : AllocatorPool Value :=
  { pool with
    allocator.cache := Function.update pool.allocator.cache thread (some buffer) }

end AllocatorPool

section Steps

variable {Value : Type} [Inhabited Value]

inductive AllocatorStep : AllocatorPool Value → Fin tlcacheSize → AllocatorPool Value → Prop
  /-- `cache.get()`, which makes the buffer of a new thread. -/
  | opens {pool : AllocatorPool Value} (thread : Fin tlcacheSize) (h : Value)
      (idle : pool.stage thread = .idle) :
      AllocatorStep pool thread
        ((pool.setBuffer thread (pool.allocator.own thread)).setStage thread (.opened h))
  | refuses {pool : AllocatorPool Value} (thread : Fin tlcacheSize) {h : Value}
      {buffer : ThreadlocalBlockAllocator Value} (opened : pool.stage thread = .opened h)
      (cached : pool.allocator.cache thread = some buffer) (full : buffer.offset ≥ allocSize) :
      AllocatorStep pool thread (pool.setStage thread .idle)
  /-- `offset++`. -/
  | claims {pool : AllocatorPool Value} (thread : Fin tlcacheSize) {h : Value}
      {buffer : ThreadlocalBlockAllocator Value} (opened : pool.stage thread = .opened h)
      (cached : pool.allocator.cache thread = some buffer) (room : buffer.offset < allocSize) :
      AllocatorStep pool thread
        ((pool.setBuffer thread { buffer with offset := buffer.offset + 1, bounded := room
          }).setStage thread (.claimed h))
  /-- `(*buffer)[offset - 1] = std::move(h)`, and the return. -/
  | stores {pool : AllocatorPool Value} (thread : Fin tlcacheSize) {h : Value}
      {buffer : ThreadlocalBlockAllocator Value} (claimed : pool.stage thread = .claimed h)
      (cached : pool.allocator.cache thread = some buffer) :
      AllocatorStep pool thread
        { (pool.setBuffer thread
            { buffer with buffer := Function.update buffer.buffer (buffer.offset - 1) h
              }).setStage thread .idle with
          given := (BlockAllocator.wordIndex thread buffer.offset, h) :: pool.given }

end Steps

/-! ## The allocator as it is between calls -/

/-- A buffer without the position that is taken but not written. -/
def AllocationStage.settled {Value : Type} (buffer : ThreadlocalBlockAllocator Value) :
    AllocationStage Value → ThreadlocalBlockAllocator Value
  | .claimed _ =>
      { buffer with
        offset := buffer.offset - 1
        bounded := (Nat.sub_le _ _).trans buffer.bounded }
  | _ => buffer

namespace AllocatorPool

variable {Value : Type}

def settled (pool : AllocatorPool Value) : BlockAllocator Value where
  cache thread := (pool.allocator.cache thread).map (pool.stage thread).settled

theorem settled_get (idx : UInt32) (pool : AllocatorPool Value) :
    pool.settled.get idx = pool.allocator.get idx := by
  unfold BlockAllocator.get settled
  simp only
  generalize (⟨idx.toNat / 2 ^ bufferBits, _⟩ : Fin tlcacheSize) = thread
  cases pool.allocator.cache thread with
  | none => rfl
  | some buffer => cases pool.stage thread <;> rfl

theorem settled_cache_self (pool : AllocatorPool Value) (thread : Fin tlcacheSize)
    (buffer : ThreadlocalBlockAllocator Value) (stage : AllocationStage Value) :
    ((pool.setBuffer thread buffer).setStage thread stage).settled.cache thread =
      some (stage.settled buffer) := by
  simp only [settled, setStage, setBuffer, Function.update_self, Option.map_some]

theorem settled_cache_other (pool : AllocatorPool Value) {thread other : Fin tlcacheSize}
    (buffer : ThreadlocalBlockAllocator Value) (stage : AllocationStage Value)
    (apart : other ≠ thread) :
    ((pool.setBuffer thread buffer).setStage thread stage).settled.cache other =
      pool.settled.cache other := by
  simp only [settled, setStage, setBuffer, Function.update_of_ne apart]

end AllocatorPool

section Steps

open BlockAllocator

variable {Value : Type} [Inhabited Value] {pool after : AllocatorPool Value}
  {thread : Fin tlcacheSize}

def ClaimsCounted (pool : AllocatorPool Value) : Prop :=
  ∀ thread h buffer, pool.stage thread = .claimed h → pool.allocator.cache thread = some buffer →
    0 < buffer.offset

omit [Inhabited Value] in
/-- A step that shows a buffer of a thread as it was, or a new one, loses no index. The
threads never meet, as each writes to its own buffer. -/
theorem holds_of_same_buffer (thread : Fin tlcacheSize)
    {allocator changed : BlockAllocator Value}
    (own : ∀ buffer, allocator.cache thread = some buffer → changed.cache thread = some buffer)
    (others : ∀ other, other ≠ thread → changed.cache other = allocator.cache other)
    {idx : UInt32} {h : Value} (holds : allocator.Holds idx h) : changed.Holds idx h := by
  obtain ⟨holder, buffer, position, cached, rest⟩ := holds
  by_cases same : holder = thread
  · subst same
    exact ⟨holder, buffer, position, own buffer cached, rest⟩
  · exact ⟨holder, buffer, position, (others holder same).trans cached, rest⟩

/-- A step completes an allocation, or the allocator between calls keeps its
indices. -/
theorem allocator_step_cases (counted : ClaimsCounted pool)
    (step : AllocatorStep pool thread after) :
    (after.given = pool.given ∧
      ∀ idx h, pool.settled.Holds idx h → after.settled.Holds idx h) ∨
    ∃ idx h, after.given = (idx, h) :: pool.given ∧
      pool.settled.allocate thread h = .ok (idx, after.settled) := by
  cases step with
  | opens h idle =>
      left
      refine ⟨rfl, fun idx value => holds_of_same_buffer thread ?_ ?_⟩
      · intro buffer cached
        rw [AllocatorPool.settled_cache_self]
        simp only [AllocatorPool.settled, idle, Option.map_eq_some_iff] at cached
        obtain ⟨stored, found, rfl⟩ := cached
        rw [own, found]
        rfl
      · intro other apart
        exact AllocatorPool.settled_cache_other _ _ _ apart
  | @refuses h buffer opened cached full =>
      left
      refine ⟨rfl, fun idx value => holds_of_same_buffer thread ?_ ?_⟩
      · intro shown settled
        simp only [AllocatorPool.settled, opened, cached, AllocatorPool.setStage,
          Function.update_self] at settled ⊢
        exact settled
      · intro other apart
        simp only [AllocatorPool.settled, AllocatorPool.setStage, Function.update_of_ne apart]
  | @claims h buffer opened cached room =>
      left
      refine ⟨rfl, fun idx value => holds_of_same_buffer thread ?_ ?_⟩
      · intro shown settled
        rw [AllocatorPool.settled_cache_self, ← settled]
        simp only [AllocatorPool.settled, opened, cached]
        rfl
      · intro other apart
        exact AllocatorPool.settled_cache_other _ _ _ apart
  | @stores h buffer claimed cached =>
      right
      have positive := counted thread h buffer claimed cached
      have bounded := buffer.bounded
      have below : buffer.offset - 1 < allocSize := by omega
      have owned : pool.settled.own thread =
          { offset := buffer.offset - 1, buffer := buffer.buffer, bounded := below.le } := by
        simp only [own, AllocatorPool.settled, claimed, cached, Option.map_some,
          AllocationStage.settled, Option.getD_some]
      have index : wordIndex thread buffer.offset = allocIndex thread (buffer.offset - 1) := by
        rw [← word_index_eq below, Nat.sub_add_cancel positive]
      refine ⟨_, h, rfl, ?_⟩
      unfold allocate
      simp only [owned]
      rw [dif_neg (Nat.not_le_of_lt below), index]
      congr 3
      funext other
      by_cases same : other = thread
      · subst same
        have shown := AllocatorPool.settled_cache_self pool other
          { buffer with buffer := Function.update buffer.buffer (buffer.offset - 1) h } .idle
        simp only [Function.update_self, Nat.sub_add_cancel positive]
        exact shown.symm
      · have shown := AllocatorPool.settled_cache_other pool
          { buffer with buffer := Function.update buffer.buffer (buffer.offset - 1) h } .idle same
        rw [Function.update_of_ne same]
        exact shown.symm

theorem claims_counted_step (counted : ClaimsCounted pool)
    (step : AllocatorStep pool thread after) : ClaimsCounted after := by
  intro other value held claimed cached
  by_cases same : other = thread
  · subst same
    cases step with
    | opens h idle =>
        simp only [AllocatorPool.setStage, Function.update_self] at claimed
        cases claimed
    | refuses opened cached full =>
        simp only [AllocatorPool.setStage, Function.update_self] at claimed
        cases claimed
    | claims opened present room =>
        simp only [AllocatorPool.setStage, AllocatorPool.setBuffer, Function.update_self] at cached
        cases cached
        exact Nat.succ_pos _
    | stores claimed_before present =>
        simp only [AllocatorPool.setStage, Function.update_self] at claimed
        cases claimed
  · apply counted other value held
    · cases step <;> simpa only [AllocatorPool.setStage, AllocatorPool.setBuffer,
        Function.update_of_ne same] using claimed
    · cases step <;> simpa only [AllocatorPool.setStage, AllocatorPool.setBuffer,
        Function.update_of_ne same] using cached

structure AllocatorPoolOk (pool : AllocatorPool Value) : Prop where
  counted : ClaimsCounted pool
  held : ∀ idx h, (idx, h) ∈ pool.given → pool.settled.Holds idx h
  distinct : (pool.given.map Prod.fst).Nodup

omit [Inhabited Value] in
theorem allocator_pool_ok_reset (allocator : BlockAllocator Value) :
    AllocatorPoolOk (.afterReset allocator) where
  counted thread h buffer claimed _ := by cases claimed
  held idx h member := by cases member
  distinct := List.nodup_nil

theorem allocator_pool_ok_step (ok : AllocatorPoolOk pool)
    (step : AllocatorStep pool thread after) : AllocatorPoolOk after := by
  have counted := claims_counted_step ok.counted step
  rcases allocator_step_cases ok.counted step with ⟨same, kept⟩ | ⟨idx, h, grown, allocated⟩
  · refine ⟨counted, ?_, same ▸ ok.distinct⟩
    intro idx h member
    exact kept idx h (ok.held idx h (same ▸ member))
  · obtain ⟨new, kept⟩ := allocate_holds allocated
    refine ⟨counted, ?_, ?_⟩
    · intro other value member
      rw [grown] at member
      rcases List.mem_cons.mp member with now | before
      · cases now
        exact new
      · exact kept other value (ok.held other value before)
    · rw [grown, List.map_cons, List.nodup_cons]
      refine ⟨?_, ok.distinct⟩
      intro given
      obtain ⟨⟨other, value⟩, before, rfl⟩ := List.mem_map.mp given
      exact allocate_fresh allocated value (ok.held other value before)

omit [Inhabited Value] in
theorem AllocatorPoolOk.get {idx : UInt32} {h : Value} (ok : AllocatorPoolOk pool)
    (member : (idx, h) ∈ pool.given) : pool.allocator.getWord idx = .ok h := by
  have holds := ok.held idx h member
  obtain ⟨holder, buffer, position, _, _, inside, word⟩ := holds_index holds
  have positive : 0 < idx.toNat % 2 ^ bufferBits := by
    unfold allocSize at inside
    rw [word, bufferBits]
    omega
  rw [get_word_eq positive, ← AllocatorPool.settled_get, holds_get holds]

/-- From a reset on, and until the next one, no two calls of `allocate` return the
same index, none returns a word that the hash sets reserve, and `get` finds the
entry of every index that was returned, whichever threads run in whatever order. -/
theorem allocator_indices_valid {allocator : BlockAllocator Value}
    {labels : List (Fin tlcacheSize)} {pool : AllocatorPool Value}
    (run : Run AllocatorStep (.afterReset allocator) labels pool) :
    (pool.given.map Prod.fst).Nodup ∧
      ∀ idx h, (idx, h) ∈ pool.given →
        idx ≠ 0 ∧ idx ≠ tombstone ∧ pool.allocator.getWord idx = .ok h := by
  have ok := run_invariant AllocatorPoolOk (fun _ _ _ => allocator_pool_ok_step)
    (allocator_pool_ok_reset allocator) run
  refine ⟨ok.distinct, ?_⟩
  intro idx h member
  obtain ⟨taken, live⟩ := holds_plain (ok.held idx h member)
  exact ⟨taken, live, ok.get member⟩

def highestThread : Fin tlcacheSize := ⟨511, by rw [tlcacheSize]; decide⟩

/-- Both threads have taken a position before either writes its entry. -/
theorem allocator_indices_valid_two : ∃ labels pool,
    Run AllocatorStep (.afterReset { cache := fun _ => none }) labels pool ∧
    pool.given = [(wordIndex highestThread 1, 8), (wordIndex firstThread 1, 7)] ∧
      (pool.given.map Prod.fst).Nodup ∧
        ∀ idx (h : ℕ), (idx, h) ∈ pool.given →
          idx ≠ 0 ∧ idx ≠ tombstone ∧ pool.allocator.getWord idx = .ok h := by
  have run : ∃ labels pool,
      Run AllocatorStep (.afterReset { cache := fun _ => none }) labels pool ∧
        pool.given = [(wordIndex highestThread 1, 8), (wordIndex firstThread 1, (7 : ℕ))] := by
    apply Exists.intro
    apply Exists.intro
    constructor
    · apply Run.cons (.opens firstThread 7 rfl)
      apply Run.cons (.opens highestThread 8 rfl)
      apply Run.cons (.claims firstThread rfl rfl (by decide))
      apply Run.cons (.claims highestThread rfl rfl (by decide))
      apply Run.cons (.stores firstThread rfl rfl)
      apply Run.cons (.stores highestThread rfl rfl)
      exact Run.nil _
    · rfl
  obtain ⟨labels, pool, run, given⟩ := run
  exact ⟨labels, pool, run, given, allocator_indices_valid run⟩

end Steps

end Scs
