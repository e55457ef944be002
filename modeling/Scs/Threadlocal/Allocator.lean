import Mathlib.Logic.Function.Basic
import Scs.Xdr.Storage

/-!
# Indices for entries (`threadlocal/allocator.h`)

Each thread fills a buffer of its own. An index names the thread and the position
in its buffer; zero is never one. A reset starts the buffers over.
-/

namespace Scs

set_option autoImplicit false

/-- `TLCACHE_SIZE`: one buffer for each thread. -/
@[irreducible] def tlcacheSize : ℕ := 512

theorem tlcache_size_pos : 0 < tlcacheSize := by
  rw [tlcacheSize]
  decide

def firstThread : Fin tlcacheSize := ⟨0, tlcache_size_pos⟩

/-- `BUFFER_BITS`: the words left to the position in a buffer. -/
def bufferBits : ℕ := 23

def allocSize : ℕ := 1000000

/-- What `allocate` throws. Nobody catches it, as it is no `HostError`: the process ends. -/
def allocMaxReached : Fault := .runtimeError "alloc max reached"

def exhausts {Result : Type} : Except Fault Result → Bool
  | .error fault => fault = allocMaxReached
  | .ok _ => false

/-- `allocate` as it moves the offset of the calling thread. Callers that never look
at an index, only at the entry it stands for, carry the offset alone. -/
def allocateHash (offset : ℕ) : Except Fault ℕ :=
  if offset ≥ allocSize then .error allocMaxReached else .ok (offset + 1)

structure ThreadlocalBlockAllocator (Value : Type) where
  offset : ℕ
  buffer : ℕ → Value
  bounded : offset ≤ allocSize

structure BlockAllocator (Value : Type) where
  cache : Fin tlcacheSize → Option (ThreadlocalBlockAllocator Value)

/-- The index of a position, counted from one, in the buffer of a thread. -/
def allocIndex (thread : Fin tlcacheSize) (position : ℕ) : UInt32 :=
  UInt32.ofNat (position + 1 + thread.val * 2 ^ bufferBits)

namespace BlockAllocator

variable {Value : Type}

/-- The buffer of a thread that has not allocated yet holds default entries. -/
def own [Inhabited Value] (thread : Fin tlcacheSize) (allocator : BlockAllocator Value) :
    ThreadlocalBlockAllocator Value :=
  (allocator.cache thread).getD
    { offset := 0, buffer := fun _ => default, bounded := Nat.zero_le _ }

def allocate [Inhabited Value] (thread : Fin tlcacheSize) (h : Value)
    (allocator : BlockAllocator Value) : Except Fault (UInt32 × BlockAllocator Value) :=
  let buffer := allocator.own thread
  if full : buffer.offset ≥ allocSize then .error allocMaxReached
  else
    .ok (allocIndex thread buffer.offset,
      { cache := Function.update allocator.cache thread
          (some
            { offset := buffer.offset + 1
              buffer := Function.update buffer.buffer buffer.offset h
              bounded := Nat.lt_of_not_le full }) })

/-- `idx >> BUFFER_BITS` names the thread and `idx & buffer_mask` the position. -/
def get (idx : UInt32) (allocator : BlockAllocator Value) : Except Fault Value :=
  have inside : idx.toNat / 2 ^ bufferBits < tlcacheSize := by
    rw [tlcacheSize]
    exact Nat.div_lt_of_lt_mul idx.toNat_lt
  match allocator.cache ⟨idx.toNat / 2 ^ bufferBits, inside⟩ with
  | none => .error (.runtimeError "invalid HashAllocator access")
  | some buffer => .ok (buffer.buffer (idx.toNat % 2 ^ bufferBits - 1))

/-- The buffers keep their entries, but will write over them. -/
def reset (allocator : BlockAllocator Value) : BlockAllocator Value where
  cache thread := (allocator.cache thread).map fun buffer =>
    { buffer with offset := 0, bounded := Nat.zero_le _ }

/-- The index was given out for the entry after the last reset. The buffers of earlier
blocks keep their entries, but no index of them. -/
def Holds (allocator : BlockAllocator Value) (idx : UInt32) (h : Value) : Prop :=
  ∃ thread buffer position, allocator.cache thread = some buffer ∧ position < buffer.offset ∧
    buffer.buffer position = h ∧ idx = allocIndex thread position

section Indices

variable {allocator : BlockAllocator Value} {thread : Fin tlcacheSize} {position : ℕ}
  {idx : UInt32} {h : Value}

theorem alloc_index_to_nat (inside : position < allocSize) :
    (allocIndex thread position).toNat = position + 1 + thread.val * 2 ^ bufferBits := by
  have few := thread.isLt
  unfold allocIndex
  unfold allocSize at inside
  unfold tlcacheSize at few
  apply UInt32.toNat_ofNat_of_lt'
  simp only [bufferBits, UInt32.size]
  omega

theorem holds_index (holds : allocator.Holds idx h) : ∃ thread buffer position,
    allocator.cache thread = some buffer ∧ buffer.buffer position = h ∧ position < allocSize ∧
      idx.toNat = position + 1 + thread.val * 2 ^ bufferBits := by
  obtain ⟨thread, buffer, position, cached, below, held, rfl⟩ := holds
  have inside := below.trans_le buffer.bounded
  exact ⟨thread, buffer, position, cached, held, inside, alloc_index_to_nat inside⟩

theorem holds_get (holds : allocator.Holds idx h) : allocator.get idx = .ok h := by
  obtain ⟨thread, buffer, position, cached, held, inside, word⟩ := holds_index holds
  unfold allocSize at inside
  have quotient : idx.toNat / 2 ^ bufferBits = thread.val := by
    rw [word]
    unfold bufferBits
    omega
  have remainder : idx.toNat % 2 ^ bufferBits - 1 = position := by
    rw [word]
    unfold bufferBits
    omega
  simp only [get, quotient, remainder, Fin.eta, cached, held]

/-- Neither the smallest word nor the largest is an index. -/
theorem holds_range (holds : allocator.Holds idx h) :
    0 < idx.toNat ∧ idx.toNat < 2 ^ 32 - 1 := by
  obtain ⟨thread, buffer, position, cached, held, inside, word⟩ := holds_index holds
  have few := thread.isLt
  unfold allocSize at inside
  unfold tlcacheSize at few
  unfold bufferBits at word
  omega

theorem allocate_holds [Inhabited Value] {after : BlockAllocator Value}
    (allocated : allocator.allocate thread h = .ok (idx, after)) :
    after.Holds idx h ∧ ∀ other value, allocator.Holds other value → after.Holds other value := by
  unfold allocate at allocated
  simp only at allocated
  split_ifs at allocated with full
  cases allocated
  constructor
  · refine ⟨thread, _, (allocator.own thread).offset, Function.update_self _ _ _,
      Nat.lt_succ_self _,
      ?_, rfl⟩
    exact Function.update_self _ _ _
  · rintro other value ⟨holder, buffer, position, cached, below, held, word⟩
    by_cases same : holder = thread
    · subst same
      have owned : allocator.own holder = buffer := by
        unfold own
        rw [cached]
        rfl
      subst owned
      refine ⟨holder, _, position, Function.update_self _ _ _, Nat.lt_succ_of_lt below, ?_, word⟩
      exact (Function.update_of_ne (Nat.ne_of_lt below) _ _).trans held
    · exact ⟨holder, buffer, position, (Function.update_of_ne same _ _).trans cached, below, held,
        word⟩

theorem allocate_fresh [Inhabited Value] {after : BlockAllocator Value}
    (allocated : allocator.allocate thread h = .ok (idx, after)) (value : Value) :
    ¬ allocator.Holds idx value := by
  intro held
  obtain ⟨holder, buffer, position, cached, below, _, word⟩ := held
  unfold allocate at allocated
  simp only at allocated
  split_ifs at allocated with full
  cases allocated
  have inside := below.trans_le buffer.bounded
  have index := congrArg UInt32.toNat word
  rw [alloc_index_to_nat inside, alloc_index_to_nat (Nat.lt_of_not_le full)] at index
  have room := Nat.lt_of_not_le full
  unfold allocSize at inside room
  unfold bufferBits at index
  have same : thread = holder := Fin.ext (by omega)
  subst same
  have owned : allocator.own thread = buffer := by
    unfold own
    rw [cached]
    rfl
  rw [owned] at index
  omega

def offsets [Inhabited Value] (allocator : BlockAllocator Value) (thread : Fin tlcacheSize) : ℕ :=
  (allocator.own thread).offset

theorem offsets_within [Inhabited Value] (allocator : BlockAllocator Value)
    (thread : Fin tlcacheSize) : allocator.offsets thread ≤ allocSize :=
  (allocator.own thread).bounded

theorem allocate_exhausted [Inhabited Value] (full : allocSize ≤ allocator.offsets thread)
    (h : Value) : allocator.allocate thread h = .error allocMaxReached := by
  unfold offsets at full
  simp only [allocate, ge_iff_le, dif_pos full]

/-- The offset of the calling thread alone decides whether a call returns, and is the
only one that moves. -/
theorem allocate_returns [Inhabited Value] (room : allocator.offsets thread < allocSize)
    (h : Value) : ∃ idx after, allocator.allocate thread h = .ok (idx, after) ∧
      after.offsets =
        Function.update allocator.offsets thread (allocator.offsets thread + 1) := by
  have below : ¬ allocSize ≤ (allocator.own thread).offset := Nat.not_le_of_lt room
  simp only [allocate, ge_iff_le, dif_neg below]
  refine ⟨_, _, rfl, ?_⟩
  funext other
  by_cases same : other = thread
  · subst same
    simp only [offsets, own, Function.update_self, Option.getD_some]
  · simp only [offsets, own, Function.update_of_ne same]

end Indices

end BlockAllocator

end Scs
