import Scs.HashSet.AtomicSet
import Scs.Library.Lockstep
import Scs.Threadlocal.Allocator

/-!
# The words behind the slots (`hash_set/atomic_set.cc`)

A slot of the array is a 32-bit word: zero, the tombstone, or the index under
which the allocator keeps an entry. The calls on words do what the calls on
entries do.
-/

namespace Scs

set_option autoImplicit false

open Lockstep OpenAddressing

/-! ## The table of words -/

instance : Inhabited HashSetEntry := ⟨{ hash := 0, index := 0 }⟩

structure IndexSet where
  capacity : UInt32
  array : List UInt32
  numFilledSlots : UInt32
  sized : array.length = capacity.toNat

/-- `TOMBSTONE`. -/
def tombstone : UInt32 := 0xFFFFFFFF

namespace IndexSet

def vacant (capacity : UInt32) : IndexSet where
  capacity := capacity
  array := List.replicate capacity.toNat 0
  numFilledSlots := 0
  sized := List.length_replicate

def clear (set : IndexSet) : IndexSet := vacant set.capacity

def writeSlot (idx : Nat) (slot : UInt32) (numFilledSlots : UInt32) (set : IndexSet) :
    IndexSet where
  capacity := set.capacity
  array := set.array.set idx slot
  numFilledSlots := numFilledSlots
  sized := by rw [List.length_set, set.sized]

def visitInsert (allocator : BlockAllocator HashSetEntry) (array : List UInt32) (h : HashSetEntry)
    (idx : Nat) : Option (Except Fault Found) :=
  match array[idx]? with
  | none => none
  | some slot =>
      if slot = 0 then some (.ok (.free idx))
      else if slot ≠ tombstone then
        match allocator.get slot with
        | .ok other => if other = h then some (.ok .present) else none
        | .error fault => some (.error fault)
      else none

def visitErase (allocator : BlockAllocator HashSetEntry) (array : List UInt32) (h : HashSetEntry)
    (idx : Nat) : Option (Except Fault (Option Nat)) :=
  match array[idx]? with
  | none => none
  | some slot =>
      if slot ≠ 0 ∧ slot ≠ tombstone then
        match allocator.get slot with
        | .ok other => if other = h then some (.ok (some idx)) else none
        | .error fault => some (.error fault)
      else if slot = 0 then some (.ok none)
      else none

variable (cryptoShorthash : CryptoShorthash)

def startIdx (h : HashSetEntry) (set : IndexSet) : Nat :=
  (shorthash cryptoShorthash h.hash set.capacity).toNat

/-- `try_insert` once the entry has its index. -/
def insertAllocated (alloc : UInt32) (h : HashSetEntry) (allocator : BlockAllocator HashSetEntry)
    (set : IndexSet) : Except Fault (Bool × IndexSet) :=
  if set.numFilledSlots ≥ set.capacity then .ok (false, set)
  else
    match circularScan (visitInsert allocator set.array h) set.capacity.toNat
        (startIdx cryptoShorthash h set) with
    | some (.ok (.free idx)) => .ok (true, writeSlot idx alloc (set.numFilledSlots + 1) set)
    | some (.ok .present) => .ok (false, set)
    | some (.error fault) => .error fault
    | none => .ok (false, set)

/-- The entry gets an index before anything is looked at. A call that throws has allocated
nothing, and one that refuses keeps its index for the rest of the block. -/
def tryInsert (thread : Fin tlcacheSize) (h : HashSetEntry)
    (allocator : BlockAllocator HashSetEntry) (set : IndexSet) :
    Except Fault (Bool × BlockAllocator HashSetEntry × IndexSet) := do
  let (alloc, allocator) ← allocator.allocate thread h
  let (inserted, changed) ← set.insertAllocated cryptoShorthash alloc h allocator
  .ok (inserted, allocator, changed)

def erase (h : HashSetEntry) (allocator : BlockAllocator HashSetEntry) (set : IndexSet) :
    Except Fault IndexSet :=
  match circularScan (visitErase allocator set.array h) set.capacity.toNat
      (startIdx cryptoShorthash h set) with
  | some (.ok (some idx)) => .ok (writeSlot idx tombstone (set.numFilledSlots - 1) set)
  | some (.ok none) => .error (.runtimeError "deletion failed to find elt")
  | some (.error fault) => .error fault
  | none => .error (.runtimeError "deletion failed after complete scan")

def getHashes (allocator : BlockAllocator HashSetEntry) (set : IndexSet) :
    Except Fault (List HashSetEntry) :=
  (set.array.filter fun idx => idx ≠ 0 ∧ idx ≠ tombstone).mapM allocator.get

end IndexSet

/-! ## What the words stand for -/

inductive SlotResolves (allocator : BlockAllocator HashSetEntry) :
    UInt32 → Slot HashSetEntry → Prop
  | empty : SlotResolves allocator 0 .empty
  | tombstone : SlotResolves allocator tombstone .tombstone
  | entry {idx : UInt32} {h : HashSetEntry} (holds : allocator.Holds idx h) :
      SlotResolves allocator idx (.entry h)

structure Resolves (allocator : BlockAllocator HashSetEntry) (indices : IndexSet)
    (set : AtomicSet) : Prop where
  capacity : indices.capacity = set.capacity
  numFilledSlots : indices.numFilledSlots = set.numFilledSlots
  slots : ∀ idx : ℕ, Option.Rel (SlotResolves allocator) indices.array[idx]? set.array[idx]?

/-- An index is neither of the two words with a meaning of their own. -/
theorem holds_plain {Value : Type} {allocator : BlockAllocator Value} {idx : UInt32} {h : Value}
    (holds : allocator.Holds idx h) : idx ≠ 0 ∧ idx ≠ tombstone := by
  obtain ⟨positive, below⟩ := BlockAllocator.holds_range holds
  constructor
  · rintro rfl
    exact Nat.lt_irrefl _ positive
  · rintro rfl
    exact Nat.lt_irrefl _ below

section Resolves

variable {cryptoShorthash : CryptoShorthash} {allocator after : BlockAllocator HashSetEntry}
  {indices changed : IndexSet} {set : AtomicSet} {h : HashSetEntry} {thread : Fin tlcacheSize}

theorem resolves_mono (resolves : Resolves allocator indices set)
    (kept : ∀ idx value, allocator.Holds idx value → after.Holds idx value) :
    Resolves after indices set where
  capacity := resolves.capacity
  numFilledSlots := resolves.numFilledSlots
  slots idx := by
    have slot := resolves.slots idx
    generalize indices.array[idx]? = word at slot ⊢
    generalize set.array[idx]? = found at slot ⊢
    cases slot with
    | none => exact .none
    | some resolved =>
        apply Option.Rel.some
        cases resolved with
        | empty => exact .empty
        | tombstone => exact .tombstone
        | entry holds => exact .entry (kept _ _ holds)

theorem resolves_vacant (capacity : UInt32) :
    Resolves allocator (IndexSet.vacant capacity) (AtomicSet.vacant capacity) where
  capacity := rfl
  numFilledSlots := rfl
  slots idx := by
    simp only [IndexSet.vacant, AtomicSet.vacant, List.getElem?_replicate]
    split_ifs
    · exact .some .empty
    · exact .none

theorem clear_resolves (resolves : Resolves allocator indices set) :
    Resolves after indices.clear set.clear := by
  unfold IndexSet.clear AtomicSet.clear
  rw [resolves.capacity]
  exact resolves_vacant _

theorem resolves_write (resolves : Resolves allocator indices set) {word : UInt32}
    {slot : Slot HashSetEntry} (written : SlotResolves allocator word slot) (idx : ℕ)
    (numFilledSlots : UInt32) :
    Resolves allocator (indices.writeSlot idx word numFilledSlots)
      (set.writeSlot idx slot numFilledSlots) where
  capacity := resolves.capacity
  numFilledSlots := rfl
  slots other := by
    have lengths : indices.array.length = set.array.length := by
      rw [indices.sized, set.sized, resolves.capacity]
    simp only [IndexSet.writeSlot, AtomicSet.writeSlot, List.getElem?_set, lengths]
    split_ifs
    · exact .some written
    · exact .none
    · exact resolves.slots other

theorem visit_insert_resolves (resolves : Resolves allocator indices set) :
    IndexSet.visitInsert allocator indices.array h =
      fun idx => (OpenAddressing.visitInsert set.array h idx).map .ok := by
  funext idx
  have slot := resolves.slots idx
  unfold IndexSet.visitInsert OpenAddressing.visitInsert
  generalize indices.array[idx]? = word at slot ⊢
  generalize set.array[idx]? = found at slot ⊢
  cases slot with
  | none => rfl
  | some resolved =>
      cases resolved with
      | empty => rfl
      | tombstone => rfl
      | entry holds =>
          obtain ⟨taken, live⟩ := holds_plain holds
          simp only [if_neg taken, if_pos live, BlockAllocator.holds_get holds]
          split_ifs <;> rfl

theorem visit_erase_resolves (resolves : Resolves allocator indices set) :
    IndexSet.visitErase allocator indices.array h =
      fun idx => (visitRemove set.array h idx).map .ok := by
  funext idx
  have slot := resolves.slots idx
  unfold IndexSet.visitErase visitRemove
  generalize indices.array[idx]? = word at slot ⊢
  generalize set.array[idx]? = found at slot ⊢
  cases slot with
  | none => rfl
  | some resolved =>
      cases resolved with
      | empty => rfl
      | tombstone => rfl
      | entry holds =>
          simp only [if_pos (holds_plain holds), BlockAllocator.holds_get holds]
          split_ifs <;> rfl

theorem start_idx_resolves (resolves : Resolves allocator indices set) :
    indices.startIdx cryptoShorthash h = set.startIdx cryptoShorthash h := by
  unfold IndexSet.startIdx AtomicSet.startIdx
  rw [resolves.capacity]

/-- What an insertion on words has to do with one on entries: the answer and the
thread's offset agree, the tables still match, and so does every other table. -/
structure InsertResolves (allocator : BlockAllocator HashSetEntry) (thread : Fin tlcacheSize)
    (words : Bool × BlockAllocator HashSetEntry × IndexSet)
    (inserted : Bool × ℕ × AtomicSet) : Prop where
  answer : words.1 = inserted.1
  offsets : words.2.1.offsets = Function.update allocator.offsets thread inserted.2.1
  table : Resolves words.2.1 words.2.2 inserted.2.2
  others : ∀ other otherSet, Resolves allocator other otherSet → Resolves words.2.1 other otherSet

variable (cryptoShorthash) in
theorem insert_allocated_resolves {alloc : UInt32} (resolves : Resolves allocator indices set)
    (held : allocator.Holds alloc h) :
    ∃ changed, indices.insertAllocated cryptoShorthash alloc h allocator =
        .ok ((set.insertAllocated cryptoShorthash h).1, changed) ∧
      Resolves allocator changed (set.insertAllocated cryptoShorthash h).2 := by
  unfold IndexSet.insertAllocated AtomicSet.insertAllocated
  rw [visit_insert_resolves resolves, circular_scan_map, start_idx_resolves resolves,
    resolves.capacity, resolves.numFilledSlots]
  split_ifs with full
  · exact ⟨indices, rfl, resolves⟩
  · cases circularScan (OpenAddressing.visitInsert set.array h) set.capacity.toNat
        (set.startIdx cryptoShorthash h) with
    | none => exact ⟨indices, rfl, resolves⟩
    | some found =>
        cases found with
        | present => exact ⟨indices, rfl, resolves⟩
        | free idx => exact ⟨_, rfl, resolves_write resolves (.entry held) idx _⟩

variable (cryptoShorthash) in
/-- An insertion on words is the insertion on entries: one throws if the other does,
and what they leave matches. -/
theorem try_insert_resolves (resolves : Resolves allocator indices set)
    (thread : Fin tlcacheSize) (h : HashSetEntry) :
    Returns (InsertResolves allocator thread)
      (indices.tryInsert cryptoShorthash thread h allocator)
      (set.tryInsert cryptoShorthash (allocator.offsets thread) h) := by
  rcases Nat.lt_or_ge (allocator.offsets thread) allocSize with room | full
  · obtain ⟨alloc, grown, allocated, moved⟩ := BlockAllocator.allocate_returns room h
    obtain ⟨held, kept⟩ := BlockAllocator.allocate_holds allocated
    obtain ⟨changed, inserted, matched⟩ :=
      insert_allocated_resolves cryptoShorthash (resolves_mono resolves kept) held
    rw [AtomicSet.try_insert_returns room]
    simp only [IndexSet.tryInsert, bind, Except.bind, allocated, inserted]
    exact .value ⟨rfl, moved, matched, fun _ _ other => resolves_mono other kept⟩
  · rw [AtomicSet.try_insert_exhausted full]
    simp only [IndexSet.tryInsert, bind, Except.bind, BlockAllocator.allocate_exhausted full]
    exact .fault _

variable (cryptoShorthash) in
theorem erase_resolves (resolves : Resolves allocator indices set) (h : HashSetEntry) :
    Returns (Resolves allocator) (indices.erase cryptoShorthash h allocator)
      (set.erase cryptoShorthash h) := by
  unfold IndexSet.erase AtomicSet.erase
  rw [visit_erase_resolves resolves, circular_scan_map, start_idx_resolves resolves,
    resolves.capacity, resolves.numFilledSlots]
  cases circularScan (visitRemove set.array h) set.capacity.toNat
      (set.startIdx cryptoShorthash h) with
  | none => exact .fault _
  | some found =>
      cases found with
      | none => exact .fault _
      | some idx => exact .value (resolves_write resolves .tombstone idx _)

theorem get_hashes_resolves (resolves : Resolves allocator indices set) :
    indices.getHashes allocator = .ok set.getHashes := by
  have listed (words : List UInt32) (slots : List (Slot HashSetEntry))
      (related : ∀ idx : ℕ, Option.Rel (SlotResolves allocator) words[idx]? slots[idx]?) :
      (words.filter fun idx => idx ≠ 0 ∧ idx ≠ tombstone).mapM allocator.get =
        .ok (entries slots) := by
    induction words generalizing slots with
    | nil =>
        cases slots with
        | nil => rfl
        | cons slot rest => cases related 0
    | cons word words induction =>
        cases slots with
        | nil => cases related 0
        | cons slot rest =>
            have others := induction rest fun idx => related (idx + 1)
            cases related 0 with
            | some resolved =>
                cases resolved with
                | empty => exact others
                | tombstone => exact others
                | entry holds =>
                    rw [List.filter_cons_of_pos (by simp [holds_plain holds]),
                      List.mapM_cons, BlockAllocator.holds_get holds, others]
                    rfl
  exact listed indices.array set.array resolves.slots

/-- A table without entries stands for itself, whatever the allocator holds: a reset of the
allocator does not disturb it. -/
theorem resolves_without_entries (resolves : Resolves allocator indices set)
    (clean : ∀ slot ∈ set.array, slot = .empty ∨ slot = .tombstone) :
    (∀ idx ∈ indices.array, idx = 0 ∨ idx = tombstone) ∧
      ∀ other, Resolves other indices set := by
  have words (idx : ℕ) : ∀ word ∈ indices.array[idx]?, word = 0 ∨ word = tombstone := by
    have slot := resolves.slots idx
    generalize indices.array[idx]? = word at slot ⊢
    generalize held : set.array[idx]? = found at slot ⊢
    cases slot with
    | none =>
        intro word impossible
        cases impossible
    | some resolved =>
        intro word same
        cases same
        have member := List.mem_of_getElem? held
        cases resolved with
        | empty => exact .inl rfl
        | tombstone => exact .inr rfl
        | entry holds =>
            rcases clean _ member with impossible | impossible <;> cases impossible
  constructor
  · intro word member
    obtain ⟨idx, found⟩ := List.mem_iff_getElem?.mp member
    exact words idx word found
  · intro other
    refine ⟨resolves.capacity, resolves.numFilledSlots, fun idx => ?_⟩
    have slot := resolves.slots idx
    generalize indices.array[idx]? = word at slot ⊢
    generalize held : set.array[idx]? = found at slot ⊢
    cases slot with
    | none => exact .none
    | some resolved =>
        have member := List.mem_of_getElem? held
        apply Option.Rel.some
        cases resolved with
        | empty => exact .empty
        | tombstone => exact .tombstone
        | entry holds =>
            rcases clean _ member with impossible | impossible <;> cases impossible

end Resolves

end Scs
