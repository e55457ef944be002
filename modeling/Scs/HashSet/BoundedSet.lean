import Mathlib.Data.Finset.Card
import Scs.HashSet.HashIndices

/-!
# The table against a bounded set (`hash_set/atomic_set.cc`)

Calls one at a time, by any threads, on the words of the table. The table starts
with every slot vacant; what it is compared with is a set of entries that takes at
most as many as there are slots.
-/

namespace Scs

set_option autoImplicit false

open Lockstep OpenAddressing

inductive SetCall
  | tryInsert (thread : Fin tlcacheSize) (h : HashSetEntry)
  | erase (h : HashSetEntry)
  | clear
  | getHashes
  deriving DecidableEq, Repr

inductive SetAnswer
  | inserted (accepted : Bool)
  | done
  | hashes (out : List HashSetEntry)
  deriving DecidableEq, Repr

/-! ## The bounded set -/

namespace BoundedSet

/-- An insertion is accepted when its entry is absent and there is room. -/
def Accepts (bound : Nat) (h : HashSetEntry) (present : Finset HashSetEntry) : Prop :=
  h ∉ present ∧ present.card < bound

instance (bound : Nat) (h : HashSetEntry) (present : Finset HashSetEntry) :
    Decidable (Accepts bound h present) :=
  inferInstanceAs (Decidable (_ ∧ _))

def next (bound : Nat) : SetCall → Finset HashSetEntry → Finset HashSetEntry
  | .tryInsert _ h, present => if Accepts bound h present then insert h present else present
  | .erase h, present => present.erase h
  | .clear, _ => ∅
  | .getHashes, present => present

def Answers (bound : Nat) (present : Finset HashSetEntry) : SetCall → SetAnswer → Prop
  | .tryInsert _ h, .inserted accepted => accepted = true ↔ Accepts bound h present
  | .erase _, .done => True
  | .clear, .done => True
  | .getHashes, .hashes out => (out : Multiset HashSetEntry) = present.val
  | _, _ => False

def ErasesPresent (bound : Nat) : Finset HashSetEntry → List SetCall → Prop
  | _, [] => True
  | present, call :: calls =>
      (∀ h, call = .erase h → h ∈ present) ∧ ErasesPresent bound (next bound call present) calls

/-- The insertions accepted since the last clear, after one more call. -/
def taken (bound : Nat) (present : Finset HashSetEntry) (used : Nat) : SetCall → Nat
  | .tryInsert _ h => if Accepts bound h present then used + 1 else used
  | .erase _ => used
  | .clear => 0
  | .getHashes => used

/-- Every insertion that the set accepts comes while fewer than `bound` were
accepted since the last clear, counting those erased since. -/
def Roomy (bound : Nat) : Nat → Finset HashSetEntry → List SetCall → Prop
  | _, _, [] => True
  | used, present, call :: calls =>
      (∀ thread h, call = .tryInsert thread h → Accepts bound h present → used < bound) ∧
        Roomy bound (taken bound present used call) (next bound call present) calls

def allocated (offsets : Fin tlcacheSize → ℕ) : SetCall → Fin tlcacheSize → ℕ
  | .tryInsert thread _ => Function.update offsets thread (offsets thread + 1)
  | _ => offsets

theorem update_succ (offsets : Fin tlcacheSize → ℕ) (caller thread : Fin tlcacheSize) :
    Function.update offsets caller (offsets caller + 1) thread =
      offsets thread + if caller = thread then 1 else 0 := by
  by_cases same : caller = thread
  · subst same
    rw [Function.update_self, if_pos rfl]
  · rw [Function.update_of_ne (Ne.symm same), if_neg same, Nat.add_zero]

theorem update_within {offsets : Fin tlcacheSize → ℕ} {caller : Fin tlcacheSize}
    (within : ∀ thread, offsets thread ≤ allocSize) (below : offsets caller < allocSize)
    (thread : Fin tlcacheSize) :
    Function.update offsets caller (offsets caller + 1) thread ≤ allocSize := by
  have kept := within thread
  rw [update_succ]
  split_ifs with same
  · subst same
    omega
  · omega

/-- No thread inserts once its buffer of entries is full, call by call. A call that does
throws, whether or not its entry would have gone in. -/
def Indexed : (Fin tlcacheSize → ℕ) → List SetCall → Prop
  | _, [] => True
  | offsets, call :: calls =>
      (∀ thread h, call = .tryInsert thread h → offsets thread < allocSize) ∧
        Indexed (allocated offsets call) calls

/-- How many insertions of a sequence a thread makes. -/
def insertsBy (thread : Fin tlcacheSize) : List SetCall → ℕ
  | [] => 0
  | .tryInsert caller _ :: calls =>
      (if caller = thread then 1 else 0) + insertsBy thread calls
  | _ :: calls => insertsBy thread calls

/-- A call by call condition only because each call counts: the totals decide. -/
theorem indexed_iff {calls : List SetCall} {offsets : Fin tlcacheSize → ℕ}
    (within : ∀ thread, offsets thread ≤ allocSize) :
    Indexed offsets calls ↔ ∀ thread, offsets thread + insertsBy thread calls ≤ allocSize := by
  induction calls generalizing offsets with
  | nil => simpa only [Indexed, insertsBy, Nat.add_zero, true_iff] using within
  | cons call calls induction =>
      cases call with
      | tryInsert caller h =>
          simp only [Indexed, allocated, insertsBy, SetCall.tryInsert.injEq, and_imp]
          constructor
          · rintro ⟨room, rest⟩ thread
            have below := room caller h rfl rfl
            have total := (induction (update_within within below)).mp rest thread
            rw [update_succ] at total
            omega
          · intro totals
            have below : offsets caller < allocSize := by
              have own := totals caller
              rw [if_pos rfl] at own
              omega
            refine ⟨?_, (induction (update_within within below)).mpr fun thread => ?_⟩
            · rintro _ _ rfl -
              exact below
            · have total := totals thread
              rw [update_succ]
              omega
      | erase h => simpa [Indexed, allocated, insertsBy] using induction within
      | clear => simpa [Indexed, allocated, insertsBy] using induction within
      | getHashes => simpa [Indexed, allocated, insertsBy] using induction within

end BoundedSet

/-! ## The table's calls -/

namespace IndexSet

variable (cryptoShorthash : CryptoShorthash)

def perform (allocator : BlockAllocator HashSetEntry) (indices : IndexSet) :
    SetCall → Except Fault (SetAnswer × BlockAllocator HashSetEntry × IndexSet)
  | .tryInsert thread h => do
      let (accepted, allocator, changed) ← tryInsert cryptoShorthash thread h allocator indices
      .ok (.inserted accepted, allocator, changed)
  | .erase h => do
      let changed ← erase cryptoShorthash h allocator indices
      .ok (.done, allocator, changed)
  | .clear => .ok (.done, allocator, indices.clear)
  | .getHashes => do
      let hashes ← getHashes allocator indices
      .ok (.hashes hashes, allocator, indices)

/-- Every call returns what the bounded set answers, and leaves the entries that
the bounded set then has, each in one slot. -/
def Refines (bound : Nat) : Finset HashSetEntry → BlockAllocator HashSetEntry → IndexSet →
    List SetCall → Prop
  | _, _, _, [] => True
  | present, allocator, indices, call :: calls =>
      ∃ answer grown after,
        perform cryptoShorthash allocator indices call = .ok (answer, grown, after) ∧
        BoundedSet.Answers bound present call answer ∧
        (∃ hashes, getHashes grown after = .ok hashes ∧
          (hashes : Multiset HashSetEntry) = (BoundedSet.next bound call present).val) ∧
        Refines bound (BoundedSet.next bound call present) grown after calls

end IndexSet

namespace AtomicSet

variable (cryptoShorthash : CryptoShorthash)

/-- The table holds the set, and `used` of its slots are no longer vacant. -/
structure Matches (bound used : Nat) (present : Finset HashSetEntry) (set : AtomicSet) : Prop where
  sound : Sound cryptoShorthash set
  contents : (set.getHashes : Multiset HashSetEntry) = present.val
  slots : set.freeSlots + used = bound
  sized : set.capacity.toNat = bound

variable {cryptoShorthash} {bound used : Nat} {present : Finset HashSetEntry} {set : AtomicSet}

theorem matches_vacant (capacity : UInt32) :
    Matches cryptoShorthash capacity.toNat 0 ∅ (vacant capacity) where
  sound := vacant_sound capacity
  contents := by simp
  slots := by simp
  sized := rfl

theorem Matches.mem_iff (matched : Matches cryptoShorthash bound used present set)
    {h : HashSetEntry} : h ∈ set.getHashes ↔ h ∈ present := by
  rw [← Multiset.mem_coe, matched.contents, Finset.mem_val]

theorem Matches.card_le (matched : Matches cryptoShorthash bound used present set) :
    present.card ≤ used := by
  have occupied := occupied_le_capacity set
  have lengths : set.getHashes.length = present.card := by
    rw [← Multiset.coe_card, matched.contents, Finset.card_val]
  have slots := matched.slots
  have sized := matched.sized
  omega

/-- The table takes an entry when it is absent and some slot was never used;
entries erased since do not give their slots back. -/
theorem Matches.inserts_iff (matched : Matches cryptoShorthash bound used present set)
    (h : HashSetEntry) :
    (insertAllocated cryptoShorthash h set).1 = true ↔ h ∉ present ∧ used < bound := by
  have slots := matched.slots
  rw [insert_allocated_accepts matched.sound h, matched.mem_iff]
  constructor
  · rintro ⟨absent, vacancy⟩
    exact ⟨absent, by omega⟩
  · rintro ⟨absent, room⟩
    exact ⟨absent, by omega⟩

/-- An insertion is answered as by the bounded set exactly when the table has a vacant slot
for every entry that the bounded set would accept. -/
theorem Matches.answers_iff (matched : Matches cryptoShorthash bound used present set)
    (h : HashSetEntry) :
    ((insertAllocated cryptoShorthash h set).1 = true ↔ BoundedSet.Accepts bound h present) ↔
      (BoundedSet.Accepts bound h present → used < bound) := by
  have card := matched.card_le
  rw [matched.inserts_iff h]
  constructor
  · intro same accepted
    exact (same.mpr accepted).2
  · intro room
    constructor
    · rintro ⟨absent, vacancy⟩
      exact ⟨absent, by omega⟩
    · intro accepted
      exact ⟨accepted.1, room accepted⟩

theorem Matches.insert_step (matched : Matches cryptoShorthash bound used present set)
    {h : HashSetEntry} (thread : Fin tlcacheSize)
    (room : BoundedSet.Accepts bound h present → used < bound) :
    Matches cryptoShorthash bound (BoundedSet.taken bound present used (.tryInsert thread h))
      (BoundedSet.next bound (.tryInsert thread h) present)
      (insertAllocated cryptoShorthash h set).2 := by
  have answer := (matched.answers_iff h).mpr room
  simp only [BoundedSet.taken, BoundedSet.next]
  by_cases accepted : BoundedSet.Accepts bound h present
  · rw [if_pos accepted, if_pos accepted]
    have spec := insert_allocated_spec matched.sound (answer.mpr accepted)
    have slots := matched.slots
    have vacancy := spec.freeSlots
    refine ⟨spec.sound, ?_, by omega, ?_⟩
    · rw [spec.contents, matched.contents, Finset.insert_val_of_notMem accepted.1]
    · rw [spec.capacity, matched.sized]
  · rw [if_neg accepted, if_neg accepted]
    have refused : (insertAllocated cryptoShorthash h set).1 = false := by
      rw [← Bool.not_eq_true]
      exact fun taken => accepted (answer.mp taken)
    rw [insert_allocated_refused matched.sound refused]
    exact matched

theorem Matches.erase_step (matched : Matches cryptoShorthash bound used present set)
    {h : HashSetEntry} (member : h ∈ present) :
    ∃ after, erase cryptoShorthash h set = .ok after ∧
      Matches cryptoShorthash bound used (present.erase h) after := by
  obtain ⟨after, erased, spec⟩ := erase_spec matched.sound (matched.mem_iff.mpr member)
  refine ⟨after, erased, spec.sound, ?_, ?_, ?_⟩
  · have contents := spec.contents
    rw [matched.contents] at contents
    rw [Finset.erase_val, ← contents, Multiset.erase_cons_head]
  · rw [spec.freeSlots, matched.slots]
  · rw [spec.capacity, matched.sized]

theorem Matches.clear_step (matched : Matches cryptoShorthash bound used present set) :
    Matches cryptoShorthash bound 0 ∅ set.clear := by
  have fresh : Matches cryptoShorthash set.capacity.toNat 0 ∅ (vacant set.capacity) :=
    matches_vacant set.capacity
  rw [matched.sized] at fresh
  exact fresh

end AtomicSet

namespace IndexSet

open AtomicSet

structure Stands (cryptoShorthash : CryptoShorthash) (bound used : Nat)
    (present : Finset HashSetEntry) (allocator : BlockAllocator HashSetEntry)
    (indices : IndexSet) : Prop where
  table : ∃ set, Resolves allocator indices set ∧
    AtomicSet.Matches cryptoShorthash bound used present set

variable {cryptoShorthash : CryptoShorthash} {bound used : Nat} {present : Finset HashSetEntry}
  {allocator : BlockAllocator HashSetEntry} {indices : IndexSet}

theorem stands_vacant (allocator : BlockAllocator HashSetEntry) (capacity : UInt32) :
    Stands cryptoShorthash capacity.toNat 0 ∅ allocator (vacant capacity) :=
  ⟨AtomicSet.vacant capacity, resolves_vacant capacity, matches_vacant capacity⟩

theorem Stands.lists (stands : Stands cryptoShorthash bound used present allocator indices) :
    ∃ hashes, getHashes allocator indices = .ok hashes ∧
      (hashes : Multiset HashSetEntry) = present.val := by
  obtain ⟨set, resolves, matched⟩ := stands.table
  exact ⟨_, get_hashes_resolves resolves, matched.contents⟩

/-- An insertion returns while the calling thread's buffer has room, and is answered as
by the bounded set exactly when it is roomy. -/
theorem Stands.insert_step (stands : Stands cryptoShorthash bound used present allocator indices)
    {thread : Fin tlcacheSize} (indexed : allocator.offsets thread < allocSize)
    (h : HashSetEntry) :
    ∃ accepted grown after,
      tryInsert cryptoShorthash thread h allocator indices = .ok (accepted, grown, after) ∧
      grown.offsets = BoundedSet.allocated allocator.offsets (.tryInsert thread h) ∧
      ((accepted = true ↔ BoundedSet.Accepts bound h present) ↔
        (BoundedSet.Accepts bound h present → used < bound)) ∧
      ((BoundedSet.Accepts bound h present → used < bound) →
        Stands cryptoShorthash bound (BoundedSet.taken bound present used (.tryInsert thread h))
          (BoundedSet.next bound (.tryInsert thread h) present) grown after) := by
  obtain ⟨set, resolves, matched⟩ := stands.table
  have insertion := try_insert_resolves cryptoShorthash resolves thread h
  rw [try_insert_returns indexed] at insertion
  generalize returned : tryInsert cryptoShorthash thread h allocator indices = outcome at insertion
  cases insertion with
  | value same =>
      refine ⟨_, _, _, rfl, same.offsets, ?_, ?_⟩
      · rw [same.answer]
        exact matched.answers_iff h
      · intro room
        exact ⟨_, same.table, matched.insert_step thread room⟩

theorem Stands.erase_step (stands : Stands cryptoShorthash bound used present allocator indices)
    {h : HashSetEntry} (member : h ∈ present) :
    ∃ after, erase cryptoShorthash h allocator indices = .ok after ∧
      Stands cryptoShorthash bound used (present.erase h) allocator after := by
  obtain ⟨set, resolves, matched⟩ := stands.table
  obtain ⟨erased, returned, kept⟩ := matched.erase_step member
  have erasure := erase_resolves cryptoShorthash resolves h
  rw [returned] at erasure
  generalize erase cryptoShorthash h allocator indices = outcome at erasure
  cases erasure with
  | value same => exact ⟨_, rfl, _, same, kept⟩

theorem Stands.clear_step (stands : Stands cryptoShorthash bound used present allocator indices) :
    Stands cryptoShorthash bound 0 ∅ allocator indices.clear := by
  obtain ⟨set, resolves, matched⟩ := stands.table
  exact ⟨_, clear_resolves resolves, matched.clear_step⟩

/-- A call that the bounded set may receive, that is roomy and finds its index, keeps
the match and is answered alike. -/
theorem Stands.step (stands : Stands cryptoShorthash bound used present allocator indices)
    (call : SetCall) (erases : ∀ h, call = .erase h → h ∈ present)
    (room : ∀ thread h, call = .tryInsert thread h → BoundedSet.Accepts bound h present →
      used < bound)
    (indexed : ∀ thread h, call = .tryInsert thread h → allocator.offsets thread < allocSize) :
    ∃ answer grown after,
      perform cryptoShorthash allocator indices call = .ok (answer, grown, after) ∧
      BoundedSet.Answers bound present call answer ∧
      grown.offsets = BoundedSet.allocated allocator.offsets call ∧
      Stands cryptoShorthash bound (BoundedSet.taken bound present used call)
        (BoundedSet.next bound call present) grown after := by
  cases call with
  | tryInsert thread h =>
      obtain ⟨accepted, grown, after, returned, offsets, answered, kept⟩ :=
        stands.insert_step (indexed thread h rfl) h
      refine ⟨.inserted accepted, grown, after, ?_, answered.mpr (room thread h rfl), offsets,
        kept (room thread h rfl)⟩
      simp only [perform, bind, Except.bind, returned]
  | erase h =>
      obtain ⟨after, erased, kept⟩ := stands.erase_step (erases h rfl)
      refine ⟨.done, allocator, after, ?_, trivial, rfl, kept⟩
      simp only [perform, bind, Except.bind, erased]
  | clear => exact ⟨_, _, _, rfl, trivial, rfl, stands.clear_step⟩
  | getHashes =>
      obtain ⟨hashes, listed, contents⟩ := stands.lists
      refine ⟨.hashes hashes, allocator, indices, ?_, contents, rfl, stands⟩
      simp only [perform, bind, Except.bind, listed]

/-- A first call that returns what the bounded set answers is roomy and found its
index. -/
theorem Stands.room_of_answer
    (stands : Stands cryptoShorthash bound used present allocator indices) {call : SetCall}
    {answer : SetAnswer} {grown : BlockAllocator HashSetEntry} {after : IndexSet}
    (performed : perform cryptoShorthash allocator indices call = .ok (answer, grown, after))
    (answered : BoundedSet.Answers bound present call answer) :
    (∀ thread h, call = .tryInsert thread h → BoundedSet.Accepts bound h present →
        used < bound) ∧
      ∀ thread h, call = .tryInsert thread h → allocator.offsets thread < allocSize := by
  have indexed : ∀ thread h, call = .tryInsert thread h →
      allocator.offsets thread < allocSize := by
    rintro thread h rfl
    apply Nat.lt_of_not_le
    intro full
    simp only [perform, tryInsert, bind, Except.bind,
      BlockAllocator.allocate_exhausted full] at performed
    cases performed
  refine ⟨?_, indexed⟩
  rintro thread h rfl
  obtain ⟨accepted, grown', after', returned, -, alike, -⟩ :=
    stands.insert_step (indexed thread h rfl) h
  simp only [perform, bind, Except.bind, returned] at performed
  cases performed
  exact alike.mp answered

theorem Stands.refines_iff {calls : List SetCall} :
    ∀ {used : Nat} {present : Finset HashSetEntry} {allocator : BlockAllocator HashSetEntry}
      {indices : IndexSet}, Stands cryptoShorthash bound used present allocator indices →
      BoundedSet.ErasesPresent bound present calls →
      (Refines cryptoShorthash bound present allocator indices calls ↔
        BoundedSet.Roomy bound used present calls ∧
          BoundedSet.Indexed allocator.offsets calls) := by
  induction calls with
  | nil =>
      intro used present allocator indices _ _
      simp only [Refines, BoundedSet.Roomy, BoundedSet.Indexed, and_self]
  | cons call calls induction =>
      intro used present allocator indices stands legal
      constructor
      · rintro ⟨answer, grown, after, performed, answered, -, rest⟩
        obtain ⟨room, indexed⟩ := stands.room_of_answer performed answered
        obtain ⟨answer', grown', after', performed', -, offsets, kept⟩ :=
          stands.step call legal.1 room indexed
        rw [performed] at performed'
        cases performed'
        obtain ⟨roomy, found⟩ := (induction kept legal.2).mp rest
        rw [offsets] at found
        exact ⟨⟨room, roomy⟩, indexed, found⟩
      · rintro ⟨⟨room, roomy⟩, indexed, found⟩
        obtain ⟨answer, grown, after, performed, answered, offsets, kept⟩ :=
          stands.step call legal.1 room indexed
        rw [← offsets] at found
        exact ⟨answer, grown, after, performed, answered, kept.lists,
          (induction kept legal.2).mpr ⟨roomy, found⟩⟩

/-- A table behaves as the bounded set for exactly the sequences that never need a slot
again after its entry was erased, and in which no thread makes more insertions than
its hash allocator has entries left. -/
theorem bounded_set_refined_iff (cryptoShorthash : CryptoShorthash) (capacity : UInt32)
    (allocator : BlockAllocator HashSetEntry) (calls : List SetCall)
    (legal : BoundedSet.ErasesPresent capacity.toNat ∅ calls) :
    Refines cryptoShorthash capacity.toNat ∅ allocator (vacant capacity) calls ↔
      BoundedSet.Roomy capacity.toNat 0 ∅ calls ∧
        ∀ thread, allocator.offsets thread + BoundedSet.insertsBy thread calls ≤ allocSize := by
  rw [(stands_vacant allocator capacity).refines_iff legal,
    BoundedSet.indexed_iff allocator.offsets_within]

/-- A table of one slot is cleared before the slot is needed again, by a thread that has
not allocated yet. -/
theorem bounded_set_refined_cleared :
    Refines (fun _ => 0) 1 ∅ { cache := fun _ => none } (vacant 1)
      [.tryInsert firstThread ⟨1, 0⟩, .erase ⟨1, 0⟩, .clear, .tryInsert firstThread ⟨2, 0⟩,
        .getHashes] := by
  refine (bounded_set_refined_iff (fun _ => 0) 1 _ _ ?_).mpr ⟨?_, fun thread => ?_⟩
  · simp [BoundedSet.ErasesPresent, BoundedSet.next, BoundedSet.Accepts]
  · simp [BoundedSet.Roomy, BoundedSet.next, BoundedSet.taken, BoundedSet.Accepts]
  · simp only [BlockAllocator.offsets, BlockAllocator.own, Option.getD_none,
      BoundedSet.insertsBy, allocSize]
    split_ifs <;> omega

/-- One slot: its entry is erased, and another entry is refused. The tombstone is passed by,
although the table holds nothing. -/
theorem erased_slot_lost :
    BoundedSet.ErasesPresent 1 ∅ [.tryInsert firstThread ⟨1, 0⟩, .erase ⟨1, 0⟩,
        .tryInsert firstThread ⟨2, 0⟩] ∧
      ¬ Refines (fun _ => 0) 1 ∅ { cache := fun _ => none } (vacant 1)
        [.tryInsert firstThread ⟨1, 0⟩, .erase ⟨1, 0⟩, .tryInsert firstThread ⟨2, 0⟩] := by
  have legal : BoundedSet.ErasesPresent 1 ∅
      [.tryInsert firstThread ⟨1, 0⟩, .erase ⟨1, 0⟩, .tryInsert firstThread ⟨2, 0⟩] := by
    simp [BoundedSet.ErasesPresent, BoundedSet.next, BoundedSet.Accepts]
  refine ⟨legal, ?_⟩
  intro refined
  have roomy := ((stands_vacant _ 1).refines_iff legal).mp refined
  simp [BoundedSet.Roomy, BoundedSet.next, BoundedSet.taken, BoundedSet.Accepts] at roomy

end IndexSet

end Scs
