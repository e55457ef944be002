import Mathlib.Data.Multiset.Filter
import Scs.Library.Threads
import Scs.HashSet.AtomicSet

/-!
# Concurrent inserts and erases (`hash_set/atomic_set.cc`)

Any number of `try_insert` calls on one table, each followed, if its caller wants
to, by one `erase` of what it inserted. One move is one load or compare-exchange
of a slot, or one access of the fill counter. A slot holds the entry that its
index resolves to, so a compare-exchange compares entries; no slot is ever given
an entry twice.
-/

namespace Scs

set_option autoImplicit false

open OpenAddressing Runs Threads

/-- A call of `try_insert`, and of `erase` by the same caller, by what it does next. -/
inductive SetTask where
  | insertStarts (h : HashSetEntry)
  | probing (h : HashSetEntry) (idx : ℕ)
  | claiming (h : HashSetEntry) (idx : ℕ)
  | counting (h : HashSetEntry)
  | inserted (h : HashSetEntry)
  | refused (h : HashSetEntry)
  | erasing (h : HashSetEntry) (idx : ℕ)
  | removing (h : HashSetEntry) (idx : ℕ)
  | discounting (h : HashSetEntry)
  | thrown (message : String)

/-- A loaded slot that is neither empty nor equal to the entry looked for. -/
def passable (h : HashSetEntry) (slot : Slot HashSetEntry) : Prop :=
  slot ≠ .empty ∧ slot ≠ .entry h

inductive SetMoves (cryptoShorthash : CryptoShorthash) : Threads.Moves AtomicSet SetTask
  -- `try_insert`
  | full {set : AtomicSet} {h : HashSetEntry} (full : set.numFilledSlots ≥ set.capacity) :
      SetMoves cryptoShorthash set (.insertStarts h) set {.refused h}
  | starts {set : AtomicSet} {h : HashSetEntry} (room : ¬ set.numFilledSlots ≥ set.capacity) :
      SetMoves cryptoShorthash set (.insertStarts h) set
        {.probing h (set.startIdx cryptoShorthash h)}
  | meetsEmpty {set : AtomicSet} {h : HashSetEntry} {idx : ℕ}
      (loaded : set.array[idx]? = some .empty) :
      SetMoves cryptoShorthash set (.probing h idx) set {.claiming h idx}
  | meetsEqual {set : AtomicSet} {h : HashSetEntry} {idx : ℕ}
      (loaded : set.array[idx]? = some (.entry h)) :
      SetMoves cryptoShorthash set (.probing h idx) set {.refused h}
  | passes {set : AtomicSet} {h : HashSetEntry} {idx : ℕ} {slot : Slot HashSetEntry}
      (loaded : set.array[idx]? = some slot) (other : passable h slot)
      (more : nextIndex set.capacity.toNat idx ≠ set.startIdx cryptoShorthash h) :
      SetMoves cryptoShorthash set (.probing h idx) set
        {.probing h (nextIndex set.capacity.toNat idx)}
  | exhausts {set : AtomicSet} {h : HashSetEntry} {idx : ℕ} {slot : Slot HashSetEntry}
      (loaded : set.array[idx]? = some slot) (other : passable h slot)
      (last : nextIndex set.capacity.toNat idx = set.startIdx cryptoShorthash h) :
      SetMoves cryptoShorthash set (.probing h idx) set {.refused h}
  | claims {set : AtomicSet} {h : HashSetEntry} {idx : ℕ}
      (unchanged : set.array[idx]? = some .empty) :
      SetMoves cryptoShorthash set (.claiming h idx)
        (set.writeSlot idx (.entry h) set.numFilledSlots) {.counting h}
  | claimFails {set : AtomicSet} {h : HashSetEntry} {idx : ℕ}
      (changed : set.array[idx]? ≠ some .empty) :
      SetMoves cryptoShorthash set (.claiming h idx) set {.probing h idx}
  | counts {set : AtomicSet} {h : HashSetEntry} :
      SetMoves cryptoShorthash set (.counting h)
        { set with numFilledSlots := set.numFilledSlots + 1 } {.inserted h}
  -- `erase`
  | erases {set : AtomicSet} {h : HashSetEntry} :
      SetMoves cryptoShorthash set (.inserted h) set
        {.erasing h (set.startIdx cryptoShorthash h)}
  | finds {set : AtomicSet} {h : HashSetEntry} {idx : ℕ}
      (loaded : set.array[idx]? = some (.entry h)) :
      SetMoves cryptoShorthash set (.erasing h idx) set {.removing h idx}
  | misses {set : AtomicSet} {h : HashSetEntry} {idx : ℕ}
      (loaded : set.array[idx]? = some .empty) :
      SetMoves cryptoShorthash set (.erasing h idx) set
        {.thrown "deletion failed to find elt"}
  | walks {set : AtomicSet} {h : HashSetEntry} {idx : ℕ} {slot : Slot HashSetEntry}
      (loaded : set.array[idx]? = some slot) (other : passable h slot)
      (more : nextIndex set.capacity.toNat idx ≠ set.startIdx cryptoShorthash h) :
      SetMoves cryptoShorthash set (.erasing h idx) set
        {.erasing h (nextIndex set.capacity.toNat idx)}
  | runsOut {set : AtomicSet} {h : HashSetEntry} {idx : ℕ} {slot : Slot HashSetEntry}
      (loaded : set.array[idx]? = some slot) (other : passable h slot)
      (last : nextIndex set.capacity.toNat idx = set.startIdx cryptoShorthash h) :
      SetMoves cryptoShorthash set (.erasing h idx) set
        {.thrown "deletion failed after complete scan"}
  | removes {set : AtomicSet} {h : HashSetEntry} {idx : ℕ}
      (unchanged : set.array[idx]? = some (.entry h)) :
      SetMoves cryptoShorthash set (.removing h idx)
        (set.writeSlot idx .tombstone set.numFilledSlots) {.discounting h}
  | removeFails {set : AtomicSet} {h : HashSetEntry} {idx : ℕ}
      (changed : set.array[idx]? ≠ some (.entry h)) :
      SetMoves cryptoShorthash set (.removing h idx) set {.erasing h idx}
  | discounts {set : AtomicSet} {h : HashSetEntry} :
      SetMoves cryptoShorthash set (.discounting h)
        { set with numFilledSlots := set.numFilledSlots - 1 } 0

namespace SetTask

def held? : SetTask → Option HashSetEntry
  | .counting h => some h
  | .inserted h => some h
  | .erasing h _ => some h
  | .removing h _ => some h
  | _ => none

def inserted? : SetTask → Option HashSetEntry
  | .inserted h => some h
  | _ => none

def uncounted : SetTask → ℕ
  | .counting _ => 1
  | _ => 0

def overcounted : SetTask → ℕ
  | .discounting _ => 1
  | _ => 0

def quiet : SetTask → Bool
  | .insertStarts _ => true
  | .inserted _ => true
  | .refused _ => true
  | _ => false

end SetTask

def heldEntries (tasks : Multiset SetTask) : Multiset HashSetEntry :=
  tasks.filterMap SetTask.held?

theorem held_entries_add (left rest : Multiset SetTask) :
    heldEntries (left + rest) = heldEntries left + heldEntries rest :=
  Multiset.filterMap_add _ _ _

theorem held_entries_cons (task : SetTask) (rest : Multiset SetTask) :
    heldEntries (task ::ₘ rest) = heldEntries {task} + heldEntries rest := by
  rw [← Multiset.singleton_add, held_entries_add]

theorem held_entries_single {task : SetTask} {h : HashSetEntry} (held : task.held? = some h) :
    heldEntries {task} = {h} := by
  unfold heldEntries
  rw [← Multiset.cons_zero, Multiset.filterMap_cons_some _ _ _ held, Multiset.filterMap_zero,
    Multiset.cons_zero]

theorem held_entries_none {task : SetTask} (free : task.held? = none) : heldEntries {task} = 0 := by
  unfold heldEntries
  rw [← Multiset.cons_zero, Multiset.filterMap_cons_none _ _ free, Multiset.filterMap_zero]

theorem mem_held_entries {tasks : Multiset SetTask} {task : SetTask} {h : HashSetEntry}
    (member : task ∈ tasks) (held : task.held? = some h) : h ∈ heldEntries tasks :=
  (Multiset.mem_filterMap _ _).mpr ⟨task, member, held⟩

theorem held_entries_quiet {tasks : Multiset SetTask} (quiet : ∀ task ∈ tasks, task.quiet = true) :
    heldEntries tasks = tasks.filterMap SetTask.inserted? := by
  induction tasks using Multiset.induction_on with
  | empty => rfl
  | cons task rest induction =>
      rw [Multiset.forall_mem_cons] at quiet
      obtain ⟨still, others⟩ := quiet
      unfold heldEntries at induction ⊢
      rw [Multiset.filterMap_cons, Multiset.filterMap_cons, induction others]
      cases task with
      | counting h => cases still
      | erasing h idx => cases still
      | removing h idx => cases still
      | _ => rfl

/-! ## Where a scan has come to -/

section Scans

variable {cryptoShorthash : CryptoShorthash} {set : AtomicSet} {h : HashSetEntry} {idx : ℕ}
  {behind stronger : Slot HashSetEntry → Prop}

/-- The scan for `h` has come to `idx`; every slot it left behind satisfies `behind`. -/
def Reached (cryptoShorthash : CryptoShorthash) (set : AtomicSet) (h : HashSetEntry)
    (behind : Slot HashSetEntry → Prop) (idx : ℕ) : Prop :=
  ∃ rank < set.capacity.toNat,
    idx = probe set.capacity.toNat (set.startIdx cryptoShorthash h) rank ∧
    ∀ earlier < rank, ∀ slot,
      set.array[probe set.capacity.toNat (set.startIdx cryptoShorthash h) earlier]? = some slot →
      behind slot

theorem start_idx_bounded (positive : 0 < set.capacity.toNat) (h : HashSetEntry) :
    set.startIdx cryptoShorthash h < set.capacity.toNat := by
  have bounded : set.startIdx cryptoShorthash h < set.array.length :=
    AtomicSet.start_idx_lt h positive
  rwa [set.sized] at bounded

theorem reached_start (positive : 0 < set.capacity.toNat) :
    Reached cryptoShorthash set h behind (set.startIdx cryptoShorthash h) := by
  refine ⟨0, positive, (probe_zero (start_idx_bounded positive h)).symm, ?_⟩
  intro earlier lower
  exact absurd lower (Nat.not_lt_zero _)

theorem reached_next {slot : Slot HashSetEntry} (reached : Reached cryptoShorthash set h behind idx)
    (loaded : set.array[idx]? = some slot) (passed : behind slot)
    (more : nextIndex set.capacity.toNat idx ≠ set.startIdx cryptoShorthash h) :
    Reached cryptoShorthash set h behind (nextIndex set.capacity.toNat idx) := by
  obtain ⟨rank, inside, rfl, before⟩ := reached
  have homed : set.startIdx cryptoShorthash h < set.capacity.toNat :=
    start_idx_bounded (Nat.zero_lt_of_lt inside) h
  by_cases last : rank + 1 = set.capacity.toNat
  · exact absurd (next_index_last homed last) more
  · refine ⟨rank + 1, by omega, next_index_probe rank homed (by omega), ?_⟩
    intro earlier lower other held
    rcases Nat.lt_succ_iff_lt_or_eq.mp lower with older | rfl
    · exact before earlier older other held
    · rw [loaded] at held
      cases held
      exact passed

theorem reached_all {slot : Slot HashSetEntry} (reached : Reached cryptoShorthash set h behind idx)
    (loaded : set.array[idx]? = some slot) (passed : behind slot)
    (last : nextIndex set.capacity.toNat idx = set.startIdx cryptoShorthash h) :
    ∀ slot ∈ set.array, behind slot := by
  obtain ⟨rank, inside, rfl, before⟩ := reached
  have homed : set.startIdx cryptoShorthash h < set.capacity.toNat :=
    start_idx_bounded (Nat.zero_lt_of_lt inside) h
  have ended : rank + 1 = set.capacity.toNat := by
    by_contra more
    rw [next_index_probe rank homed (by omega)] at last
    exact probe_ne_start (rank + 1) homed (Nat.succ_pos _) (by omega) last
  intro other member
  obtain ⟨index, held⟩ := List.mem_iff_getElem?.mp member
  have bounded := (List.getElem?_eq_some_iff.mp held).1
  rw [set.sized] at bounded
  obtain ⟨place, placed, rfl⟩ := probe_surjective homed bounded
  rcases Nat.lt_or_ge place rank with older | newer
  · exact before place older other held
  · have same : place = rank := by omega
    rw [same, loaded] at held
    cases held
    exact passed

/-- A write keeps a scan where it overwrites what the scan may leave behind by
something else of the kind. -/
theorem reached_write {written : ℕ} {old new : Slot HashSetEntry} {filled : UInt32}
    (reached : Reached cryptoShorthash set h behind idx) (held : set.array[written]? = some old)
    (kept : behind old → behind new) :
    Reached cryptoShorthash (set.writeSlot written new filled) h behind idx := by
  obtain ⟨rank, inside, same, before⟩ := reached
  refine ⟨rank, inside, same, ?_⟩
  intro earlier lower slot found
  have inRange := (List.getElem?_eq_some_iff.mp held).1
  by_cases here : written =
      probe set.capacity.toNat (set.startIdx cryptoShorthash h) earlier
  · have behind_old := before earlier lower old (here ▸ held)
    have replaced : (set.array.set written new)[probe set.capacity.toNat
        (set.startIdx cryptoShorthash h) earlier]? = some slot := found
    rw [← here, List.getElem?_set_self inRange] at replaced
    cases replaced
    exact kept behind_old
  · have untouched : (set.array.set written new)[probe set.capacity.toNat
        (set.startIdx cryptoShorthash h) earlier]? = some slot := found
    rw [List.getElem?_set_ne here] at untouched
    exact before earlier lower slot untouched

end Scans

/-! ## The invariant -/

section Table

variable {cryptoShorthash : CryptoShorthash} {set : AtomicSet} {tasks rest : Multiset SetTask}
  {task next : SetTask} {h : HashSetEntry} {idx : ℕ}

def Scanning (cryptoShorthash : CryptoShorthash) (set : AtomicSet) : SetTask → Prop
  | .probing h idx => Reached cryptoShorthash set h (passable h) idx
  | .claiming h idx => Reached cryptoShorthash set h (passable h) idx
  | .erasing h idx => Reached cryptoShorthash set h (· ≠ .entry h) idx
  | .removing h idx => Reached cryptoShorthash set h (· ≠ .entry h) idx
  | .thrown _ => False
  | _ => True

/-- The table holds what the callers hold, each entry once and within reach of
its scans. The fill counter lags behind the callers that have not counted. -/
structure TableInvariant (cryptoShorthash : CryptoShorthash) (set : AtomicSet)
    (tasks : Multiset SetTask) : Prop where
  probed : Probed (fun h => set.startIdx cryptoShorthash h) set.array
  contents : (set.getHashes : Multiset HashSetEntry) = heldEntries tasks
  scanning : ∀ task ∈ tasks, Scanning cryptoShorthash set task
  filled : set.numFilledSlots.toNat + tally SetTask.uncounted tasks =
    set.getHashes.length + tally SetTask.overcounted tasks
  room : set.getHashes.length + set.freeSlots + tally SetTask.overcounted tasks ≤
    set.capacity.toNat

theorem TableInvariant.distinct (table : TableInvariant cryptoShorthash set tasks) :
    (heldEntries tasks).Nodup := by
  rw [← table.contents]
  exact Multiset.coe_nodup.mpr table.probed.distinct

theorem TableInvariant.mem_iff (table : TableInvariant cryptoShorthash set tasks) :
    h ∈ set.getHashes ↔ h ∈ heldEntries tasks := by
  rw [← table.contents, Multiset.mem_coe]

theorem entry_in_place (member : h ∈ set.getHashes) (home : ℕ)
    (homed : home < set.capacity.toNat) :
    ∃ place < set.capacity.toNat,
      set.array[probe set.capacity.toNat home place]? = some (.entry h) := by
  obtain ⟨index, bounded, held⟩ := mem_entries_index.mp member
  rw [set.sized] at bounded
  obtain ⟨place, inside, rfl⟩ := probe_surjective homed bounded
  exact ⟨place, inside, held⟩

theorem probed_before (probed : Probed (fun h => set.startIdx cryptoShorthash h) set.array)
    {place earlier : ℕ} (inside : place < set.capacity.toNat)
    (held : set.array[probe set.capacity.toNat (set.startIdx cryptoShorthash h) place]? =
      some (.entry h)) (lower : earlier < place) :
    set.array[probe set.capacity.toNat (set.startIdx cryptoShorthash h) earlier]? ≠
      some .empty := by
  have reached := probed.reached h place
  rw [set.sized] at reached
  exact reached inside held earlier lower

/-- An insertion at an empty slot has not missed its entry: the entry is neither
behind nor, with an empty slot before it, ahead. -/
theorem claim_absent (probed : Probed (fun h => set.startIdx cryptoShorthash h) set.array)
    (reached : Reached cryptoShorthash set h (passable h) idx)
    (vacant : set.array[idx]? = some .empty) : h ∉ set.getHashes := by
  intro member
  obtain ⟨rank, inside, rfl, before⟩ := reached
  obtain ⟨place, placed, held⟩ := entry_in_place member (set.startIdx cryptoShorthash h)
    (start_idx_bounded (Nat.zero_lt_of_lt inside) h)
  rcases Nat.lt_trichotomy place rank with behind | here | ahead
  · exact (before place behind _ held).2 rfl
  · rw [here, vacant] at held
    cases held
  · exact probed_before probed placed held ahead vacant

theorem erase_meets (probed : Probed (fun h => set.startIdx cryptoShorthash h) set.array)
    (member : h ∈ set.getHashes)
    (reached : Reached cryptoShorthash set h (· ≠ .entry h) idx) :
    set.array[idx]? ≠ some .empty := by
  intro vacant
  obtain ⟨rank, inside, rfl, before⟩ := reached
  obtain ⟨place, placed, held⟩ := entry_in_place member (set.startIdx cryptoShorthash h)
    (start_idx_bounded (Nat.zero_lt_of_lt inside) h)
  rcases Nat.lt_trichotomy place rank with behind | here | ahead
  · exact before place behind _ held rfl
  · rw [here, vacant] at held
    cases held
  · exact probed_before probed placed held ahead vacant

theorem uncounted_le_held (tasks : Multiset SetTask) :
    tally SetTask.uncounted tasks ≤ (heldEntries tasks).card := by
  induction tasks using Multiset.induction_on with
  | empty => exact Nat.le_refl _
  | cons task rest induction =>
      rw [held_entries_cons, Multiset.card_add, tally_cons]
      cases task with
      | counting h =>
          rw [held_entries_single rfl, Multiset.card_singleton]
          exact Nat.add_le_add_left induction 1
      | _ => exact Nat.add_le_add (Nat.zero_le _) induction

theorem TableInvariant.uncounted_le (table : TableInvariant cryptoShorthash set tasks) :
    tally SetTask.uncounted tasks ≤ set.getHashes.length := by
  have cards := congrArg Multiset.card table.contents
  rw [Multiset.coe_card] at cards
  rw [cards]
  exact uncounted_le_held tasks

theorem TableInvariant.full (table : TableInvariant cryptoShorthash set tasks)
    (full : set.numFilledSlots ≥ set.capacity) : set.freeSlots = 0 := by
  have limit := UInt32.le_iff_toNat_le.mp full
  have filled := table.filled
  have room := table.room
  omega

/-! ## One step -/

theorem TableInvariant.goes_on (table : TableInvariant cryptoShorthash set (task ::ₘ rest))
    (held : next.held? = task.held?) (uncounted : next.uncounted = task.uncounted)
    (overcounted : next.overcounted = task.overcounted)
    (scanning : Scanning cryptoShorthash set next) :
    TableInvariant cryptoShorthash set ({next} + rest) where
  probed := table.probed
  contents := by
    have before := table.contents
    rw [held_entries_cons] at before
    have same : heldEntries {next} = heldEntries {task} := by
      cases holds : task.held? with
      | none => rw [held_entries_none holds, held_entries_none (held.trans holds)]
      | some h => rw [held_entries_single holds, held_entries_single (held.trans holds)]
    rw [held_entries_add, same, before]
  scanning other member := by
    rcases Multiset.mem_add.mp member with fresh | old
    · rw [Multiset.mem_singleton.mp fresh]
      exact scanning
    · exact table.scanning other (Multiset.mem_cons_of_mem old)
  filled := by
    have before := table.filled
    rw [tally_cons, tally_cons] at before
    rw [tally_add, tally_add, tally_singleton, tally_singleton, uncounted, overcounted]
    exact before
  room := by
    have before := table.room
    rw [tally_cons] at before
    rw [tally_add, tally_singleton, overcounted]
    exact before

theorem scanning_write {written : ℕ} {old new : Slot HashSetEntry} {filled : UInt32}
    (scanning : Scanning cryptoShorthash set task) (held : set.array[written]? = some old)
    (inserter : ∀ h, passable h old → passable h new)
    (eraser : ∀ h, task.held? = some h → old ≠ .entry h → new ≠ .entry h) :
    Scanning cryptoShorthash (set.writeSlot written new filled) task := by
  cases task with
  | probing h idx => exact reached_write scanning held (inserter h)
  | claiming h idx => exact reached_write scanning held (inserter h)
  | erasing h idx => exact reached_write scanning held (eraser h rfl)
  | removing h idx => exact reached_write scanning held (eraser h rfl)
  | thrown message => exact scanning
  | _ => trivial

theorem TableInvariant.claims
    (table : TableInvariant cryptoShorthash set (.claiming h idx ::ₘ rest))
    (vacant : set.array[idx]? = some .empty) :
    TableInvariant cryptoShorthash (set.writeSlot idx (.entry h) set.numFilledSlots)
        ({.counting h} + rest) ∧
      ((set.writeSlot idx (.entry h) set.numFilledSlots).getHashes : Multiset HashSetEntry) =
        h ::ₘ set.getHashes := by
  have reached : Reached cryptoShorthash set h (passable h) idx :=
    table.scanning _ (Multiset.mem_cons_self _ _)
  have absent := claim_absent table.probed reached vacant
  have contents := table.contents
  have filled := table.filled
  have room := table.room
  rw [held_entries_cons, held_entries_none rfl, Multiset.zero_add] at contents
  rw [tally_cons, tally_cons] at filled
  rw [tally_cons] at room
  have placed : Placed (fun h => set.startIdx cryptoShorthash h) set.array h
      (set.array.set idx (.entry h)) := by
    obtain ⟨rank, inside, rfl, before⟩ := reached
    have homed : set.startIdx cryptoShorthash h < set.capacity.toNat :=
      start_idx_bounded (Nat.zero_lt_of_lt inside) h
    have occupied : ∀ earlier < rank, set.array[probe set.capacity.toNat
        (set.startIdx cryptoShorthash h) earlier]? ≠ some .empty :=
      fun earlier lower empty => (before earlier lower _ empty).1 rfl
    rw [← set.sized] at inside homed occupied vacant ⊢
    exact placed_set table.probed homed absent inside vacant occupied
  have cards := congrArg Multiset.card placed.contents
  rw [Multiset.card_cons, Multiset.coe_card, Multiset.coe_card] at cards
  have written : (set.writeSlot idx (.entry h) set.numFilledSlots).getHashes.length =
      set.getHashes.length + 1 := cards
  have vacancy : (set.writeSlot idx (.entry h) set.numFilledSlots).freeSlots + 1 =
      set.freeSlots := placed.vacancy
  refine ⟨⟨placed.probed, ?_, ?_, ?_, ?_⟩, placed.contents⟩
  · rw [held_entries_add, held_entries_single rfl, ← contents, Multiset.singleton_add]
    exact placed.contents
  · intro other member
    rcases Multiset.mem_add.mp member with fresh | old
    · rw [Multiset.mem_singleton.mp fresh]
      trivial
    · apply scanning_write (table.scanning other (Multiset.mem_cons_of_mem old)) vacant
      · intro other passed
        exact absurd rfl passed.1
      · -- An eraser of this entry would hold it.
        intro held holds _ same
        have equal : h = held := by simpa using same
        subst equal
        exact absent (table.mem_iff.mpr (mem_held_entries (Multiset.mem_cons_of_mem old) holds))
  · rw [tally_add, tally_add, tally_singleton, tally_singleton, written]
    simp only [SetTask.uncounted, SetTask.overcounted] at filled ⊢
    change set.numFilledSlots.toNat + _ = _
    omega
  · rw [tally_add, tally_singleton, written]
    simp only [SetTask.overcounted] at room ⊢
    change _ ≤ set.capacity.toNat
    omega

theorem TableInvariant.removes
    (table : TableInvariant cryptoShorthash set (.removing h idx ::ₘ rest))
    (stored : set.array[idx]? = some (.entry h)) :
    TableInvariant cryptoShorthash (set.writeSlot idx .tombstone set.numFilledSlots)
        ({.discounting h} + rest) ∧
      (set.getHashes : Multiset HashSetEntry) =
        h ::ₘ (set.writeSlot idx .tombstone set.numFilledSlots).getHashes := by
  have removed := removed_set table.probed stored
  have contents := table.contents
  have filled := table.filled
  have room := table.room
  rw [held_entries_cons, held_entries_single rfl, Multiset.singleton_add] at contents
  rw [tally_cons, tally_cons] at filled
  rw [tally_cons] at room
  have cards := congrArg Multiset.card removed.contents
  rw [Multiset.card_cons, Multiset.coe_card, Multiset.coe_card] at cards
  have written : (set.writeSlot idx .tombstone set.numFilledSlots).getHashes.length + 1 =
      set.getHashes.length := cards
  have vacancy : (set.writeSlot idx .tombstone set.numFilledSlots).freeSlots =
      set.freeSlots := removed.vacancy
  refine ⟨⟨removed.probed, ?_, ?_, ?_, ?_⟩, removed.contents.symm⟩
  · rw [held_entries_add, held_entries_none rfl, Multiset.zero_add]
    have both := removed.contents.trans contents
    exact (Multiset.cons_inj_right h).mp both
  · intro other member
    rcases Multiset.mem_add.mp member with fresh | old
    · rw [Multiset.mem_singleton.mp fresh]
      trivial
    · apply scanning_write (table.scanning other (Multiset.mem_cons_of_mem old)) stored
      · intro other _
        exact ⟨by simp, by simp⟩
      · intro held _ _
        simp
  · rw [tally_add, tally_add, tally_singleton, tally_singleton]
    simp only [SetTask.uncounted, SetTask.overcounted] at filled ⊢
    change set.numFilledSlots.toNat + _ = _
    omega
  · rw [tally_add, tally_singleton, vacancy]
    simp only [SetTask.overcounted] at room ⊢
    change _ ≤ set.capacity.toNat
    omega

theorem TableInvariant.recounts {left : Multiset SetTask} {count : UInt32}
    (table : TableInvariant cryptoShorthash set (task ::ₘ rest))
    (held : heldEntries left = heldEntries {task})
    (scanning : ∀ other ∈ left, Scanning cryptoShorthash set other)
    (filled : count.toNat + tally SetTask.uncounted (left + rest) =
      set.getHashes.length + tally SetTask.overcounted (left + rest))
    (fewer : tally SetTask.overcounted left ≤ task.overcounted) :
    TableInvariant cryptoShorthash { set with numFilledSlots := count } (left + rest) where
  probed := table.probed
  contents := by
    have before := table.contents
    rw [held_entries_cons] at before
    rw [held_entries_add, held]
    exact before
  scanning other member := by
    have kept : Scanning cryptoShorthash set other := by
      rcases Multiset.mem_add.mp member with fresh | old
      · exact scanning other fresh
      · exact table.scanning other (Multiset.mem_cons_of_mem old)
    cases other <;> exact kept
  filled := filled
  room := by
    have before := table.room
    rw [tally_cons] at before
    rw [tally_add]
    change set.getHashes.length + set.freeSlots + _ ≤ set.capacity.toNat
    omega

theorem TableInvariant.counts (table : TableInvariant cryptoShorthash set (.counting h ::ₘ rest)) :
    TableInvariant cryptoShorthash { set with numFilledSlots := set.numFilledSlots + 1 }
      ({.inserted h} + rest) := by
  have filled := table.filled
  have room := table.room
  have bounded := set.capacity.toNat_lt
  have one : (1 : UInt32).toNat = 1 := rfl
  rw [tally_cons, tally_cons] at filled
  rw [tally_cons] at room
  simp only [SetTask.uncounted, SetTask.overcounted] at filled room
  apply table.recounts
  · rw [held_entries_single rfl, held_entries_single rfl]
  · intro other member
    rw [Multiset.mem_singleton.mp member]
    trivial
  · rw [tally_add, tally_add, tally_singleton, tally_singleton, UInt32.toNat_add, one]
    simp only [SetTask.uncounted, SetTask.overcounted]
    omega
  · exact Nat.le_refl 0

theorem TableInvariant.discounts
    (table : TableInvariant cryptoShorthash set (.discounting h ::ₘ rest)) :
    TableInvariant cryptoShorthash { set with numFilledSlots := set.numFilledSlots - 1 }
      (0 + rest) := by
  have filled := table.filled
  have uncounted := table.uncounted_le
  have bounded := set.numFilledSlots.toNat_lt
  have one : (1 : UInt32).toNat = 1 := rfl
  rw [tally_cons, tally_cons] at filled
  rw [tally_cons] at uncounted
  simp only [SetTask.uncounted, SetTask.overcounted] at filled uncounted
  apply table.recounts
  · rw [held_entries_none rfl]
    rfl
  · intro other member
    exact absurd member (Multiset.notMem_zero _)
  · rw [Multiset.zero_add, UInt32.toNat_sub, one]
    omega
  · exact Nat.zero_le _

theorem TableInvariant.stored (table : TableInvariant cryptoShorthash set (task ::ₘ rest))
    (held : task.held? = some h) : h ∈ set.getHashes :=
  table.mem_iff.mpr (mem_held_entries (Multiset.mem_cons_self _ _) held)

theorem TableInvariant.move {after : AtomicSet} {left : Multiset SetTask}
    (table : TableInvariant cryptoShorthash set (task ::ₘ rest))
    (moved : SetMoves cryptoShorthash set task after left) :
    TableInvariant cryptoShorthash after (left + rest) := by
  have scanned := table.scanning task (Multiset.mem_cons_self _ _)
  cases moved with
  | full full => exact table.goes_on rfl rfl rfl trivial
  | starts room =>
      refine table.goes_on rfl rfl rfl (reached_start ?_)
      have below := UInt32.lt_iff_toNat_lt.mp (UInt32.not_le.mp room)
      omega
  | meetsEmpty loaded => exact table.goes_on rfl rfl rfl scanned
  | meetsEqual loaded => exact table.goes_on rfl rfl rfl trivial
  | passes loaded other more =>
      exact table.goes_on rfl rfl rfl (reached_next scanned loaded other more)
  | exhausts loaded other last => exact table.goes_on rfl rfl rfl trivial
  | claims unchanged => exact (table.claims unchanged).1
  | claimFails changed => exact table.goes_on rfl rfl rfl scanned
  | counts => exact table.counts
  | erases =>
      refine table.goes_on rfl rfl rfl (reached_start ?_)
      have nonempty := List.length_pos_of_mem (table.stored rfl)
      have occupied := table.room
      omega
  | finds loaded => exact table.goes_on rfl rfl rfl scanned
  | misses loaded => exact absurd loaded (erase_meets table.probed (table.stored rfl) scanned)
  | walks loaded other more =>
      exact table.goes_on rfl rfl rfl (reached_next scanned loaded other.2 more)
  | runsOut loaded other last =>
      have entry := mem_entries.mp (table.stored rfl)
      exact absurd rfl (reached_all scanned loaded other.2 last _ entry)
  | removes unchanged => exact (table.removes unchanged).1
  | removeFails changed => exact table.goes_on rfl rfl rfl scanned
  | discounts => exact table.discounts

structure SetTask.Apart (cryptoShorthash : CryptoShorthash) (set : AtomicSet) (task : SetTask) :
    Prop where
  free : task.held? = none
  uncounted : task.uncounted = 0
  overcounted : task.overcounted = 0
  scanning : Scanning cryptoShorthash set task

theorem table_apart_iff (apart : task.Apart cryptoShorthash set) :
    TableInvariant cryptoShorthash set (task ::ₘ rest) ↔
      TableInvariant cryptoShorthash set rest := by
  have held : heldEntries (task ::ₘ rest) = heldEntries rest := by
    rw [held_entries_cons, held_entries_none apart.free, Multiset.zero_add]
  have uncounted : tally SetTask.uncounted (task ::ₘ rest) = tally SetTask.uncounted rest := by
    rw [tally_cons, apart.uncounted, Nat.zero_add]
  have overcounted : tally SetTask.overcounted (task ::ₘ rest) =
      tally SetTask.overcounted rest := by
    rw [tally_cons, apart.overcounted, Nat.zero_add]
  constructor
  · rintro ⟨probed, contents, scanning, filled, room⟩
    rw [held] at contents
    rw [uncounted, overcounted] at filled
    rw [overcounted] at room
    exact ⟨probed, contents, fun one member => scanning one (Multiset.mem_cons_of_mem member),
      filled, room⟩
  · rintro ⟨probed, contents, scanning, filled, room⟩
    refine ⟨probed, held.symm ▸ contents, ?_, ?_, ?_⟩
    · intro one member
      rcases Multiset.mem_cons.mp member with rfl | old
      · exact apart.scanning
      · exact scanning one old
    · rwa [uncounted, overcounted]
    · rwa [overcounted]

theorem insert_starts_apart : (SetTask.insertStarts h).Apart cryptoShorthash set :=
  ⟨rfl, rfl, rfl, trivial⟩

theorem refused_apart : (SetTask.refused h).Apart cryptoShorthash set :=
  ⟨rfl, rfl, rfl, trivial⟩

theorem table_vacant (capacity : UInt32) :
    TableInvariant cryptoShorthash (.vacant capacity) 0 where
  probed := probed_replicate _ _
  contents := by
    rw [AtomicSet.vacant_get_hashes]
    rfl
  scanning _ member := absurd member (Multiset.notMem_zero _)
  filled := by
    rw [AtomicSet.vacant_get_hashes]
    rfl
  room := by
    rw [AtomicSet.vacant_get_hashes, AtomicSet.vacant_free_slots]
    exact (Nat.zero_add _).le

/-! ## What one move does to the entries -/

theorem set_moves_accept {after : AtomicSet} {left : Multiset SetTask}
    (moved : SetMoves cryptoShorthash set task after left) (accepted : left = {.counting h}) :
    ∃ idx, task = .claiming h idx ∧ set.array[idx]? = some .empty ∧
      after = set.writeSlot idx (.entry h) set.numFilledSlots := by
  cases moved with
  | claims unchanged =>
      cases Multiset.singleton_inj.mp accepted
      exact ⟨_, rfl, unchanged, rfl⟩
  | discounts => exact absurd accepted.symm (Multiset.singleton_ne_zero _)
  | _ => cases Multiset.singleton_inj.mp accepted

theorem set_moves_erase {after : AtomicSet} {left : Multiset SetTask}
    (moved : SetMoves cryptoShorthash set task after left) (erased : left = {.discounting h}) :
    ∃ idx, task = .removing h idx ∧ set.array[idx]? = some (.entry h) ∧
      after = set.writeSlot idx .tombstone set.numFilledSlots := by
  cases moved with
  | removes unchanged =>
      cases Multiset.singleton_inj.mp erased
      exact ⟨_, rfl, unchanged, rfl⟩
  | discounts => exact absurd erased.symm (Multiset.singleton_ne_zero _)
  | _ => cases Multiset.singleton_inj.mp erased

theorem TableInvariant.refuses {after : AtomicSet} {left : Multiset SetTask}
    (table : TableInvariant cryptoShorthash set tasks) (member : task ∈ tasks)
    (moved : SetMoves cryptoShorthash set task after left) (refused : left = {.refused h}) :
    after = set ∧ (h ∈ set.getHashes ∨ set.freeSlots = 0) := by
  cases moved with
  | full full => exact ⟨rfl, .inr (table.full full)⟩
  | meetsEqual loaded =>
      cases Multiset.singleton_inj.mp refused
      exact ⟨rfl, .inl (mem_entries.mpr (List.mem_of_getElem? loaded))⟩
  | exhausts loaded other last =>
      refine ⟨rfl, .inr ?_⟩
      have scanned := table.scanning _ member
      apply Nat.eq_zero_of_not_pos
      intro vacancy
      obtain ⟨index, _, vacant⟩ := empty_count_pos.mp vacancy
      have passed := reached_all scanned loaded other last _ (List.mem_of_getElem? vacant)
      exact passed.1 rfl
  | discounts => exact absurd refused.symm (Multiset.singleton_ne_zero _)
  | _ => cases Multiset.singleton_inj.mp refused

end Table

/-! ## Every interleaving -/

abbrev SetPool := Pool AtomicSet SetTask

def setPool (capacity : UInt32) (hashes : Multiset HashSetEntry) : SetPool where
  shared := .vacant capacity
  tasks := hashes.map .insertStarts

/-- The table is the set of the entries that callers hold. Each call takes effect
on that set at one of its moves, and answers as a sequential call would there. -/
structure Linearized (cryptoShorthash : CryptoShorthash) (pool : SetPool) : Prop where
  contents : (pool.shared.getHashes : Multiset HashSetEntry) = heldEntries pool.tasks
  distinct : (heldEntries pool.tasks).Nodup
  accepts : ∀ task ∈ pool.tasks, ∀ after h,
    SetMoves cryptoShorthash pool.shared task after {.counting h} →
      h ∉ heldEntries pool.tasks ∧
      (after.getHashes : Multiset HashSetEntry) = h ::ₘ pool.shared.getHashes
  refuses : ∀ task ∈ pool.tasks, ∀ after h,
    SetMoves cryptoShorthash pool.shared task after {.refused h} →
      after = pool.shared ∧ (h ∈ heldEntries pool.tasks ∨ pool.shared.freeSlots = 0)
  erases : ∀ task ∈ pool.tasks, ∀ after h,
    SetMoves cryptoShorthash pool.shared task after {.discounting h} →
      (pool.shared.getHashes : Multiset HashSetEntry) = h ::ₘ after.getHashes
  unthrown : ∀ message, SetTask.thrown message ∉ pool.tasks
  quiescent : (∀ task ∈ pool.tasks, task.quiet = true) →
    (pool.shared.getHashes : Multiset HashSetEntry) = pool.tasks.filterMap SetTask.inserted?

theorem table_linearized {cryptoShorthash : CryptoShorthash} {pool : SetPool}
    (table : TableInvariant cryptoShorthash pool.shared pool.tasks) :
    Linearized cryptoShorthash pool where
  contents := table.contents
  distinct := table.distinct
  accepts task member after h moved := by
    obtain ⟨idx, rfl, vacant, rfl⟩ := set_moves_accept moved rfl
    obtain ⟨rest, whole⟩ := Multiset.exists_cons_of_mem member
    have absent := claim_absent table.probed (table.scanning _ member) vacant
    rw [whole] at table
    refine ⟨?_, (table.claims vacant).2⟩
    rwa [whole, ← table.mem_iff]
  refuses task member after h moved := by
    obtain ⟨same, answer⟩ := table.refuses member moved rfl
    rw [table.mem_iff] at answer
    exact ⟨same, answer⟩
  erases task member after h moved := by
    obtain ⟨idx, rfl, stored, rfl⟩ := set_moves_erase moved rfl
    obtain ⟨rest, whole⟩ := Multiset.exists_cons_of_mem member
    rw [whole] at table
    exact (table.removes stored).2
  unthrown message member := table.scanning _ member
  quiescent quiet := table.contents.trans (held_entries_quiet quiet)

theorem set_pool_table (cryptoShorthash : CryptoShorthash) (capacity : UInt32)
    (hashes : Multiset HashSetEntry) :
    TableInvariant cryptoShorthash (setPool capacity hashes).shared
      (setPool capacity hashes).tasks := by
  unfold setPool
  induction hashes using Multiset.induction_on with
  | empty => exact table_vacant capacity
  | cons h rest induction =>
      rw [Multiset.map_cons]
      exact (table_apart_iff insert_starts_apart).mpr induction

theorem table_run {cryptoShorthash : CryptoShorthash} {start final : SetPool}
    {labels : List SetTask} (table : TableInvariant cryptoShorthash start.shared start.tasks)
    (run : Run (Threads.Step (SetMoves cryptoShorthash)) start labels final) :
    TableInvariant cryptoShorthash final.shared final.tasks := by
  apply run_invariant (fun pool => TableInvariant cryptoShorthash pool.shared pool.tasks)
    _ table run
  intro pool label next kept step
  cases step with
  | move rest moved => exact kept.move moved

end Scs
