import Mathlib.Algebra.Order.Group.Multiset
import Mathlib.Data.Multiset.Filter
import Mathlib.Data.Nat.Find
import Mathlib.Tactic.Abel

/-!
# Open addressing with tombstones

A circular probe visits every slot once, starting at the value's home index.
The invariant of the table is that no empty slot precedes a value on its own
probe path, so a probe that meets an empty slot has seen everything there is
to see. Removal leaves a tombstone, which a probe walks over.
-/

namespace OpenAddressing

set_option autoImplicit false

inductive Slot (Value : Type*) where
  | empty
  | tombstone
  | entry (value : Value)
  deriving DecidableEq, Repr

variable {Value Result : Type*}

def Slot.isEmpty : Slot Value → Bool
  | .empty => true
  | _ => false

def Slot.value? : Slot Value → Option Value
  | .entry value => some value
  | _ => none

/-! ## The circular scan -/

def nextIndex (capacity index : Nat) : Nat :=
  if index + 1 = capacity then 0 else index + 1

/-- The loop `do { visit(idx); idx = next(idx); } while (idx != start)`. -/
def scan (visit : Nat → Option Result) (capacity start : Nat) : Nat → Nat → Option Result
  | 0, _ => none
  | fuel + 1, index =>
      match visit index with
      | some result => some result
      | none =>
          let next := nextIndex capacity index
          if next = start then none else scan visit capacity start fuel next

def circularScan (visit : Nat → Option Result) (capacity start : Nat) : Option Result :=
  scan visit capacity start capacity start

/-- The slot a scan from `start` visits after `rank` other slots. -/
def probe (capacity start rank : Nat) : Nat := (start + rank) % capacity

theorem probe_lt {capacity start : Nat} (rank : Nat) (bounded : start < capacity) :
    probe capacity start rank < capacity := by
  exact Nat.mod_lt _ (by omega)

theorem probe_zero {capacity start : Nat} (bounded : start < capacity) :
    probe capacity start 0 = start := by
  simp only [probe, Nat.add_zero]
  exact Nat.mod_eq_of_lt bounded

theorem probe_eq {capacity start rank : Nat} (bounded : start < capacity)
    (rankBound : rank < capacity) :
    probe capacity start rank =
      if start + rank < capacity then start + rank else start + rank - capacity := by
  unfold probe
  split_ifs with inside
  · exact Nat.mod_eq_of_lt inside
  · rw [Nat.mod_eq_sub_mod (by omega)]
    exact Nat.mod_eq_of_lt (by omega)

theorem next_index_probe {capacity start : Nat} (rank : Nat) (bounded : start < capacity)
    (rankBound : rank + 1 < capacity) :
    nextIndex capacity (probe capacity start rank) = probe capacity start (rank + 1) := by
  rw [probe_eq bounded (by omega), probe_eq bounded rankBound]
  unfold nextIndex
  split_ifs <;> omega

theorem next_index_last {capacity start rank : Nat} (bounded : start < capacity)
    (last : rank + 1 = capacity) :
    nextIndex capacity (probe capacity start rank) = start := by
  rw [probe_eq bounded (by omega)]
  unfold nextIndex
  split_ifs <;> omega

theorem probe_ne_start {capacity start : Nat} (rank : Nat) (bounded : start < capacity)
    (positive : 0 < rank) (rankBound : rank < capacity) :
    probe capacity start rank ≠ start := by
  rw [probe_eq bounded rankBound]
  split_ifs <;> omega

theorem probe_surjective {capacity start index : Nat} (bounded : start < capacity)
    (inside : index < capacity) : ∃ rank, rank < capacity ∧ probe capacity start rank = index := by
  by_cases after : start ≤ index
  · refine ⟨index - start, by omega, ?_⟩
    rw [probe_eq bounded (by omega)]
    split_ifs <;> omega
  · refine ⟨index + capacity - start, by omega, ?_⟩
    rw [probe_eq bounded (by omega)]
    split_ifs <;> omega

theorem probe_injective {capacity start left right : Nat} (bounded : start < capacity)
    (leftBound : left < capacity) (rightBound : right < capacity)
    (same : probe capacity start left = probe capacity start right) : left = right := by
  rw [probe_eq bounded leftBound, probe_eq bounded rightBound] at same
  split_ifs at same <;> omega

/-- The induction is on the distance to the first answer; the fuel only has to
outlast it. -/
theorem scan_hit_from {visit : Nat → Option Result} {capacity start : Nat} {result : Result}
    (bounded : start < capacity) (distance rank fuel : Nat)
    (rankBound : rank + distance < capacity) (enough : distance < fuel)
    (before : ∀ step < distance, visit (probe capacity start (rank + step)) = none)
    (hit : visit (probe capacity start (rank + distance)) = some result) :
    scan visit capacity start fuel (probe capacity start rank) = some result := by
  induction distance generalizing rank fuel with
  | zero =>
      obtain ⟨fuel, rfl⟩ : ∃ rest, fuel = rest + 1 := ⟨fuel - 1, by omega⟩
      rw [Nat.add_zero] at hit
      simp only [scan, hit]
  | succ distance induction =>
      obtain ⟨fuel, rfl⟩ : ∃ rest, fuel = rest + 1 := ⟨fuel - 1, by omega⟩
      have miss := before 0 (by omega)
      rw [Nat.add_zero] at miss
      have moved := next_index_probe rank bounded (by omega)
      have inner := probe_ne_start (rank + 1) bounded (by omega) (by omega)
      simp only [scan, miss, moved, if_neg inner]
      apply induction (rank + 1) fuel (by omega) (by omega)
      · intro step bound
        have earlier := before (step + 1) (by omega)
        rwa [show rank + (step + 1) = rank + 1 + step by omega] at earlier
      · rwa [show rank + (distance + 1) = rank + 1 + distance by omega] at hit

theorem scan_none_from {visit : Nat → Option Result} {capacity start : Nat}
    (bounded : start < capacity) (fuel rank : Nat) (rankBound : rank < capacity)
    (missed : ∀ later, rank ≤ later → later < capacity →
      visit (probe capacity start later) = none) :
    scan visit capacity start fuel (probe capacity start rank) = none := by
  induction fuel generalizing rank with
  | zero => rfl
  | succ fuel induction =>
      have miss := missed rank (Nat.le_refl _) rankBound
      by_cases last : rank + 1 = capacity
      · simp only [scan, miss, next_index_last bounded last, if_pos]
      · have moved := next_index_probe rank bounded (by omega)
        have inner := probe_ne_start (rank + 1) bounded (by omega) (by omega)
        simp only [scan, miss, moved, if_neg inner]
        exact induction (rank + 1) (by omega)
          (fun later lower upper => missed later (by omega) upper)

theorem circular_scan_hit {visit : Nat → Option Result} {capacity start rank : Nat}
    {result : Result} (bounded : start < capacity) (rankBound : rank < capacity)
    (before : ∀ earlier < rank, visit (probe capacity start earlier) = none)
    (hit : visit (probe capacity start rank) = some result) :
    circularScan visit capacity start = some result := by
  have found := scan_hit_from bounded rank 0 capacity (by omega) rankBound
    (by simpa only [Nat.zero_add] using before) (by simpa only [Nat.zero_add] using hit)
  rwa [probe_zero bounded] at found

theorem circular_scan_none {visit : Nat → Option Result} {capacity start : Nat}
    (bounded : start < capacity)
    (missed : ∀ rank < capacity, visit (probe capacity start rank) = none) :
    circularScan visit capacity start = none := by
  have nothing := scan_none_from bounded capacity 0 (by omega)
    (fun later _ upper => missed later upper)
  rwa [probe_zero bounded] at nothing

theorem circular_scan_first {visit : Nat → Option Result} {capacity start : Nat}
    {result : Result} (bounded : start < capacity)
    (found : circularScan visit capacity start = some result) :
    ∃ rank < capacity, visit (probe capacity start rank) = some result ∧
      ∀ earlier < rank, visit (probe capacity start earlier) = none := by
  classical
  by_cases answered : ∃ rank, rank < capacity ∧ visit (probe capacity start rank) ≠ none
  · have shape := Nat.find_spec answered
    have first : ∀ earlier < Nat.find answered, visit (probe capacity start earlier) = none := by
      intro earlier lower
      by_contra some
      exact Nat.find_min answered lower ⟨by omega, some⟩
    obtain ⟨other, hit⟩ := Option.ne_none_iff_exists'.mp shape.2
    have same := circular_scan_hit bounded shape.1 first hit
    rw [found] at same
    cases same
    exact ⟨Nat.find answered, shape.1, hit, first⟩
  · push Not at answered
    rw [circular_scan_none bounded answered] at found
    cases found

theorem circular_scan_map {Other : Type*} (words : Result → Other) (visit : Nat → Option Result)
    (capacity start : Nat) :
    circularScan (fun index => (visit index).map words) capacity start =
      (circularScan visit capacity start).map words := by
  have scanned (fuel index : Nat) :
      scan (fun index => (visit index).map words) capacity start fuel index =
        (scan visit capacity start fuel index).map words := by
    induction fuel generalizing index with
    | zero => rfl
    | succ fuel induction =>
        simp only [scan]
        cases visit index with
        | some result => rfl
        | none =>
            simp only [Option.map]
            split_ifs
            · rfl
            · exact induction _
  exact scanned capacity start

/-! ## Contents of a table -/

def entries (slots : List (Slot Value)) : List Value := slots.filterMap Slot.value?

def emptyCount (slots : List (Slot Value)) : Nat := slots.countP Slot.isEmpty

theorem mem_entries {slots : List (Slot Value)} {value : Value} :
    value ∈ entries slots ↔ Slot.entry value ∈ slots := by
  unfold entries
  rw [List.mem_filterMap]
  constructor
  · rintro ⟨slot, member, held⟩
    cases slot <;> simp_all [Slot.value?]
  · intro member
    exact ⟨_, member, rfl⟩

theorem mem_entries_index {slots : List (Slot Value)} {value : Value} :
    value ∈ entries slots ↔ ∃ index < slots.length, slots[index]? = some (.entry value) := by
  rw [mem_entries, List.mem_iff_getElem?]
  constructor
  · rintro ⟨index, held⟩
    exact ⟨index, (List.getElem?_eq_some_iff.mp held).1, held⟩
  · rintro ⟨index, _, held⟩
    exact ⟨index, held⟩

theorem empty_count_pos {slots : List (Slot Value)} :
    0 < emptyCount slots ↔ ∃ index < slots.length, slots[index]? = some .empty := by
  unfold emptyCount
  rw [List.countP_pos_iff]
  constructor
  · rintro ⟨slot, member, isEmpty⟩
    obtain ⟨index, held⟩ := List.mem_iff_getElem?.mp member
    cases slot with
    | empty => exact ⟨index, (List.getElem?_eq_some_iff.mp held).1, held⟩
    | tombstone => simp [Slot.isEmpty] at isEmpty
    | entry value => simp [Slot.isEmpty] at isEmpty
  · rintro ⟨index, _, held⟩
    exact ⟨.empty, List.mem_iff_getElem?.mpr ⟨index, held⟩, rfl⟩

theorem entries_append (left right : List (Slot Value)) :
    entries (left ++ right) = entries left ++ entries right := by
  exact List.filterMap_append

theorem set_eq_around {slots : List (Slot Value)} {index : Nat} {old : Slot Value}
    (held : slots[index]? = some old) (new : Slot Value) :
    slots = slots.take index ++ old :: slots.drop (index + 1) ∧
      slots.set index new = slots.take index ++ new :: slots.drop (index + 1) := by
  obtain ⟨inside, same⟩ := List.getElem?_eq_some_iff.mp held
  constructor
  · rw [← same, List.getElem_cons_drop, List.take_append_drop]
  · exact List.set_eq_take_append_cons_drop.trans (if_pos inside)

/-- Overwriting one slot replaces exactly its own contribution. -/
theorem entries_set {slots : List (Slot Value)} {index : Nat} {old : Slot Value}
    (held : slots[index]? = some old) (new : Slot Value) :
    (entries (slots.set index new) : Multiset Value) + (old.value?.toList : Multiset Value) =
      (entries slots : Multiset Value) + (new.value?.toList : Multiset Value) := by
  obtain ⟨before, after⟩ := set_eq_around held new
  have whole : entries slots = entries (slots.take index) ++
      (old.value?.toList ++ entries (slots.drop (index + 1))) := by
    conv_lhs => rw [before]
    rw [entries_append]
    cases old <;> rfl
  have changed : entries (slots.set index new) = entries (slots.take index) ++
      (new.value?.toList ++ entries (slots.drop (index + 1))) := by
    rw [after, entries_append]
    cases new <;> rfl
  rw [whole, changed]
  simp only [← Multiset.coe_add]
  abel

theorem empty_count_set {slots : List (Slot Value)} {index : Nat} {old : Slot Value}
    (held : slots[index]? = some old) (new : Slot Value) :
    emptyCount (slots.set index new) + old.isEmpty.toNat =
      emptyCount slots + new.isEmpty.toNat := by
  obtain ⟨before, after⟩ := set_eq_around held new
  have whole : emptyCount slots = emptyCount (slots.take index) +
      (emptyCount (slots.drop (index + 1)) + old.isEmpty.toNat) := by
    conv_lhs => rw [before]
    unfold emptyCount
    rw [List.countP_append, List.countP_cons]
    cases old <;> rfl
  have changed : emptyCount (slots.set index new) = emptyCount (slots.take index) +
      (emptyCount (slots.drop (index + 1)) + new.isEmpty.toNat) := by
    rw [after]
    unfold emptyCount
    rw [List.countP_append, List.countP_cons]
    cases new <;> rfl
  omega

theorem entries_length_le (slots : List (Slot Value)) :
    (entries slots).length + emptyCount slots ≤ slots.length := by
  induction slots with
  | nil => simp [entries, emptyCount]
  | cons slot rest induction =>
      cases slot <;>
        simp only [entries, emptyCount, List.filterMap_cons, List.countP_cons, Slot.value?,
          Slot.isEmpty, List.length_cons] at induction ⊢ <;>
        simp <;> omega

/-! ## Insertion and removal -/

/-- No empty slot precedes a value on its own probe path, and no value is
stored twice. -/
structure Probed (home : Value → Nat) (slots : List (Slot Value)) : Prop where
  reached : ∀ value rank, rank < slots.length →
    slots[probe slots.length (home value) rank]? = some (.entry value) →
    ∀ earlier < rank, slots[probe slots.length (home value) earlier]? ≠ some .empty
  distinct : (entries slots).Nodup

theorem probed_replicate (home : Value → Nat) (capacity : Nat) :
    Probed home (List.replicate capacity (.empty : Slot Value)) where
  reached value rank _ held := by
    rw [List.getElem?_replicate] at held
    split_ifs at held
    cases held
  distinct := by
    have none_stored : entries (List.replicate capacity (.empty : Slot Value)) = [] := by
      induction capacity with
      | zero => rfl
      | succ capacity induction => exact induction
    rw [none_stored]
    exact List.nodup_nil

inductive Found where
  | free (index : Nat)
  | present
  deriving DecidableEq, Repr

inductive Missing where
  | emptySlot
  | fullScan
  deriving DecidableEq, Repr

variable [DecidableEq Value]

/-- What an insertion makes of one slot: take it, stop at a duplicate, or go on. -/
def visitInsert (slots : List (Slot Value)) (value : Value) (index : Nat) : Option Found :=
  match slots[index]? with
  | some .empty => some (.free index)
  | some (.entry other) => if other = value then some .present else none
  | some .tombstone => none
  | none => none

def place (slots : List (Slot Value)) (home : Nat) (value : Value) :
    Option (List (Slot Value)) :=
  match circularScan (visitInsert slots value) slots.length home with
  | some (.free index) => some (slots.set index (.entry value))
  | some .present => none
  | none => none

/-- What a removal makes of one slot: found here, stop at an empty slot, or go on. -/
def visitRemove (slots : List (Slot Value)) (value : Value) (index : Nat) :
    Option (Option Nat) :=
  match slots[index]? with
  | some .empty => some none
  | some (.entry other) => if other = value then some (some index) else none
  | some .tombstone => none
  | none => none

def remove (slots : List (Slot Value)) (home : Nat) (value : Value) :
    Except Missing (List (Slot Value)) :=
  match circularScan (visitRemove slots value) slots.length home with
  | some (some index) => .ok (slots.set index .tombstone)
  | some none => .error .emptySlot
  | none => .error .fullScan

section Table

variable {home : Value → Nat} {slots : List (Slot Value)} {value : Value}

theorem visit_insert_free {index taken : Nat}
    (found : visitInsert slots value index = some (.free taken)) :
    taken = index ∧ slots[index]? = some .empty := by
  unfold visitInsert at found
  split at found
  · rename_i held
    cases found
    exact ⟨rfl, held⟩
  · split_ifs at found
    cases found
  · cases found
  · cases found

theorem visit_insert_none {index : Nat} (missed : visitInsert slots value index = none) :
    slots[index]? ≠ some .empty ∧ slots[index]? ≠ some (.entry value) := by
  constructor
  · intro held
    simp [visitInsert, held] at missed
  · intro held
    simp [visitInsert, held] at missed

/-- A stored value is found before any empty slot, so it is never stored twice. This is what
the invariant of a well probed table is for. -/
theorem place_present (probed : Probed home slots) (homed : home value < slots.length)
    (member : value ∈ entries slots) : place slots (home value) value = none := by
  obtain ⟨index, inside, held⟩ := mem_entries_index.mp member
  obtain ⟨rank, rankBound, rfl⟩ := probe_surjective homed inside
  unfold place
  cases answer : circularScan (visitInsert slots value) slots.length (home value) with
  | none => rfl
  | some found =>
      cases found with
      | present => rfl
      | free taken =>
          obtain ⟨first, firstBound, hit, before⟩ := circular_scan_first homed answer
          obtain ⟨rfl, vacant⟩ := visit_insert_free hit
          rcases Nat.lt_trichotomy first rank with earlier | same | later
          · exact absurd vacant (probed.reached value rank rankBound held first earlier)
          · rw [same, held] at vacant
            cases vacant
          · exact absurd held (visit_insert_none (before rank later)).2

theorem place_full {start : Nat} (homed : start < slots.length) (full : emptyCount slots = 0) :
    place slots start value = none := by
  unfold place
  cases answer : circularScan (visitInsert slots value) slots.length start with
  | none => rfl
  | some found =>
      cases found with
      | present => rfl
      | free taken =>
          obtain ⟨first, _, hit, _⟩ := circular_scan_first homed answer
          obtain ⟨rfl, vacant⟩ := visit_insert_free hit
          have some_empty := empty_count_pos.mpr ⟨_, probe_lt first homed, vacant⟩
          omega

/-- An absent value goes to the first empty slot of its path, if there is one. -/
theorem place_absent {start : Nat} (homed : start < slots.length)
    (absent : value ∉ entries slots) (vacancy : 0 < emptyCount slots) :
    ∃ rank < slots.length, slots[probe slots.length start rank]? = some .empty ∧
      (∀ earlier < rank, slots[probe slots.length start earlier]? ≠ some .empty) ∧
      place slots start value =
        some (slots.set (probe slots.length start rank) (.entry value)) := by
  have other : ∀ index : Nat, slots[index]? ≠ some (.entry value) := by
    intro index held
    exact absent (mem_entries_index.mpr
      ⟨index, (List.getElem?_eq_some_iff.mp held).1, held⟩)
  obtain ⟨index, inside, vacant⟩ := empty_count_pos.mp vacancy
  obtain ⟨rank, rankBound, rfl⟩ := probe_surjective homed inside
  have answered : circularScan (visitInsert slots value) slots.length start ≠ none := by
    intro nothing
    classical
    have first_answer : ∃ rank, rank < slots.length ∧
        slots[probe slots.length start rank]? = some .empty := ⟨rank, rankBound, vacant⟩
    have shape := Nat.find_spec first_answer
    have hit : visitInsert slots value (probe slots.length start (Nat.find first_answer)) =
        some (.free (probe slots.length start (Nat.find first_answer))) := by
      simp [visitInsert, shape.2]
    have before : ∀ earlier < Nat.find first_answer,
        visitInsert slots value (probe slots.length start earlier) = none := by
      intro earlier lower
      have occupied : slots[probe slots.length start earlier]? ≠ some .empty :=
        fun empty => Nat.find_min first_answer lower ⟨by omega, empty⟩
      have different := other (probe slots.length start earlier)
      unfold visitInsert
      split
      · rename_i held
        exact absurd held occupied
      · rename_i held
        rw [if_neg]
        rintro rfl
        exact different held
      · rfl
      · rfl
    rw [circular_scan_hit homed shape.1 before hit] at nothing
    cases nothing
  obtain ⟨found, answer⟩ := Option.ne_none_iff_exists'.mp answered
  obtain ⟨first, firstBound, hit, before⟩ := circular_scan_first homed answer
  cases found with
  | present =>
      unfold visitInsert at hit
      split at hit
      · cases hit
      · rename_i stored held
        split_ifs at hit with same
        subst same
        exact absurd held (other _)
      · cases hit
      · cases hit
  | free taken =>
      obtain ⟨rfl, empty⟩ := visit_insert_free hit
      refine ⟨first, firstBound, empty, ?_, ?_⟩
      · intro earlier lower
        exact (visit_insert_none (before earlier lower)).1
      · simp only [place, answer]

/-- Insertion succeeds exactly on an absent value with an empty slot left. -/
theorem place_is_some (probed : Probed home slots) (homed : home value < slots.length) :
    (place slots (home value) value).isSome ↔ value ∉ entries slots ∧ 0 < emptyCount slots := by
  constructor
  · intro placed
    constructor
    · intro member
      rw [place_present probed homed member] at placed
      cases placed
    · rcases Nat.eq_zero_or_pos (emptyCount slots) with full | vacancy
      · rw [place_full homed full] at placed
        cases placed
      · exact vacancy
  · rintro ⟨absent, vacancy⟩
    obtain ⟨rank, _, _, _, placed⟩ := place_absent homed absent vacancy
    rw [placed]
    rfl

structure Placed (home : Value → Nat) (slots : List (Slot Value)) (value : Value)
    (after : List (Slot Value)) : Prop where
  length : after.length = slots.length
  contents : (entries after : Multiset Value) = value ::ₘ (entries slots : Multiset Value)
  vacancy : emptyCount after + 1 = emptyCount slots
  probed : Probed home after

omit [DecidableEq Value] in
/-- An absent value may go to an empty slot that no empty slot precedes on its
path. -/
theorem placed_set {rank : Nat} (probed : Probed home slots) (homed : home value < slots.length)
    (absent : value ∉ entries slots) (rankBound : rank < slots.length)
    (vacant : slots[probe slots.length (home value) rank]? = some .empty)
    (before : ∀ earlier < rank, slots[probe slots.length (home value) earlier]? ≠ some .empty) :
    Placed home slots value (slots.set (probe slots.length (home value) rank) (.entry value)) := by
  have contents := entries_set vacant (.entry value)
  simp only [Slot.value?, Option.toList_none, Option.toList_some, Multiset.coe_nil,
    add_zero, Multiset.coe_singleton] at contents
  rw [add_comm, Multiset.singleton_add] at contents
  refine ⟨by simp, contents, empty_count_set vacant (.entry value), ?_, ?_⟩
  · intro stored place placeBound held earlier lower
    simp only [List.length_set] at placeBound held ⊢
    by_cases here : probe slots.length (home stored) earlier =
        probe slots.length (home value) rank
    · rw [here, List.getElem?_set_self (probe_lt rank homed)]
      simp
    · rw [List.getElem?_set_ne (fun same => here same.symm)]
      by_cases new : probe slots.length (home value) rank = probe slots.length (home stored) place
      · rw [← new, List.getElem?_set_self (probe_lt rank homed)] at held
        have same : value = stored := by simpa using held
        subst same
        have sameRank := probe_injective homed rankBound placeBound new
        exact before earlier (by omega)
      · rw [List.getElem?_set_ne new] at held
        exact probed.reached stored place placeBound held earlier lower
  · rw [← Multiset.coe_nodup, contents, Multiset.nodup_cons, Multiset.mem_coe,
      Multiset.coe_nodup]
    exact ⟨absent, probed.distinct⟩

/-- One insertion adds its value, uses up one empty slot and keeps the table
well probed. -/
theorem place_spec {after : List (Slot Value)} (probed : Probed home slots)
    (homed : home value < slots.length) (placed : place slots (home value) value = some after) :
    Placed home slots value after := by
  have possible := (place_is_some probed homed).mp (by rw [placed]; rfl)
  obtain ⟨rank, rankBound, vacant, before, result⟩ :=
    place_absent homed possible.1 possible.2
  rw [placed] at result
  cases result
  exact placed_set probed homed possible.1 rankBound vacant before

structure Removed (home : Value → Nat) (slots : List (Slot Value)) (value : Value)
    (after : List (Slot Value)) : Prop where
  length : after.length = slots.length
  contents : value ::ₘ (entries after : Multiset Value) = (entries slots : Multiset Value)
  vacancy : emptyCount after = emptyCount slots
  probed : Probed home after

omit [DecidableEq Value] in
/-- A tombstone in place of a value keeps the table well probed. -/
theorem removed_set {index : Nat} (probed : Probed home slots)
    (held : slots[index]? = some (.entry value)) :
    Removed home slots value (slots.set index .tombstone) := by
  have contents := entries_set held .tombstone
  simp only [Slot.value?, Option.toList_none, Option.toList_some, Multiset.coe_nil,
    add_zero, Multiset.coe_singleton] at contents
  rw [add_comm, Multiset.singleton_add] at contents
  refine ⟨by simp, contents, ?_, ?_, ?_⟩
  · simpa [Slot.isEmpty] using empty_count_set held .tombstone
  · intro stored place placeBound found earlier lower
    simp only [List.length_set] at placeBound found ⊢
    have inside := (List.getElem?_eq_some_iff.mp held).1
    have original : slots[probe slots.length (home stored) place]? = some (.entry stored) := by
      by_cases here : index = probe slots.length (home stored) place
      · rw [← here, List.getElem?_set_self inside] at found
        cases found
      · rwa [List.getElem?_set_ne here] at found
    have occupied := probed.reached stored place placeBound original earlier lower
    by_cases here : index = probe slots.length (home stored) earlier
    · rw [← here, List.getElem?_set_self inside]
      simp
    · rwa [List.getElem?_set_ne here]
  · have whole := probed.distinct
    rw [← Multiset.coe_nodup, ← contents, Multiset.nodup_cons] at whole
    exact Multiset.coe_nodup.mp whole.2

/-- Removing a stored value always finds it; its slot becomes a tombstone, so
no empty slot is gained. -/
theorem remove_present (probed : Probed home slots) (homed : ∀ other, home other < slots.length)
    (member : value ∈ entries slots) :
    ∃ after, remove slots (home value) value = .ok after ∧ Removed home slots value after := by
  obtain ⟨index, inside, held⟩ := mem_entries_index.mp member
  obtain ⟨rank, rankBound, rfl⟩ := probe_surjective (homed value) inside
  have hit : visitRemove slots value (probe slots.length (home value) rank) =
      some (some (probe slots.length (home value) rank)) := by
    simp [visitRemove, held]
  have removed := removed_set probed held
  have gone : value ∉ entries (slots.set (probe slots.length (home value) rank) .tombstone) := by
    have whole := probed.distinct
    rw [← Multiset.coe_nodup, ← removed.contents, Multiset.nodup_cons] at whole
    exact whole.1
  have before : ∀ earlier < rank,
      visitRemove slots value (probe slots.length (home value) earlier) = none := by
    intro earlier lower
    have occupied := probed.reached value rank rankBound held earlier lower
    unfold visitRemove
    split
    · rename_i vacant
      exact absurd vacant occupied
    · rename_i other same
      rw [if_neg]
      rintro rfl
      have apart : probe slots.length (home other) rank ≠
          probe slots.length (home other) earlier := by
        intro equal
        have := probe_injective (homed other) rankBound (by omega) equal
        omega
      refine gone (mem_entries_index.mpr
        ⟨probe slots.length (home other) earlier, ?_, ?_⟩)
      · simpa using probe_lt earlier (homed other)
      · rw [List.getElem?_set_ne apart]
        exact same
    · rfl
    · rfl
  refine ⟨_, ?_, removed⟩
  simp only [remove, circular_scan_hit (homed value) rankBound before hit]

end Table

end OpenAddressing
