import Mathlib.Data.List.Nodup

/-!
# Maps as sorted lists

A map keeps its entries in strictly increasing order of their keys, as an
ordered map of a standard library does. The order makes the entries of a map a
function of what the map looks up.
-/

set_option autoImplicit false
set_option linter.unusedSectionVars false

namespace SortedMap

variable {Key Value : Type*} [LE Key] [LT Key] [Std.IsLinearOrder Key] [Std.LawfulOrderLT Key]
  [DecidableLT Key] [DecidableEq Key]

/-! ## Sorted lists of entries -/

def assignEntry (key : Key) (value : Value) : List (Key × Value) → List (Key × Value)
  | [] => [(key, value)]
  | (other, held) :: rest =>
      if key < other then (key, value) :: (other, held) :: rest
      else if key = other then (key, value) :: rest
      else (other, held) :: assignEntry key value rest

def findEntry (key : Key) : List (Key × Value) → Option Value
  | [] => none
  | (other, held) :: rest => if key = other then some held else findEntry key rest

abbrev Sorted (entries : List (Key × Value)) : Prop :=
  entries.Pairwise fun first second => first.1 < second.1

theorem mem_assign_entry {key : Key} {value : Value} {entries : List (Key × Value)}
    {entry : Key × Value} (member : entry ∈ assignEntry key value entries) :
    entry = (key, value) ∨ entry ∈ entries := by
  induction entries with
  | nil => exact .inl (List.mem_singleton.mp member)
  | cons head rest induction =>
      obtain ⟨other, held⟩ := head
      unfold assignEntry at member
      split_ifs at member
      · exact List.mem_cons.mp member
      · exact (List.mem_cons.mp member).imp_right (List.mem_cons_of_mem _)
      · rcases List.mem_cons.mp member with first | later
        · exact .inr (first ▸ List.mem_cons_self)
        · exact (induction later).imp_right (List.mem_cons_of_mem _)

theorem assign_entry_sorted (key : Key) (value : Value) {entries : List (Key × Value)}
    (sorted : Sorted entries) : Sorted (assignEntry key value entries) := by
  induction entries with
  | nil => exact List.pairwise_singleton _ _
  | cons head rest induction =>
      obtain ⟨other, held⟩ := head
      obtain ⟨least, later⟩ := List.pairwise_cons.mp sorted
      unfold assignEntry
      split_ifs with below same
      · apply List.pairwise_cons.mpr
        refine ⟨?_, sorted⟩
        intro entry member
        rcases List.mem_cons.mp member with rfl | inside
        · exact below
        · exact Std.lt_trans below (least entry inside)
      · subst same
        exact List.pairwise_cons.mpr ⟨least, later⟩
      · apply List.pairwise_cons.mpr
        refine ⟨?_, induction later⟩
        intro entry member
        rcases mem_assign_entry member with rfl | inside
        · rcases Std.lt_trichotomy other key with above | equal | under
          · exact above
          · exact absurd equal.symm same
          · exact absurd under below
        · exact least entry inside

theorem find_assign_entry (key : Key) (value : Value) (entries : List (Key × Value)) :
    findEntry key (assignEntry key value entries) = some value := by
  induction entries with
  | nil => exact if_pos rfl
  | cons head rest induction =>
      obtain ⟨other, held⟩ := head
      unfold assignEntry
      split_ifs with below same
      · exact if_pos rfl
      · exact if_pos rfl
      · exact (if_neg same).trans induction

theorem find_assign_entry_other {key other : Key} (different : other ≠ key) (value : Value)
    (entries : List (Key × Value)) :
    findEntry other (assignEntry key value entries) = findEntry other entries := by
  induction entries with
  | nil => exact if_neg different
  | cons head rest induction =>
      obtain ⟨first, held⟩ := head
      unfold assignEntry
      split_ifs with below same
      · exact if_neg different
      · subst same
        exact (if_neg different).trans (if_neg different).symm
      · simp only [findEntry, induction]

theorem find_entry_iff {key : Key} {value : Value} {entries : List (Key × Value)}
    (sorted : Sorted entries) : findEntry key entries = some value ↔ (key, value) ∈ entries := by
  induction entries with
  | nil => simp [findEntry]
  | cons head rest induction =>
      obtain ⟨other, held⟩ := head
      obtain ⟨least, sorted⟩ := List.pairwise_cons.mp sorted
      unfold findEntry
      split_ifs with same
      · subst same
        constructor
        · rintro ⟨⟩
          exact List.mem_cons_self
        · intro member
          rcases List.mem_cons.mp member with first | later
          · cases first
            rfl
          · exact absurd (least _ later) Std.lt_irrefl
      · rw [induction sorted, List.mem_cons]
        constructor
        · exact .inr
        · intro member
          rcases member with first | later
          · cases first
            exact absurd rfl same
          · exact later

/-! ## Maps -/

end SortedMap

structure SortedMap (Key Value : Type*) [LT Key] where
  entries : List (Key × Value)
  sorted : entries.Pairwise fun first second => first.1 < second.1

namespace SortedMap

section Maps

variable {Key Value : Type*} [LT Key] [DecidableEq Key]

def empty : SortedMap Key Value where
  entries := []
  sorted := .nil

def find (key : Key) (map : SortedMap Key Value) : Option Value := findEntry key map.entries

def keys (map : SortedMap Key Value) : List Key := map.entries.map Prod.fst

variable [LE Key] [Std.IsLinearOrder Key] [Std.LawfulOrderLT Key] [DecidableLT Key]

def assign (key : Key) (value : Value) (map : SortedMap Key Value) : SortedMap Key Value where
  entries := assignEntry key value map.entries
  sorted := assign_entry_sorted key value map.sorted

/-- `map.emplace(key, value)`: whether the value was inserted. -/
def emplace (key : Key) (value : Value) (map : SortedMap Key Value) :
    Bool × SortedMap Key Value :=
  match map.find key with
  | some _ => (false, map)
  | none => (true, map.assign key value)

variable {key other : Key} {value : Value} {map : SortedMap Key Value}

@[simp] theorem find_empty : (empty : SortedMap Key Value).find key = none := rfl

@[simp] theorem find_assign_self : (map.assign key value).find key = some value :=
  find_assign_entry key value map.entries

theorem find_assign_other (different : other ≠ key) :
    (map.assign key value).find other = map.find other :=
  find_assign_entry_other different value map.entries

theorem mem_entries_iff : (key, value) ∈ map.entries ↔ map.find key = some value :=
  (find_entry_iff map.sorted).symm

theorem find_injective {other : SortedMap Key Value}
    (same : ∀ key, map.find key = other.find key) : map = other := by
  have nodup (map : SortedMap Key Value) : map.entries.Nodup := by
    apply map.sorted.imp
    rintro first second below rfl
    exact Std.lt_irrefl below
  have perm : map.entries.Perm other.entries := by
    apply (List.perm_ext_iff_of_nodup (nodup map) (nodup other)).mpr
    rintro ⟨key, value⟩
    rw [mem_entries_iff, mem_entries_iff, same key]
  have entries : map.entries = other.entries := by
    apply perm.eq_of_pairwise _ map.sorted other.sorted
    intro first second _ _ below above
    exact absurd (Std.lt_trans below above) Std.lt_irrefl
  obtain ⟨_, _⟩ := map
  obtain ⟨_, _⟩ := other
  cases entries
  rfl

theorem mem_keys_iff : key ∈ map.keys ↔ map.find key ≠ none := by
  constructor
  · intro member
    obtain ⟨entry, inside, same⟩ := List.mem_map.mp member
    subst same
    rw [mem_entries_iff.mp inside]
    exact Option.some_ne_none _
  · intro present
    obtain ⟨held, found⟩ := Option.ne_none_iff_exists'.mp present
    exact List.mem_map.mpr ⟨(key, held), mem_entries_iff.mpr found, rfl⟩

theorem keys_nodup (map : SortedMap Key Value) : map.keys.Nodup := by
  have increasing := List.pairwise_map.mpr map.sorted
  apply increasing.imp
  intro first second below same
  rw [same] at below
  exact Std.lt_irrefl below

theorem emplace_find_self :
    (map.emplace key value).2.find key = some ((map.find key).getD value) := by
  unfold emplace
  cases found : map.find key with
  | none => exact find_assign_self
  | some held => exact found

theorem emplace_find_other (different : other ≠ key) :
    (map.emplace key value).2.find other = map.find other := by
  unfold emplace
  cases map.find key with
  | none => exact find_assign_other different
  | some held => rfl

end Maps

end SortedMap
