import Scs.Xdr.Storage
import Mathlib.Tactic.Ring

/-!
# Normalizing and clearing a hash set (`hash_set/utils.h`)

`normalizeHashset` sorts in decreasing order; `clearHashset` finds the last
entry above the threshold by binary search on 32-bit positions and truncates
the list there.
-/

namespace Scs

set_option autoImplicit false

open HashSetEntry

def normalizeHashset (hs : HashSet) : HashSet :=
  { hs with hashes := hs.hashes.insertionSort notBelow }

/-- One turn of the `while (true)` loop for each unit of fuel. -/
def clearSearch (hashes : List HashSetEntry) (threshold : UInt64) :
    Nat → UInt32 → UInt32 → Except Fault UInt32
  | 0, _, _ => .error .spin
  | fuel + 1, min, max =>
      let med := (max + min) / 2
      if max = min then .ok med
      else match hashes[med.toNat]? with
        | none => .error .outOfRange
        | some entry =>
            if entry.index > threshold then clearSearch hashes threshold fuel (med + 1) max
            else clearSearch hashes threshold fuel min med

/-- There are `2 ^ 64` pairs of positions, so a loop that outlasts this fuel has
come back to a pair and never ends. -/
def clearSearchFuel : Nat := 2 ^ 64 + 1

def resizeHashes (hashes : List HashSetEntry) (size : Nat) : List HashSetEntry :=
  hashes.take size ++ List.replicate (size - hashes.length) { hash := 0, index := 0 }

def clearHashset (hs : HashSet) (threshold : UInt64) : Except Fault HashSet := do
  let med ← clearSearch hs.hashes threshold clearSearchFuel 0 (UInt32.ofNat hs.hashes.length)
  pure { hs with hashes := resizeHashes hs.hashes med.toNat }

/-! ## Normalized lists -/

def Normalized (hashes : List HashSetEntry) : Prop := hashes.Pairwise notBelow

theorem normalize_normalized (hs : HashSet) : Normalized (normalizeHashset hs).hashes := by
  exact List.pairwise_insertionSort notBelow hs.hashes

theorem normalize_perm (hs : HashSet) : (normalizeHashset hs).hashes.Perm hs.hashes := by
  exact List.perm_insertionSort notBelow hs.hashes

theorem normalized_unique {left right : List HashSetEntry} (leftSorted : Normalized left)
    (rightSorted : Normalized right) (same : left.Perm right) : left = right := by
  apply same.eq_of_pairwise _ leftSorted rightSorted
  intro first second _ _ before after
  exact not_below_antisymm before after

/-! ## The binary search -/

/-- Entries at `boundary` and above are at most the threshold, those below exceed it. -/
def SplitsAt (hashes : List HashSetEntry) (threshold : UInt64) (boundary : Nat) : Prop :=
  boundary ≤ hashes.length ∧
    (∀ position entry, hashes[position]? = some entry → position < boundary →
      entry.index > threshold) ∧
    ∀ position entry, hashes[position]? = some entry → boundary ≤ position →
      ¬ entry.index > threshold

theorem splits_filter {hashes : List HashSetEntry} {threshold : UInt64} {boundary : Nat}
    (split : SplitsAt hashes threshold boundary) :
    hashes.take boundary = hashes.filter fun entry => entry.index > threshold := by
  obtain ⟨_, above, below⟩ := split
  have kept : (hashes.take boundary).filter (fun entry => entry.index > threshold) =
      hashes.take boundary := by
    apply List.filter_eq_self.mpr
    intro entry member
    obtain ⟨position, held⟩ := List.mem_iff_getElem?.mp member
    rw [List.getElem?_take] at held
    split_ifs at held with inside
    exact decide_eq_true (above position entry held inside)
  have dropped : (hashes.drop boundary).filter (fun entry => entry.index > threshold) = [] := by
    apply List.filter_eq_nil_iff.mpr
    intro entry member
    obtain ⟨position, held⟩ := List.mem_iff_getElem?.mp member
    rw [List.getElem?_drop] at held
    simpa only [decide_eq_true_eq] using below _ entry held (Nat.le_add_right _ _)
  conv_rhs => rw [← List.take_append_drop boundary hashes]
  rw [List.filter_append, kept, dropped, List.append_nil]

theorem normalized_index_antitone {hashes : List HashSetEntry} (sorted : Normalized hashes)
    {left right : Nat} {first second : HashSetEntry} (firstAt : hashes[left]? = some first)
    (secondAt : hashes[right]? = some second) (ordered : left ≤ right) :
    second.index.toNat ≤ first.index.toNat := by
  rcases Nat.eq_or_lt_of_le ordered with same | less
  · rw [same, secondAt] at firstAt
    cases firstAt
    exact Nat.le_refl _
  · obtain ⟨leftBound, leftSame⟩ := List.getElem?_eq_some_iff.mp firstAt
    obtain ⟨rightBound, rightSame⟩ := List.getElem?_eq_some_iff.mp secondAt
    have below := List.pairwise_iff_getElem.mp sorted left right leftBound rightBound less
    rw [leftSame, rightSame] at below
    exact index_le_of_not_below below

/-- Lists this short never overflow the 32-bit midpoint. -/
def searchBound : Nat := 2 ^ 31

/-- The search keeps the boundary between `min` and `max`; the interval shrinks
at every turn. -/
theorem clear_search_splits {hashes : List HashSetEntry} (threshold : UInt64)
    (sorted : Normalized hashes) (short : hashes.length < searchBound) (fuel : Nat)
    (min max : UInt32) (ordered : min.toNat ≤ max.toNat) (inside : max.toNat ≤ hashes.length)
    (enough : max.toNat - min.toNat < fuel)
    (above : ∀ position entry, hashes[position]? = some entry → position < min.toNat →
      entry.index > threshold)
    (below : ∀ position entry, hashes[position]? = some entry → max.toNat ≤ position →
      ¬ entry.index > threshold) :
    ∃ boundary, clearSearch hashes threshold fuel min max = .ok boundary ∧
      SplitsAt hashes threshold boundary.toNat := by
  induction fuel generalizing min max with
  | zero => omega
  | succ fuel induction =>
      unfold searchBound at short
      have median : ((max + min) / 2).toNat = (max.toNat + min.toNat) / 2 := by
        rw [UInt32.toNat_div, UInt32.toNat_add]
        have two : (2 : UInt32).toNat = 2 := rfl
        rw [two]
        omega
      by_cases met : max = min
      · subst met
        have same : ((max + max) / 2).toNat = max.toNat := by omega
        refine ⟨(max + max) / 2, by simp only [clearSearch, if_pos], ?_⟩
        rw [same]
        exact ⟨inside, above, below⟩
      · have apart : max.toNat ≠ min.toNat := fun equal => met (UInt32.toNat_inj.mp equal)
        have medianInside : ((max + min) / 2).toNat < hashes.length := by omega
        have held := List.getElem?_eq_getElem medianInside
        simp only [clearSearch, if_neg met, held]
        split_ifs with large
        · have next : ((max + min) / 2 + 1).toNat = ((max + min) / 2).toNat + 1 := by
            rw [UInt32.toNat_add]
            have one : (1 : UInt32).toNat = 1 := rfl
            rw [one]
            omega
          apply induction ((max + min) / 2 + 1) max (by omega) inside (by omega) _ below
          intro position entry found lower
          have order := normalized_index_antitone sorted found held (by omega)
          have limit := UInt64.lt_iff_toNat_lt.mp large
          exact UInt64.lt_iff_toNat_lt.mpr (by omega)
        · apply induction min ((max + min) / 2) (by omega) (by omega) (by omega) above
          intro position entry found lower exceeds
          have order := normalized_index_antitone sorted held found lower
          have limit := UInt64.lt_iff_toNat_lt.mp exceeds
          exact large (UInt64.lt_iff_toNat_lt.mpr (by omega))

theorem clear_hashset_filter {hs : HashSet} (threshold : UInt64)
    (sorted : Normalized hs.hashes) (short : hs.hashes.length < searchBound) :
    clearHashset hs threshold =
      .ok { hs with hashes := hs.hashes.filter fun entry => entry.index > threshold } := by
  have size : (UInt32.ofNat hs.hashes.length).toNat = hs.hashes.length := by
    apply UInt32.toNat_ofNat_of_lt'
    unfold searchBound at short
    exact Nat.lt_of_lt_of_le short (by decide)
  have zero : (0 : UInt32).toNat = 0 := rfl
  have fits : hs.hashes.length < clearSearchFuel := by
    unfold searchBound at short
    unfold clearSearchFuel
    omega
  obtain ⟨boundary, found, split⟩ := clear_search_splits threshold sorted short
    clearSearchFuel 0 (UInt32.ofNat hs.hashes.length) (by omega) (by omega) (by omega)
    (by
      intro position entry _ lower
      omega)
    (by
      intro position entry held upper
      have bound := (List.getElem?_eq_some_iff.mp held).1
      omega)
  have truncated : resizeHashes hs.hashes boundary.toNat =
      hs.hashes.filter fun entry => entry.index > threshold := by
    unfold resizeHashes
    rw [Nat.sub_eq_zero_of_le split.1, List.replicate_zero, List.append_nil]
    exact splits_filter split
  unfold clearHashset
  rw [found]
  change Except.ok _ = _
  rw [truncated]

theorem filter_normalized {hashes : List HashSetEntry} (sorted : Normalized hashes)
    (keep : HashSetEntry → Bool) : Normalized (hashes.filter keep) := by
  exact sorted.sublist List.filter_sublist

/-- Normalizing and then clearing returns: the loop ends and no position outside
the list is read. What is left are the entries above the threshold, each as often
as before, in decreasing order. -/
theorem clear_normalized_filters (hs : HashSet) (threshold : UInt64)
    (bounded : hs.hashes.length ≤ maxHashSetSize) :
    ∃ cleared, clearHashset (normalizeHashset hs) threshold = .ok cleared ∧
      cleared.maxSize = hs.maxSize ∧ Normalized cleared.hashes ∧
      cleared.hashes =
        (normalizeHashset hs).hashes.filter (fun entry => entry.index > threshold) ∧
      cleared.hashes.Perm (hs.hashes.filter fun entry => entry.index > threshold) := by
  have sorted := normalize_normalized hs
  have entries := normalize_perm hs
  have short : (normalizeHashset hs).hashes.length < searchBound := by
    rw [entries.length_eq]
    exact bounded.trans_lt (by decide)
  refine ⟨_, clear_hashset_filter threshold sorted short, rfl, ?_, rfl, ?_⟩
  · exact filter_normalized sorted _
  · exact entries.filter _

/-- Two entries at the threshold go, two of one index above it stay. -/
def repeatedIndices : HashSet where
  hashes := [{ hash := 1, index := 5 }, { hash := 2, index := 7 }, { hash := 3, index := 5 },
    { hash := 4, index := 7 }]
  maxSize := startHashSetSize

theorem clear_normalized_filters_repeated :
    ∃ cleared, clearHashset (normalizeHashset repeatedIndices) 5 = .ok cleared ∧
      cleared.maxSize = startHashSetSize ∧ Normalized cleared.hashes ∧
      cleared.hashes =
        (normalizeHashset repeatedIndices).hashes.filter (fun entry => entry.index > 5) ∧
      cleared.hashes.Perm [{ hash := 2, index := 7 }, { hash := 4, index := 7 }] :=
  clear_normalized_filters repeatedIndices 5 (by decide)

end Scs
