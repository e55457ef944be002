import Scs.Object.Alone
import Scs.StorageProxy.TransactionRewind

/-!
# Transactions one after another

Each transaction pushes all its deltas and commits them before the next one
starts. Every transaction that has room behind the ones before it, on each of
its keys and in the allocator of its thread, is accepted in full.
-/

namespace Scs

set_option autoImplicit false

open Ledger

def deltasOn (key : AddressAndKey) (items : Multiset (AddressAndKey × StorageDelta)) :
    Multiset StorageDelta :=
  items.filterMap fun item => if item.1 = key then some item.2 else none

section DeltasOn

variable (key : AddressAndKey)

@[simp] theorem deltas_on_zero : deltasOn key 0 = 0 := rfl

@[simp] theorem deltas_on_self (delta : StorageDelta)
    (items : Multiset (AddressAndKey × StorageDelta)) :
    deltasOn key ((key, delta) ::ₘ items) = delta ::ₘ deltasOn key items :=
  Multiset.filterMap_cons_some _ _ _ (if_pos rfl)

theorem deltas_on_other {other : AddressAndKey} (different : key ≠ other) (delta : StorageDelta)
    (items : Multiset (AddressAndKey × StorageDelta)) :
    deltasOn key ((other, delta) ::ₘ items) = deltasOn key items :=
  Multiset.filterMap_cons_none _ _ (if_neg (Ne.symm different))

theorem deltas_on_add (first second : Multiset (AddressAndKey × StorageDelta)) :
    deltasOn key (first + second) = deltasOn key first + deltasOn key second := by
  induction first using Multiset.induction with
  | empty => rw [zero_add, deltas_on_zero, zero_add]
  | cons item first induction =>
      obtain ⟨other, delta⟩ := item
      rw [Multiset.cons_add]
      by_cases same : key = other
      · subst same
        rw [deltas_on_self, deltas_on_self, induction, Multiset.cons_add]
      · rw [deltas_on_other key same, deltas_on_other key same, induction]

theorem deltas_on_mono {few many : Multiset (AddressAndKey × StorageDelta)}
    (fewer : few ≤ many) : deltasOn key few ≤ deltasOn key many :=
  Multiset.filterMap_le_filterMap _ fewer

theorem rewinds_on_deltas (rewinds : Rewinds) :
    (Rewinds.on key rewinds : Multiset DeltaRewind).map DeltaRewind.delta =
      deltasOn key ↑(rewinds.map fun entry => (entry.1, entry.2.delta)) := by
  induction rewinds with
  | nil => rfl
  | cons entry rest induction =>
      obtain ⟨other, rewind⟩ := entry
      rw [List.map_cons, ← Multiset.cons_coe]
      by_cases same : key = other
      · subst same
        rw [Rewinds.on_self, deltas_on_self, ← Multiset.cons_coe, Multiset.map_cons, induction]
      · rw [Rewinds.on_other key same, deltas_on_other key same, induction]

end DeltasOn

theorem mem_deltas_on {key : AddressAndKey} {delta : StorageDelta}
    (items : Multiset (AddressAndKey × StorageDelta)) :
    delta ∈ deltasOn key items ↔ (key, delta) ∈ items := by
  unfold deltasOn
  rw [Multiset.mem_filterMap]
  constructor
  · rintro ⟨⟨other, pushed⟩, member, made⟩
    split_ifs at made with same
    cases made
    exact same ▸ member
  · intro member
    exact ⟨_, member, if_pos rfl⟩

/-- The entries that the items take from the allocator of their thread. -/
def entriesFor (items : List (AddressAndKey × StorageDelta)) : ℕ :=
  (items.map fun item => slotsTaken item.2).sum

@[simp] theorem entries_for_nil : entriesFor [] = 0 := rfl

@[simp] theorem entries_for_cons (key : AddressAndKey) (delta : StorageDelta)
    (rest : List (AddressAndKey × StorageDelta)) :
    entriesFor ((key, delta) :: rest) = slotsTaken delta + entriesFor rest := by
  rw [entriesFor, List.map_cons, List.sum_cons]
  rfl

variable (cryptoShorthash : CryptoShorthash)

/-- The transactions of the list, one after another, each on a thread that has
allocated so many entries when it starts. The answer says whether every delta of
every transaction was accepted. -/
def replay : List (ℕ × List (CallIds × AddressAndKey × StorageDelta)) → Objects →
    Except Fault (Bool × Objects)
  | [], objects => .ok (true, objects)
  | (allocated, calls) :: rest, objects => do
      let (accepted, rewinds, _, objects) ← pushAll cryptoShorthash allocated calls objects
      if accepted then do
        let objects ← commitAll rewinds objects
        replay rest objects
      else .ok (false, objects)

/-! ## A whole transaction -/

def AllMidway (bases : AddressAndKey → Option StorageObject)
    (committed : AddressAndKey → Multiset StorageDelta) (held : Rewinds) (objects : Objects) :
    Prop :=
  ∀ key, Midway cryptoShorthash (bases key) (committed key) ↑(Rewinds.on key held) (objects key)

section Whole

variable {cryptoShorthash} {bases : AddressAndKey → Option StorageObject}
  {committed : AddressAndKey → Multiset StorageDelta} {held : Rewinds} {objects : Objects}

theorem midway_update {others : AddressAndKey → Multiset StorageDelta} {more : Rewinds}
    (midway : AllMidway cryptoShorthash bases committed held objects) (key : AddressAndKey)
    {after : RevertableObject}
    (here : Midway cryptoShorthash (bases key) (others key) ↑(Rewinds.on key more) after)
    (elsewhere : ∀ other, other ≠ key →
      others other = committed other ∧ Rewinds.on other more = Rewinds.on other held) :
    AllMidway cryptoShorthash bases others more (Function.update objects key after) := by
  intro other
  by_cases same : other = key
  · subst same
    rw [Function.update_self]
    exact here
  · obtain ⟨deltas, rewinds⟩ := elsewhere other same
    rw [Function.update_of_ne same, deltas, rewinds]
    exact midway other

theorem push_all_accepts {allocated : ℕ} (calls : List (CallIds × AddressAndKey × StorageDelta))
    (midway : AllMidway cryptoShorthash bases committed held objects)
    (room : ∀ key, Room (bases key) (committed key) (deltasOn key ↑(calls.map Prod.snd))
      ↑(Rewinds.on key held))
    (entries : entriesFor (calls.map Prod.snd) ≤ allocSize - allocated) :
    ∃ granted count after,
      pushAll cryptoShorthash allocated calls objects = .ok (true, granted, count, after) ∧
      granted.map (fun entry => (entry.1, entry.2.delta)) = calls.map Prod.snd ∧
      AllMidway cryptoShorthash bases committed (granted ++ held) after := by
  induction calls generalizing held objects allocated with
  | nil => exact ⟨[], allocated, objects, rfl, rfl, midway⟩
  | cons call rest induction =>
      obtain ⟨ids, key, delta⟩ := call
      have here := room key
      rw [List.map_cons, ← Multiset.cons_coe, deltas_on_self] at here
      rw [List.map_cons, entries_for_cons] at entries
      have served : (ids.holding allocated).Serves delta := holding_serves_iff.mpr (by omega)
      obtain ⟨rewind, next, returned, own, kept, left⟩ := room_push (midway key) here served
      have count := (accepted_takes returned).2
      have later : entriesFor (rest.map Prod.snd) ≤ allocSize - (allocated + slotsTaken delta) := by
        omega
      rw [← count] at later
      have stepped : AllMidway cryptoShorthash bases committed ((key, rewind) :: held)
          (Function.update objects key next) := by
        apply midway_update midway key
        · rw [Rewinds.on_self, ← Multiset.cons_coe]
          exact kept
        · intro other different
          exact ⟨rfl, Rewinds.on_other other different rewind held⟩
      have still : ∀ other, Room (bases other) (committed other)
          (deltasOn other ↑(rest.map Prod.snd)) ↑(Rewinds.on other ((key, rewind) :: held)) := by
        intro other
        by_cases same : other = key
        · subst same
          rw [Rewinds.on_self, ← Multiset.cons_coe]
          exact left
        · have there := room other
          rw [List.map_cons, ← Multiset.cons_coe, deltas_on_other other same] at there
          rw [Rewinds.on_other other same]
          exact there
      obtain ⟨granted, last, after, pushed, listed, done⟩ := induction stepped still later
      refine ⟨(key, rewind) :: granted, last, after, ?_, ?_, ?_⟩
      · simp only [pushAll, returned, pushed, bind, Except.bind]
      · rw [List.map_cons, List.map_cons, listed, own]
      · intro other
        rw [List.cons_append, ← Rewinds.on_perm other List.perm_middle]
        exact done other

theorem commit_all_returns (granted : Rewinds)
    (midway : AllMidway cryptoShorthash bases committed granted objects) :
    ∃ after, commitAll granted objects = .ok after ∧
      AllMidway cryptoShorthash bases
        (fun key => deltasOn key ↑(granted.map fun entry => (entry.1, entry.2.delta)) +
          committed key) [] after := by
  induction granted generalizing committed objects with
  | nil =>
      refine ⟨objects, rfl, ?_⟩
      intro key
      simp only [List.map_nil, Multiset.coe_nil, deltas_on_zero, zero_add]
      exact midway key
  | cons entry rest induction =>
      obtain ⟨key, rewind⟩ := entry
      have here := midway key
      rw [Rewinds.on_self, ← Multiset.cons_coe] at here
      obtain ⟨next, returned, kept⟩ := midway_commit here
      have stepped : AllMidway cryptoShorthash bases
          (Function.update committed key (rewind.delta ::ₘ committed key)) rest
          (Function.update objects key next) := by
        apply midway_update midway key
        · rw [Function.update_self]
          exact kept
        · intro other different
          exact ⟨Function.update_of_ne different _ _,
            (Rewinds.on_other other different rewind rest).symm⟩
      obtain ⟨after, later, done⟩ := induction stepped
      refine ⟨after, ?_, ?_⟩
      · simp only [commitAll, returned, later, bind, Except.bind]
      · intro other
        have there := done other
        simp only [List.map_cons, ← Multiset.cons_coe]
        by_cases same : other = key
        · subst same
          simp only [Function.update_self, Multiset.add_cons] at there
          rw [deltas_on_self, Multiset.cons_add]
          exact there
        · simp only [Function.update_of_ne same] at there
          rw [deltas_on_other other same]
          exact there

theorem replay_one {allocated : ℕ} {calls : List (CallIds × AddressAndKey × StorageDelta)}
    (midway : AllMidway cryptoShorthash bases committed [] objects)
    (room : ∀ key, Room (bases key) (committed key) (deltasOn key ↑(calls.map Prod.snd)) 0)
    (entries : entriesFor (calls.map Prod.snd) ≤ allocSize - allocated) :
    ∃ after, replay cryptoShorthash [(allocated, calls)] objects = .ok (true, after) ∧
      AllMidway cryptoShorthash bases
        (fun key => deltasOn key ↑(calls.map Prod.snd) + committed key) [] after := by
  obtain ⟨granted, count, middle, pushed, listed, done⟩ :=
    push_all_accepts calls midway room entries
  rw [List.append_nil] at done
  obtain ⟨after, committed_all, finished⟩ := commit_all_returns granted done
  rw [listed] at finished
  refine ⟨after, ?_, finished⟩
  simp only [replay, pushed, committed_all, bind, Except.bind, if_true]

theorem replay_snoc {earlier : List (ℕ × List (CallIds × AddressAndKey × StorageDelta))}
    {item : ℕ × List (CallIds × AddressAndKey × StorageDelta)} {middle : Objects}
    (first : replay cryptoShorthash earlier objects = .ok (true, middle)) :
    replay cryptoShorthash (earlier ++ [item]) objects =
      replay cryptoShorthash [item] middle := by
  induction earlier generalizing objects with
  | nil =>
      cases first
      rfl
  | cons head rest induction =>
      obtain ⟨allocated, calls⟩ := head
      simp only [replay, List.cons_append, bind, Except.bind] at first ⊢
      cases pushed : pushAll cryptoShorthash allocated calls objects with
      | error fault =>
          rw [pushed] at first
          cases first
      | ok result =>
          obtain ⟨accepted, rewinds, count, after⟩ := result
          rw [pushed] at first
          cases accepted with
          | false => cases first
          | true =>
              simp only [if_true] at first ⊢
              cases committed : commitAll rewinds after with
              | error fault =>
                  rw [committed] at first
                  cases first
              | ok last =>
                  rw [committed] at first
                  exact induction first

end Whole

end Scs
