import Scs.Library.Lockstep
import Mathlib.Logic.Function.Basic

/-!
# Visiting the entries of a map

A pass over a list of keys finishes the entry of each key, which keeps, changes
or drops it. A key without an entry fails the pass, so a pass over distinct keys
whose entries can all be finished returns exactly when every key has one.
-/

namespace Visits

set_option autoImplicit false

open Lockstep

section Pass

variable {Key Entry Fault : Type} [DecidableEq Key]
  (finish : Entry → Except Fault (Option Entry)) (missing : Fault)

def visit (key : Key) (entries : Key → Option Entry) : Except Fault (Key → Option Entry) :=
  match entries key with
  | none => .error missing
  | some entry => do
      let left ← finish entry
      .ok (Function.update entries key left)

def visitAll (keys : List Key) (entries : Key → Option Entry) :
    Except Fault (Key → Option Entry) :=
  keys.foldlM (fun entries key => visit finish missing key entries) entries

variable {finish missing} {key : Key} {keys : List Key} {entries after : Key → Option Entry}

theorem visit_ok_iff :
    visit finish missing key entries = .ok after ↔
      ∃ entry left, entries key = some entry ∧ finish entry = .ok left ∧
        after = Function.update entries key left := by
  unfold visit
  constructor
  · intro visited
    cases held : entries key with
    | none =>
        rw [held] at visited
        cases visited
    | some entry =>
        rw [held] at visited
        obtain ⟨left, finished, same⟩ := bind_ok_iff.mp visited
        cases same
        exact ⟨entry, left, rfl, finished, rfl⟩
  · rintro ⟨entry, left, held, finished, rfl⟩
    rw [held]
    exact bind_ok_iff.mpr ⟨left, finished, rfl⟩

theorem visit_all_cons_iff {first : Key} :
    visitAll finish missing (first :: keys) entries = .ok after ↔
      ∃ middle, visit finish missing first entries = .ok middle ∧
        visitAll finish missing keys middle = .ok after := by
  unfold visitAll
  rw [List.foldlM_cons]
  exact bind_ok_iff

theorem visit_all_visits (distinct : keys.Nodup)
    (visited : visitAll finish missing keys entries = .ok after) :
    (∀ key ∈ keys, ∃ entry, entries key = some entry ∧ finish entry = .ok (after key)) ∧
      ∀ key, key ∉ keys → after key = entries key := by
  induction keys generalizing entries with
  | nil =>
      cases visited
      exact ⟨fun key member => absurd member List.not_mem_nil, fun key _ => rfl⟩
  | cons first rest induction =>
      obtain ⟨absent, later⟩ := List.nodup_cons.mp distinct
      obtain ⟨middle, now, then'⟩ := visit_all_cons_iff.mp visited
      obtain ⟨entry, left, held, finished, rfl⟩ := visit_ok_iff.mp now
      obtain ⟨inside, outside⟩ := induction later then'
      constructor
      · intro key member
        rcases List.mem_cons.mp member with rfl | tail
        · refine ⟨entry, held, ?_⟩
          rw [outside key absent, Function.update_self]
          exact finished
        · obtain ⟨other, same, done⟩ := inside key tail
          have apart : key ≠ first := fun same => absent (same ▸ tail)
          rw [Function.update_of_ne apart] at same
          exact ⟨other, same, done⟩
      · intro key stranger
        rw [List.mem_cons, not_or] at stranger
        rw [outside key stranger.2, Function.update_of_ne stranger.1]

theorem visit_all_returns_iff (distinct : keys.Nodup)
    (finishes : ∀ key ∈ keys, ∀ entry, entries key = some entry →
      ∃ left, finish entry = .ok left) :
    (∃ after, visitAll finish missing keys entries = .ok after) ↔
      ∀ key ∈ keys, entries key ≠ none := by
  constructor
  · rintro ⟨after, visited⟩ key member
    obtain ⟨entry, held, _⟩ := (visit_all_visits distinct visited).1 key member
    rw [held]
    exact Option.some_ne_none entry
  · intro present
    induction keys generalizing entries with
    | nil => exact ⟨entries, rfl⟩
    | cons first rest induction =>
        obtain ⟨absent, later⟩ := List.nodup_cons.mp distinct
        obtain ⟨entry, held⟩ := Option.ne_none_iff_exists'.mp (present first List.mem_cons_self)
        obtain ⟨left, finished⟩ := finishes first List.mem_cons_self entry held
        have unchanged : ∀ key ∈ rest, Function.update entries first left key = entries key := by
          intro key member
          have apart : key ≠ first := fun same => absent (same ▸ member)
          exact Function.update_of_ne apart _ _
        have tail : ∃ after,
            visitAll finish missing rest (Function.update entries first left) = .ok after := by
          apply induction later
          · intro key member entry held
            rw [unchanged key member] at held
            exact finishes key (List.mem_cons_of_mem _ member) entry held
          · intro key member
            rw [unchanged key member]
            exact present key (List.mem_cons_of_mem _ member)
        obtain ⟨after, visited⟩ := tail
        exact ⟨after, visit_all_cons_iff.mpr
          ⟨_, visit_ok_iff.mpr ⟨entry, left, held, finished, rfl⟩, visited⟩⟩

end Pass

end Visits
