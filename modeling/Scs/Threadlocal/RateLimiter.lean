import Mathlib.Algebra.BigOperators.Group.Finset.Piecewise
import Mathlib.Algebra.Order.BigOperators.Group.Finset
import Scs.Library.Runs

/-!
# Rate limiter (`threadlocal/rate_limiter.cc`)

Workers and the thread that proposes a block, which starts and stops them. A
step is one access to a shared word, one change of the thread-local flag, or one
locking or unlocking. `notify` only reads: no thread ever waits on the condition
variable, as the wait stands behind an abort.
-/

namespace Scs

set_option autoImplicit false

open Runs

structure RateLimiter where
  activeThreads : UInt32
  maxActiveThreads : UInt32
  shutdown : Bool
  deriving DecidableEq, Repr

namespace RateLimiter

def initial : RateLimiter where
  activeThreads := 0
  maxActiveThreads := 0
  shutdown := false

/-- The write of `start_threads`, whose argument is narrowed to 32 bits. -/
def startThreads (maxActive : UInt64) (limiter : RateLimiter) : RateLimiter :=
  { limiter with maxActiveThreads := maxActive.toUInt32 }

def setShutdown (shutdown : Bool) (limiter : RateLimiter) : RateLimiter :=
  { limiter with shutdown := shutdown }

def clearMax (limiter : RateLimiter) : RateLimiter := { limiter with maxActiveThreads := 0 }

def addActive (limiter : RateLimiter) : RateLimiter :=
  { limiter with activeThreads := limiter.activeThreads + 1 }

def subActive (limiter : RateLimiter) : RateLimiter :=
  { limiter with activeThreads := limiter.activeThreads - 1 }

end RateLimiter

/-! ## The threads -/

/-- Where a worker stands in its cycle. `claim_one_slot` and `free_one_slot` are
also called inside `wait_for_opening`. -/
inductive WorkerPlace where
  | idle
  | claiming (inside : Bool)
  | claimed (inside : Bool)
  | ready
  | loadsActive
  | loadsMax (active : UInt32)
  | freeing (inside : Bool)
  | freed (inside : Bool)
  | locks
  | tests
  | testsActive
  | testsMax (active : UInt32)
  | decides
  | returns (isShutdown : Bool)
  | thrown
  | aborted
  deriving DecidableEq, Repr

structure Worker where
  place : WorkerPlace
  hasSlot : Bool
  deriving DecidableEq, Repr

def Worker.changesSlot (worker : Worker) : Bool :=
  match worker.place with
  | .claiming _ => true
  | .claimed _ => true
  | .freeing _ => true
  | .freed _ => true
  | _ => false

inductive ControllerPlace where
  | resting
  | prepLocked
  | prepWritten
  | prepared
  | startLocked
  | startWritten
  | startChecked
  | launching
  | stopLocked
  | stopFlagged
  | stopWritten
  | draining
  | thrown
  deriving DecidableEq, Repr

inductive LockHolder (W : Type) where
  | controller
  | worker (w : W)

structure LimiterShared (W : Type) where
  limiter : RateLimiter
  lock : Option (LockHolder W)

/-- A call of `wait_for_opening` begins, or returns. -/
inductive LimiterEvent (W : Type) where
  | waits (w : W)
  | returned (w : W) (isShutdown : Bool)
  | silent

section Steps

variable {W : Type}

inductive WorkerStep (w : W) :
    LimiterShared W → Worker → LimiterEvent W → LimiterShared W → Worker → Prop
  | claims {shared : LimiterShared W} {inside : Bool} :
      WorkerStep w shared ⟨.claiming inside, false⟩ .silent shared ⟨.claimed inside, true⟩
  | claimsTwice {shared : LimiterShared W} {inside : Bool} :
      WorkerStep w shared ⟨.claiming inside, true⟩ .silent shared ⟨.thrown, true⟩
  | claimed {shared : LimiterShared W} {inside hasSlot : Bool} :
      WorkerStep w shared ⟨.claimed inside, hasSlot⟩ .silent
        { shared with limiter := shared.limiter.addActive }
        ⟨if inside then .returns false else .ready, hasSlot⟩
  | waits {shared : LimiterShared W} {hasSlot : Bool} :
      WorkerStep w shared ⟨.ready, hasSlot⟩ (.waits w) shared
        ⟨if hasSlot then .loadsActive else .locks, hasSlot⟩
  | givesUp {shared : LimiterShared W} {hasSlot : Bool} :
      WorkerStep w shared ⟨.ready, hasSlot⟩ .silent shared ⟨.freeing false, hasSlot⟩
  | loadsActive {shared : LimiterShared W} {hasSlot : Bool} :
      WorkerStep w shared ⟨.loadsActive, hasSlot⟩ .silent shared
        ⟨.loadsMax shared.limiter.activeThreads, hasSlot⟩
  | within {shared : LimiterShared W} {active : UInt32} {hasSlot : Bool}
      (room : active ≤ shared.limiter.maxActiveThreads) :
      WorkerStep w shared ⟨.loadsMax active, hasSlot⟩ (.returned w false) shared ⟨.ready, hasSlot⟩
  | exceeds {shared : LimiterShared W} {active : UInt32} {hasSlot : Bool}
      (many : ¬ active ≤ shared.limiter.maxActiveThreads) :
      WorkerStep w shared ⟨.loadsMax active, hasSlot⟩ .silent shared ⟨.freeing true, hasSlot⟩
  | frees {shared : LimiterShared W} {inside hasSlot : Bool} :
      WorkerStep w shared ⟨.freeing inside, hasSlot⟩ .silent
        (if hasSlot then { shared with limiter := shared.limiter.subActive } else shared)
        ⟨.freed inside, hasSlot⟩
  | freed {shared : LimiterShared W} {inside hasSlot : Bool} :
      WorkerStep w shared ⟨.freed inside, hasSlot⟩ .silent shared
        ⟨if inside then .locks else .idle, false⟩
  | locks {shared : LimiterShared W} {hasSlot : Bool} (unlocked : shared.lock = none) :
      WorkerStep w shared ⟨.locks, hasSlot⟩ .silent
        { shared with lock := some (.worker w) } ⟨.tests, hasSlot⟩
  | tests {shared : LimiterShared W} {hasSlot : Bool} :
      WorkerStep w shared ⟨.tests, hasSlot⟩ .silent shared
        ⟨if shared.limiter.shutdown then .decides else .testsActive, hasSlot⟩
  | testsActive {shared : LimiterShared W} {hasSlot : Bool} :
      WorkerStep w shared ⟨.testsActive, hasSlot⟩ .silent shared
        ⟨.testsMax shared.limiter.activeThreads, hasSlot⟩
  | testsMax {shared : LimiterShared W} {active : UInt32} {hasSlot : Bool} :
      WorkerStep w shared ⟨.testsMax active, hasSlot⟩ .silent shared
        ⟨if active < shared.limiter.maxActiveThreads then .decides else .aborted, hasSlot⟩
  | decides {shared : LimiterShared W} {hasSlot : Bool} :
      WorkerStep w shared ⟨.decides, hasSlot⟩ .silent shared
        ⟨if shared.limiter.shutdown then .returns true else .claiming true, hasSlot⟩
  | returns {shared : LimiterShared W} {isShutdown hasSlot : Bool} :
      WorkerStep w shared ⟨.returns isShutdown, hasSlot⟩ (.returned w isShutdown)
        { shared with lock := none }
        ⟨if isShutdown then .freeing false else .ready, hasSlot⟩

/-- One step of the proposing thread; `idle` says that every worker has finished
its cycle. -/
inductive ControllerStep (n : UInt32) (idle : Prop) :
    LimiterShared W → ControllerPlace → LimiterShared W → ControllerPlace → Prop
  | locksPrep {shared : LimiterShared W} (unlocked : shared.lock = none) :
      ControllerStep n idle shared .resting { shared with lock := some .controller } .prepLocked
  | writesPrep {shared : LimiterShared W} :
      ControllerStep n idle shared .prepLocked
        { shared with limiter := shared.limiter.setShutdown false } .prepWritten
  | unlocksPrep {shared : LimiterShared W} :
      ControllerStep n idle shared .prepWritten { shared with lock := none } .prepared
  | locksStart {shared : LimiterShared W} (unlocked : shared.lock = none) :
      ControllerStep n idle shared .prepared { shared with lock := some .controller } .startLocked
  | writesStart {shared : LimiterShared W} :
      ControllerStep n idle shared .startLocked
        { shared with limiter := shared.limiter.startThreads n.toUInt64 } .startWritten
  | checksStart {shared : LimiterShared W} :
      ControllerStep n idle shared .startWritten shared
        (if shared.limiter.shutdown then .thrown else .startChecked)
  | unlocksStart {shared : LimiterShared W} :
      ControllerStep n idle shared .startChecked { shared with lock := none } .launching
  | locksStop {shared : LimiterShared W} (unlocked : shared.lock = none) :
      ControllerStep n idle shared .launching { shared with lock := some .controller } .stopLocked
  | flagsStop {shared : LimiterShared W} :
      ControllerStep n idle shared .stopLocked
        { shared with limiter := shared.limiter.setShutdown true } .stopFlagged
  | writesStop {shared : LimiterShared W} :
      ControllerStep n idle shared .stopFlagged
        { shared with limiter := shared.limiter.clearMax } .stopWritten
  | unlocksStop {shared : LimiterShared W} :
      ControllerStep n idle shared .stopWritten { shared with lock := none } .draining
  | waited {shared : LimiterShared W} (finished : idle) :
      ControllerStep n idle shared .draining shared .resting

structure LimiterState (W : Type) where
  shared : LimiterShared W
  controller : ControllerPlace
  workers : W → Worker

def LimiterState.initial : LimiterState W where
  shared := { limiter := .initial, lock := none }
  controller := .resting
  workers := fun _ => ⟨.idle, false⟩

def LimiterState.AllIdle (state : LimiterState W) : Prop :=
  ∀ w, (state.workers w).place = .idle

variable [DecidableEq W]

def LimiterState.set (state : LimiterState W) (w : W) (worker : Worker) : LimiterState W :=
  { state with workers := Function.update state.workers w worker }

/-- Any thread may take the next step. Launched workers begin with
`claim_one_slot`. -/
inductive LimiterStep (n : UInt32) : LimiterState W → LimiterEvent W → LimiterState W → Prop
  | controls {state : LimiterState W} {shared : LimiterShared W} {place : ControllerPlace}
      (moved : ControllerStep n state.AllIdle state.shared state.controller shared place) :
      LimiterStep n state .silent { state with shared := shared, controller := place }
  | launches {state : LimiterState W} {hasSlot : Bool} (w : W)
      (launching : state.controller = .launching) (idle : state.workers w = ⟨.idle, hasSlot⟩) :
      LimiterStep n state .silent (state.set w ⟨.claiming false, hasSlot⟩)
  | works {state : LimiterState W} {event : LimiterEvent W} {shared : LimiterShared W}
      {worker : Worker} (w : W)
      (moved : WorkerStep w state.shared (state.workers w) event shared worker) :
      LimiterStep n state event { state.set w worker with shared := shared }

end Steps

/-! ## What every step keeps -/

namespace ControllerPlace

def running : ControllerPlace → Bool
  | .launching => true
  | .stopLocked => true
  | .stopFlagged => true
  | .stopWritten => true
  | .draining => true
  | _ => false

def late : ControllerPlace → Bool
  | .stopWritten => true
  | .draining => true
  | _ => false

end ControllerPlace

def SharedOk (n : UInt32) (limiter : RateLimiter) : ControllerPlace → Prop
  | .resting => True
  | .prepLocked => True
  | .prepWritten => limiter.shutdown = false
  | .prepared => limiter.shutdown = false
  | .startLocked => limiter.shutdown = false
  | .startWritten => limiter.shutdown = false ∧ limiter.maxActiveThreads = n
  | .startChecked => limiter.shutdown = false ∧ limiter.maxActiveThreads = n
  | .launching => limiter.shutdown = false ∧ limiter.maxActiveThreads = n
  | .stopLocked => limiter.shutdown = false ∧ limiter.maxActiveThreads = n
  | .stopFlagged => limiter.shutdown = true ∧ limiter.maxActiveThreads = n
  | .stopWritten => limiter.shutdown = true ∧ limiter.maxActiveThreads = 0
  | .draining => limiter.shutdown = true ∧ limiter.maxActiveThreads = 0
  | .thrown => False

/-- A worker leaves the fast path only after the maximum was cleared, and then it
finds the shutdown flag set. -/
def WorkerOk (n : UInt32) (place : ControllerPlace) (worker : Worker) : Prop :=
  match worker.place with
  | .idle => worker.hasSlot = false
  | .claiming inside => worker.hasSlot = false ∧ place.running ∧ inside = false
  | .claimed inside => worker.hasSlot = true ∧ place.running ∧ inside = false
  | .ready => worker.hasSlot = true ∧ place.running
  | .loadsActive => worker.hasSlot = true ∧ place.running
  | .loadsMax active => worker.hasSlot = true ∧ place.running ∧ active.toNat ≤ n.toNat
  | .freeing inside => place.running ∧ (inside = true → place.late)
  | .freed inside => place.running ∧ (inside = true → place.late)
  | .locks => worker.hasSlot = false ∧ place.late
  | .tests => worker.hasSlot = false ∧ place.late
  | .decides => worker.hasSlot = false ∧ place.late
  | .returns isShutdown => worker.hasSlot = false ∧ place.late ∧ isShutdown = true
  | .testsActive => False
  | .testsMax _ => False
  | .thrown => False
  | .aborted => False

def Worker.counted (worker : Worker) : ℕ :=
  match worker.place with
  | .claimed _ => 0
  | .freed _ => 0
  | _ => if worker.hasSlot then 1 else 0

theorem counted_le_one (worker : Worker) : worker.counted ≤ 1 := by
  unfold Worker.counted
  split
  · exact Nat.zero_le 1
  · exact Nat.zero_le 1
  · split_ifs <;> decide

theorem late_running {place : ControllerPlace} (late : place.late = true) :
    place.running = true := by
  cases place <;> first | rfl | cases late

theorem late_shutdown {n : UInt32} {limiter : RateLimiter} {place : ControllerPlace}
    (shared : SharedOk n limiter place) (late : place.late = true) :
    limiter.shutdown = true := by
  cases place with
  | stopWritten => exact shared.1
  | draining => exact shared.1
  | _ => cases late

theorem running_max {n : UInt32} {limiter : RateLimiter} {place : ControllerPlace}
    (shared : SharedOk n limiter place) (running : place.running = true) :
    limiter.maxActiveThreads = n ∨ place.late = true := by
  cases place with
  | launching => exact .inl shared.2
  | stopLocked => exact .inl shared.2
  | stopFlagged => exact .inl shared.2
  | stopWritten => exact .inr rfl
  | draining => exact .inr rfl
  | _ => cases running

theorem shared_ok_congr {n : UInt32} {limiter other : RateLimiter} {place : ControllerPlace}
    (maxActive : other.maxActiveThreads = limiter.maxActiveThreads)
    (shutdown : other.shutdown = limiter.shutdown) (shared : SharedOk n limiter place) :
    SharedOk n other place := by
  cases place <;> simp only [SharedOk, maxActive, shutdown] at shared ⊢ <;> exact shared

/-- A worker's invariant outlives a step of the proposing thread. -/
theorem worker_ok_mono {n : UInt32} {place next : ControllerPlace} {worker : Worker}
    (kept : WorkerOk n place worker) (runs : place.running = true → next.running = true)
    (lasts : place.late = true → next.late = true) : WorkerOk n next worker := by
  obtain ⟨spot, hasSlot⟩ := worker
  cases spot with
  | idle => exact kept
  | claiming inside => exact ⟨kept.1, runs kept.2.1, kept.2.2⟩
  | claimed inside => exact ⟨kept.1, runs kept.2.1, kept.2.2⟩
  | ready => exact ⟨kept.1, runs kept.2⟩
  | loadsActive => exact ⟨kept.1, runs kept.2⟩
  | loadsMax active => exact ⟨kept.1, runs kept.2.1, kept.2.2⟩
  | freeing inside => exact ⟨runs kept.1, fun inner => lasts (kept.2 inner)⟩
  | freed inside => exact ⟨runs kept.1, fun inner => lasts (kept.2 inner)⟩
  | locks => exact ⟨kept.1, lasts kept.2⟩
  | tests => exact ⟨kept.1, lasts kept.2⟩
  | decides => exact ⟨kept.1, lasts kept.2⟩
  | returns isShutdown => exact ⟨kept.1, lasts kept.2.1, kept.2.2⟩
  | testsActive => exact kept
  | testsMax active => exact kept
  | thrown => exact kept
  | aborted => exact kept

theorem worker_ok_idle {n : UInt32} {place next : ControllerPlace} {worker : Worker}
    (kept : WorkerOk n place worker) (idle : worker.place = .idle) : WorkerOk n next worker := by
  obtain ⟨spot, hasSlot⟩ := worker
  cases idle
  exact kept

section WorkerKept

variable {W : Type} {w : W} {n : UInt32} {place : ControllerPlace}
  {shared after : LimiterShared W} {worker next : Worker} {event : LimiterEvent W}

/-- What a step of a worker does to the shared words: the count follows its own
contribution, and nothing else changes. -/
structure WorkerKept (n : UInt32) (place : ControllerPlace) (shared after : LimiterShared W)
    (worker next : Worker) : Prop where
  ok : WorkerOk n place next
  maxActive : after.limiter.maxActiveThreads = shared.limiter.maxActiveThreads
  shutdown : after.limiter.shutdown = shared.limiter.shutdown
  active : after.limiter.activeThreads.toNat + worker.counted =
    shared.limiter.activeThreads.toNat + next.counted

theorem worker_step_kept (sharedOk : SharedOk n shared.limiter place)
    (ok : WorkerOk n place worker)
    (upper : shared.limiter.activeThreads.toNat + 1 ≤ n.toNat + worker.counted)
    (lower : worker.counted ≤ shared.limiter.activeThreads.toNat)
    (moved : WorkerStep w shared worker event after next) :
    WorkerKept n place shared after worker next := by
  have bounded := n.toNat_lt
  have one : (1 : UInt32).toNat = 1 := rfl
  cases moved with
  | @claims inside => exact ⟨⟨rfl, ok.2⟩, rfl, rfl, rfl⟩
  | claimsTwice => cases ok.1
  | @claimed inside hasSlot =>
      obtain ⟨held, running, outside⟩ := ok
      simp only at held
      subst held outside
      have count : Worker.counted ⟨.claimed false, true⟩ = 0 := rfl
      refine ⟨⟨rfl, running⟩, rfl, rfl, ?_⟩
      have added : (shared.limiter.activeThreads + 1).toNat =
          shared.limiter.activeThreads.toNat + 1 := by
        rw [UInt32.toNat_add, one]
        omega
      exact added
  | @waits hasSlot =>
      obtain ⟨held, running⟩ := ok
      simp only at held
      subst held
      exact ⟨⟨rfl, running⟩, rfl, rfl, rfl⟩
  | givesUp => exact ⟨⟨ok.2, fun impossible => by cases impossible⟩, rfl, rfl, rfl⟩
  | @loadsActive hasSlot =>
      obtain ⟨held, running⟩ := ok
      simp only at held
      subst held
      have count : Worker.counted ⟨.loadsActive, true⟩ = 1 := rfl
      exact ⟨⟨rfl, running, by omega⟩, rfl, rfl, rfl⟩
  | within room => exact ⟨⟨ok.1, ok.2.1⟩, rfl, rfl, rfl⟩
  | exceeds many =>
      obtain ⟨held, running, reached⟩ := ok
      refine ⟨⟨running, fun _ => ?_⟩, rfl, rfl, rfl⟩
      rcases running_max sharedOk running with whole | late
      · rw [whole, UInt32.le_iff_toNat_le] at many
        exact absurd reached many
      · exact late
  | @frees inside hasSlot =>
      cases hasSlot with
      | false => exact ⟨ok, rfl, rfl, rfl⟩
      | true =>
          have count : Worker.counted ⟨.freeing inside, true⟩ = 1 := rfl
          refine ⟨ok, rfl, rfl, ?_⟩
          have taken : (shared.limiter.activeThreads - 1).toNat + 1 =
              shared.limiter.activeThreads.toNat := by
            rw [UInt32.toNat_sub, one]
            have size := shared.limiter.activeThreads.toNat_lt
            omega
          exact taken
  | @freed inside hasSlot =>
      cases inside with
      | false => exact ⟨rfl, rfl, rfl, rfl⟩
      | true => exact ⟨⟨rfl, ok.2 rfl⟩, rfl, rfl, rfl⟩
  | locks unlocked => exact ⟨ok, rfl, rfl, rfl⟩
  | @tests hasSlot =>
      have flagged := late_shutdown sharedOk ok.2
      refine ⟨?_, rfl, rfl, ?_⟩
      · rw [flagged]
        exact ok
      · rw [flagged]
        rfl
  | testsActive => exact ok.elim
  | testsMax => exact ok.elim
  | @decides hasSlot =>
      have flagged := late_shutdown sharedOk ok.2
      refine ⟨?_, rfl, rfl, ?_⟩
      · rw [flagged]
        exact ⟨ok.1, ok.2, rfl⟩
      · rw [flagged]
        rfl
  | @returns isShutdown hasSlot =>
      obtain ⟨held, late, same⟩ := ok
      subst same
      exact ⟨⟨late_running late, fun impossible => by cases impossible⟩, rfl, rfl, rfl⟩

end WorkerKept

section ControllerKept

variable {W : Type} {n : UInt32} {place next : ControllerPlace}
  {shared after : LimiterShared W} {workers : W → Worker}

structure ControllerKept (n : UInt32) (shared after : LimiterShared W) (workers : W → Worker)
    (next : ControllerPlace) : Prop where
  words : SharedOk n after.limiter next
  workers : ∀ w, WorkerOk n next (workers w)
  active : after.limiter.activeThreads = shared.limiter.activeThreads

theorem controller_step_kept (sharedOk : SharedOk n shared.limiter place)
    (workersOk : ∀ w, WorkerOk n place (workers w))
    (moved : ControllerStep n (∀ w, (workers w).place = .idle) shared place after next) :
    ControllerKept n shared after workers next := by
  have passes (other : ControllerPlace) (runs : place.running = true → other.running = true)
      (lasts : place.late = true → other.late = true) : ∀ w, WorkerOk n other (workers w) :=
    fun w => worker_ok_mono (workersOk w) runs lasts
  cases moved with
  | locksPrep => exact ⟨trivial, passes _ id id, rfl⟩
  | writesPrep => exact ⟨rfl, passes _ id id, rfl⟩
  | unlocksPrep => exact ⟨sharedOk, passes _ id id, rfl⟩
  | locksStart => exact ⟨sharedOk, passes _ id id, rfl⟩
  | writesStart =>
      refine ⟨⟨sharedOk, ?_⟩, passes _ id id, rfl⟩
      simp only [RateLimiter.startThreads, UInt32.toUInt32_toUInt64]
  | checksStart =>
      have unset : shared.limiter.shutdown = false := sharedOk.1
      rw [unset]
      exact ⟨sharedOk, passes _ id id, rfl⟩
  | unlocksStart =>
      exact ⟨sharedOk, passes _ (fun impossible => by cases impossible) id, rfl⟩
  | locksStop => exact ⟨sharedOk, passes _ id id, rfl⟩
  | flagsStop => exact ⟨⟨rfl, sharedOk.2⟩, passes _ id id, rfl⟩
  | writesStop =>
      exact ⟨⟨sharedOk.1, rfl⟩, passes _ id (fun impossible => by cases impossible), rfl⟩
  | unlocksStop => exact ⟨sharedOk, passes _ id id, rfl⟩
  | waited finished =>
      exact ⟨trivial, fun w => worker_ok_idle (workersOk w) (finished w), rfl⟩

end ControllerKept

/-! ## Every reachable state -/

section Reachable

variable {W : Type} [Fintype W] [DecidableEq W] {n : UInt32}
  {state next : LimiterState W} {event : LimiterEvent W}

structure LimiterOk (n : UInt32) (state : LimiterState W) : Prop where
  words : SharedOk n state.shared.limiter state.controller
  workers : ∀ w, WorkerOk n state.controller (state.workers w)
  active : state.shared.limiter.activeThreads.toNat = ∑ w, (state.workers w).counted

theorem counted_set (state : LimiterState W) (w : W) (worker : Worker) :
    ∑ v, ((state.set w worker).workers v).counted + (state.workers w).counted =
      ∑ v, (state.workers v).counted + worker.counted := by
  have before := Finset.add_sum_erase Finset.univ (fun v => (state.workers v).counted)
    (Finset.mem_univ w)
  have after := Finset.add_sum_erase Finset.univ
    (fun v => ((state.set w worker).workers v).counted) (Finset.mem_univ w)
  have own : ((state.set w worker).workers w) = worker := Function.update_self ..
  have others : ∑ v ∈ Finset.univ.erase w, ((state.set w worker).workers v).counted =
      ∑ v ∈ Finset.univ.erase w, (state.workers v).counted := by
    apply Finset.sum_congr rfl
    intro v member
    have other : (state.set w worker).workers v = state.workers v :=
      Function.update_of_ne (Finset.ne_of_mem_erase member) ..
    rw [other]
  rw [own] at after
  omega

omit [Fintype W] [DecidableEq W] in
theorem counted_le_card (state : LimiterState W) (among : Finset W) :
    ∑ w ∈ among, (state.workers w).counted ≤ among.card := by
  rw [Finset.card_eq_sum_ones]
  exact Finset.sum_le_sum fun w _ => counted_le_one _

theorem counted_others (state : LimiterState W) (w : W) :
    ∑ v, (state.workers v).counted + 1 ≤ Fintype.card W + (state.workers w).counted := by
  have split := Finset.add_sum_erase Finset.univ (fun v => (state.workers v).counted)
    (Finset.mem_univ w)
  have each := counted_le_card state (Finset.univ.erase w)
  rw [Finset.card_erase_of_mem (Finset.mem_univ w), Finset.card_univ] at each
  have positive : 0 < Fintype.card W := Fintype.card_pos_iff.mpr ⟨w⟩
  omega

omit [DecidableEq W] in
theorem counted_own (state : LimiterState W) (w : W) :
    (state.workers w).counted ≤ ∑ v, (state.workers v).counted :=
  Finset.single_le_sum (f := fun v => (state.workers v).counted) (fun _ _ => Nat.zero_le _)
    (Finset.mem_univ w)

omit [Fintype W] in
theorem workers_ok_set {place : ControllerPlace} {w : W} {worker : Worker}
    (others : ∀ v, WorkerOk n place (state.workers v)) (own : WorkerOk n place worker) :
    ∀ v, WorkerOk n place ((state.set w worker).workers v) := by
  intro v
  by_cases same : v = w
  · subst same
    have updated : (state.set v worker).workers v = worker := Function.update_self ..
    rw [updated]
    exact own
  · have kept : (state.set w worker).workers v = state.workers v :=
      Function.update_of_ne same ..
    rw [kept]
    exact others v

omit [DecidableEq W] in
theorem limiter_ok_initial : LimiterOk n (LimiterState.initial : LimiterState W) where
  words := trivial
  workers _ := rfl
  active := by
    have nothing : ∀ w, ((LimiterState.initial : LimiterState W).workers w).counted = 0 :=
      fun _ => rfl
    simp only [nothing, Finset.sum_const_zero]
    rfl

theorem limiter_step_ok (few : Fintype.card W ≤ n.toNat) (ok : LimiterOk n state)
    (step : LimiterStep n state event next) : LimiterOk n next := by
  cases step with
  | controls moved =>
      have kept := controller_step_kept ok.words ok.workers moved
      refine ⟨kept.words, kept.workers, ?_⟩
      simp only [kept.active]
      exact ok.active
  | @launches hasSlot w launching idle =>
      have own := ok.workers w
      rw [idle] at own
      have unset : hasSlot = false := own
      subst unset
      have claiming : WorkerOk n state.controller ⟨.claiming false, false⟩ := by
        rw [launching]
        exact ⟨rfl, rfl, rfl⟩
      refine ⟨ok.words, workers_ok_set ok.workers claiming, ?_⟩
      have counted := counted_set state w ⟨.claiming false, false⟩
      rw [idle] at counted
      have active := ok.active
      have before : Worker.counted ⟨.idle, false⟩ = 0 := rfl
      have after : Worker.counted ⟨.claiming false, false⟩ = 0 := rfl
      have same : (state.set w ⟨.claiming false, false⟩).shared = state.shared := rfl
      rw [same]
      omega
  | @works _ shared worker w moved =>
      have active := ok.active
      have others := counted_others state w
      have own := counted_own state w
      have kept := worker_step_kept ok.words (ok.workers w) (by omega) (by omega) moved
      have words := shared_ok_congr kept.maxActive kept.shutdown ok.words
      refine ⟨words, workers_ok_set ok.workers kept.ok, ?_⟩
      have counted := counted_set state w worker
      have change := kept.active
      change shared.limiter.activeThreads.toNat = ∑ v, ((state.set w worker).workers v).counted
      omega

theorem limiter_run_ok (few : Fintype.card W ≤ n.toNat) {events : List (LimiterEvent W)}
    (run : Run (LimiterStep n) LimiterState.initial events state) : LimiterOk n state :=
  run_invariant (LimiterOk n) (fun _ _ _ => limiter_step_ok few) limiter_ok_initial run

/-! ## Waiting after a stop -/

/-- `stop_threads` has returned, and `prep_for_notify` was not called since. -/
def ControllerPlace.stopped : ControllerPlace → Bool
  | .draining => true
  | .resting => true
  | _ => false

/-- On the way through a `wait_for_opening` that can only return shutdown. -/
def WorkerPlace.late : WorkerPlace → Prop
  | .loadsActive => True
  | .loadsMax active => 0 < active.toNat
  | .freeing inside => inside = true
  | .freed inside => inside = true
  | .locks => True
  | .tests => True
  | .decides => True
  | .returns isShutdown => isShutdown = true
  | _ => False

structure LateCall (w : W) (state : LimiterState W) : Prop where
  draining : state.controller = .draining
  place : (state.workers w).place.late

omit [Fintype W] [DecidableEq W] in
theorem worker_step_event {v : W} {shared after : LimiterShared W} {worker next : Worker}
    (moved : WorkerStep v shared worker event after next) {w : W} {isShutdown : Bool}
    (shown : event = .returned w isShutdown) : v = w := by
  cases moved <;> cases shown <;> rfl

omit [Fintype W] [DecidableEq W] in
theorem late_worker_step {w : W} {shared after : LimiterShared W} {worker next : Worker}
    (stopped : shared.limiter.shutdown = true ∧ shared.limiter.maxActiveThreads = 0)
    (own : worker.place = .loadsActive → 0 < shared.limiter.activeThreads.toNat)
    (late : worker.place.late) (moved : WorkerStep w shared worker event after next) :
    event = .returned w true ∨ event = .silent ∧ next.place.late := by
  have zero : (0 : UInt32).toNat = 0 := rfl
  cases moved with
  | claims => exact late.elim
  | claimsTwice => exact late.elim
  | claimed => exact late.elim
  | waits => exact late.elim
  | givesUp => exact late.elim
  | loadsActive => exact .inr ⟨rfl, own rfl⟩
  | @within active hasSlot room =>
      have positive : 0 < active.toNat := late
      rw [stopped.2, UInt32.le_iff_toNat_le, zero] at room
      omega
  | exceeds => exact .inr ⟨rfl, rfl⟩
  | frees => exact .inr ⟨rfl, late⟩
  | @freed inside hasSlot =>
      have inner : inside = true := late
      subst inner
      exact .inr ⟨rfl, trivial⟩
  | locks => exact .inr ⟨rfl, trivial⟩
  | tests =>
      rw [stopped.1]
      exact .inr ⟨rfl, trivial⟩
  | testsActive => exact late.elim
  | testsMax => exact late.elim
  | decides =>
      rw [stopped.1]
      exact .inr ⟨rfl, rfl⟩
  | @returns isShutdown hasSlot =>
      have same : isShutdown = true := late
      rw [same]
      exact .inl rfl

omit [DecidableEq W] in
theorem active_positive (ok : LimiterOk n state) {w : W}
    (loads : (state.workers w).place = .loadsActive) :
    0 < state.shared.limiter.activeThreads.toNat := by
  have own := counted_own state w
  have active := ok.active
  have kept := ok.workers w
  generalize state.workers w = worker at own kept loads
  obtain ⟨spot, hasSlot⟩ := worker
  simp only at loads
  subst loads
  have held : hasSlot = true := kept.1
  subst held
  have count : Worker.counted ⟨.loadsActive, true⟩ = 1 := rfl
  omega

theorem late_step {w : W} (ok : LimiterOk n state) (late : LateCall w state)
    (step : LimiterStep n state event next) :
    event = .returned w true ∨ (∀ isShutdown, event ≠ .returned w isShutdown) ∧
      LateCall w next := by
  have stopped := ok.words
  rw [late.draining] at stopped
  cases step with
  | @controls shared place moved =>
      have waiting := late.place
      rw [late.draining] at moved
      cases moved with
      | waited finished =>
          rw [finished w] at waiting
          exact waiting.elim
  | launches v launching idle =>
      rw [late.draining] at launching
      cases launching
  | @works _ shared worker v moved =>
      by_cases same : v = w
      · subst same
        rcases late_worker_step stopped (active_positive ok) late.place moved with
          returned | ⟨silent, place⟩
        · exact .inl returned
        · refine .inr ⟨?_, late.draining, ?_⟩
          · intro isShutdown shown
            rw [silent] at shown
            cases shown
          · have updated : (state.set v worker).workers v = worker := Function.update_self ..
            simp only [updated]
            exact place
      · refine .inr ⟨fun isShutdown shown => same (worker_step_event moved shown),
          late.draining, ?_⟩
        have kept : (state.set v worker).workers w = state.workers w :=
          Function.update_of_ne (Ne.symm same) ..
        simp only [kept]
        exact late.place

theorem late_begins {w : W} (ok : LimiterOk n state) (stopped : state.controller.stopped = true)
    (step : LimiterStep n state (.waits w) next) : LateCall w next := by
  cases step with
  | @works _ shared worker v moved =>
      have kept := ok.workers v
      generalize state.workers v = before at kept moved
      cases moved with
      | @waits hasSlot =>
          obtain ⟨held, running⟩ := kept
          simp only at held
          subst held
          have draining : state.controller = .draining := by
            generalize state.controller = place at stopped running
            cases place with
            | draining => rfl
            | resting => cases running
            | _ => cases stopped
          refine ⟨draining, ?_⟩
          have updated : (state.set w ⟨.loadsActive, true⟩).workers w = ⟨.loadsActive, true⟩ :=
            Function.update_self ..
          simp only [if_true, updated]
          trivial

theorem late_run {w : W} (few : Fintype.card W ≤ n.toNat) (ok : LimiterOk n state)
    (late : LateCall w state) {events : List (LimiterEvent W)}
    (run : Run (LimiterStep n) state events next)
    (pending : ∀ isShutdown, .returned w isShutdown ∉ events) :
    LimiterOk n next ∧ LateCall w next := by
  induction run with
  | nil => exact ⟨ok, late⟩
  | cons first rest induction =>
      have begun := limiter_step_ok few ok first
      rcases late_step ok late first with returned | ⟨_, later⟩
      · rw [returned] at pending
        exact absurd (List.mem_cons_self ..) (pending true)
      · exact induction begun later fun isShutdown member =>
          pending isShutdown (List.mem_cons_of_mem _ member)

/-! ## The protocol -/

theorem counted_settled {worker : Worker} (settled : worker.changesSlot = false) :
    worker.counted = if worker.hasSlot then 1 else 0 := by
  obtain ⟨spot, hasSlot⟩ := worker
  cases spot <;> first | rfl | cases settled

theorem worker_ok_runs {place : ControllerPlace} {worker : Worker}
    (kept : WorkerOk n place worker) : worker.place ≠ .thrown ∧ worker.place ≠ .aborted := by
  obtain ⟨spot, hasSlot⟩ := worker
  constructor
  · rintro rfl
    exact kept
  · rintro rfl
    exact kept

/-- In every state that the threads reach: the count is that of the slots held
and at most `n`, nothing was thrown or aborted, and a wait that begins between a
stop and the next round returns shutdown. -/
theorem rate_limiter_protocol (n : UInt32) (few : Fintype.card W ≤ n.toNat)
    (events : List (LimiterEvent W)) (state : LimiterState W)
    (run : Run (LimiterStep n) LimiterState.initial events state) :
    ((∀ w, (state.workers w).changesSlot = false) →
      state.shared.limiter.activeThreads.toNat =
        (Finset.univ.filter fun w => (state.workers w).hasSlot = true).card) ∧
    state.shared.limiter.activeThreads ≤ n ∧
    (∀ w, (state.workers w).place ≠ .thrown ∧ (state.workers w).place ≠ .aborted) ∧
    state.controller ≠ .thrown ∧
    ∀ w isShutdown begun later last after, state.controller.stopped = true →
      LimiterStep n state (.waits w) begun → Run (LimiterStep n) begun later last →
      (∀ answer, .returned w answer ∉ later) →
      LimiterStep n last (.returned w isShutdown) after → isShutdown = true := by
  have ok := limiter_run_ok few run
  refine ⟨?_, ?_, fun w => worker_ok_runs (ok.workers w), ?_, ?_⟩
  · intro settled
    rw [ok.active, Finset.card_filter]
    exact Finset.sum_congr rfl fun w _ => counted_settled (settled w)
  · have bound := counted_le_card state Finset.univ
    have active := ok.active
    rw [Finset.card_univ] at bound
    rw [UInt32.le_iff_toNat_le]
    omega
  · intro thrown
    have words := ok.words
    rw [thrown] at words
    exact words
  · intro w isShutdown begun later last after stopped waits rest pending returned
    have begins := limiter_step_ok few ok waits
    obtain ⟨lastOk, late⟩ := late_run few begins (late_begins ok stopped waits) rest pending
    rcases late_step lastOk late returned with shown | ⟨unseen, _⟩
    · cases shown
      rfl
    · exact absurd rfl (unseen isShutdown)

end Reachable

/-- One worker and one thread at most, up to the first claim of a round. -/
theorem rate_limiter_protocol_claim : ∃ (events : List (LimiterEvent Unit))
    (state : LimiterState Unit), Run (LimiterStep 1) LimiterState.initial events state ∧
    (state.workers ()).hasSlot = true ∧ state.shared.limiter.activeThreads ≤ 1 := by
  have first : LimiterStep 1 (LimiterState.initial : LimiterState Unit) .silent _ :=
    .controls (.locksPrep rfl)
  have run := Run.cons first <| .cons (.controls .writesPrep) <| .cons (.controls .unlocksPrep) <|
    .cons (.controls (.locksStart rfl)) <| .cons (.controls .writesStart) <|
    .cons (.controls .checksStart) <| .cons (.controls .unlocksStart) <|
    .cons (.launches () rfl rfl) <| .cons (.works () .claims) <|
    .cons (.works () .claimed) <| .nil _
  exact ⟨_, _, run, rfl, (rate_limiter_protocol 1 (by decide) _ _ run).2.1⟩

end Scs
