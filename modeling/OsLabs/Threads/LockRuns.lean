import OsLabs.Threads.SemaphoreRuns

/-!
# One lock under every interleaving of its callers

The machine of a single lock. A step is one statement of `lock_acquire`, `lock_try_acquire` or
`lock_release`; the semaphore operations inside them are one section per step, as in `SemaphoreRuns`.
The clients acquire only a lock they do not own and release only a lock they own; apart from that
any thread may take its next step at any time.

`holder` is written outside the semaphore operations on both sides, so there are two windows in which
value and holder disagree: after a thread took the unit and before it stores itself, and after it
cleared the field and before it gives the unit back. `LockInv` says who may be in them.
-/

namespace OsLabs.Threads

open Lib Function

/-- Where a thread is with respect to the lock. -/
inductive LockPc where
  /-- Outside the lock's code and not the owner. -/
  | outside
  /-- In `lock_acquire`, its assertions passed, before `sema_down`. -/
  | acquire
  /-- In `lock_try_acquire`, its assertions passed, before `sema_try_down`. -/
  | tryAcquire
  /-- Queued and blocked in `sema_down`. -/
  | waiting
  /-- Popped by a `sema_up`, before the next test of the value. -/
  | awakened
  /-- Before `lock->holder = thread_current ()`. -/
  | granted
  /-- A successful acquire returned. -/
  | owner
  /-- In `lock_release`, its assertions passed, before `lock->holder = NULL`. -/
  | release
  /-- In `lock_release`, before `sema_up`. -/
  | releaseUp
deriving DecidableEq

/-- The lock with the position of every thread. -/
structure LockState (T : Type) where
  lock : Lock T
  pc : T → LockPc

/-- One statement by one thread. `acquire`, `tryAcquire` and `release` are the calls, with the
assertions at the head of the function. -/
inductive LockAction (T : Type) where
  | acquire (t : T)
  | tryAcquire (t : T)
  | down (t : T)
  | tryDown (t : T)
  | setHolder (t : T)
  | release (t : T)
  | clearHolder (t : T)
  | up (t : T)

/-- The ownership assertions. -/
inductive LockAssert where
  | acquire
  | tryAcquire
  | release
deriving DecidableEq

variable {T : Type} [DecidableEq T]

/-- The state with thread `t` moved to `p`. -/
def LockState.goto (s : LockState T) (t : T) (p : LockPc) : LockState T :=
  { s with pc := update s.pc t p }

/-- The state with another semaphore value and queue. -/
def LockState.setSema (s : LockState T) (sema : Semaphore T) : LockState T :=
  { s with lock := { s.lock with semaphore := sema } }

/-- The state with another holder. -/
def LockState.setHolder (s : LockState T) (holder : Option T) : LockState T :=
  { s with lock := { s.lock with holder } }

/-- One statement of the lock's code. -/
def lockExec (s : LockState T) : LockAction T → Except (Halt LockAssert) (LockState T)
  | .acquire t =>
    if s.pc t ≠ .outside then .error .disabled
    else if lockHeldByCurrentThread s.lock t then .error (.fault .acquire)
    else .ok (s.goto t .acquire)
  | .tryAcquire t =>
    if s.pc t ≠ .outside then .error .disabled
    else if lockHeldByCurrentThread s.lock t then .error (.fault .tryAcquire)
    else .ok (s.goto t .tryAcquire)
  | .down t =>
    if s.pc t ≠ .acquire ∧ s.pc t ≠ .awakened then .error .disabled
    else
      match semaDown s.lock.semaphore t with
      | (sema, true) => .ok ((s.setSema sema).goto t .granted)
      | (sema, false) => .ok ((s.setSema sema).goto t .waiting)
  | .tryDown t =>
    if s.pc t ≠ .tryAcquire then .error .disabled
    else
      match semaTryDown s.lock.semaphore with
      | (sema, true) => .ok ((s.setSema sema).goto t .granted)
      | (sema, false) => .ok ((s.setSema sema).goto t .outside)
  | .setHolder t =>
    if s.pc t ≠ .granted then .error .disabled
    else .ok ((s.setHolder (some t)).goto t .owner)
  | .release t =>
    if s.pc t ≠ .owner then .error .disabled
    else if !lockHeldByCurrentThread s.lock t then .error (.fault .release)
    else .ok (s.goto t .release)
  | .clearHolder t =>
    if s.pc t ≠ .release then .error .disabled
    else .ok ((s.setHolder none).goto t .releaseUp)
  | .up t =>
    if s.pc t ≠ .releaseUp then .error .disabled
    else
      match semaUp s.lock.semaphore with
      | (sema, none) => .ok ((s.setSema sema).goto t .outside)
      | (sema, some w) => .ok (((s.setSema sema).goto t .outside).goto w .awakened)

/-- The state `lock_init` leaves. -/
def lockStart : LockState T :=
  { lock := lockInit, pc := fun _ => .outside }

/-- The machine of one lock. -/
def lockMachine : Machine (LockState T) (LockAction T) :=
  .ofExec (fun s => s = lockStart) lockExec

/-! ## What one statement can do -/

/-- Everything a statement can do, guards included. -/
inductive LockTurn (s : LockState T) : LockAction T → LockState T → Prop
  | acquire (t : T) (hpc : s.pc t = .outside) : LockTurn s (.acquire t) (s.goto t .acquire)
  | tryAcquire (t : T) (hpc : s.pc t = .outside) : LockTurn s (.tryAcquire t) (s.goto t .tryAcquire)
  | passed (t : T) (hpc : s.pc t = .acquire ∨ s.pc t = .awakened)
      (hv : 0 < s.lock.semaphore.value) :
      LockTurn s (.down t)
        ((s.setSema { s.lock.semaphore with value := s.lock.semaphore.value - 1 }).goto t .granted)
  | queued (t : T) (hpc : s.pc t = .acquire ∨ s.pc t = .awakened)
      (hv : s.lock.semaphore.value = 0) :
      LockTurn s (.down t)
        ((s.setSema { s.lock.semaphore with waiters := s.lock.semaphore.waiters ++ [t] }).goto t
          .waiting)
  | taken (t : T) (hpc : s.pc t = .tryAcquire) (hv : 0 < s.lock.semaphore.value) :
      LockTurn s (.tryDown t)
        ((s.setSema { s.lock.semaphore with value := s.lock.semaphore.value - 1 }).goto t .granted)
  | refused (t : T) (hpc : s.pc t = .tryAcquire) (hv : s.lock.semaphore.value = 0) :
      LockTurn s (.tryDown t) ((s.setSema s.lock.semaphore).goto t .outside)
  | setHolder (t : T) (hpc : s.pc t = .granted) :
      LockTurn s (.setHolder t) ((s.setHolder (some t)).goto t .owner)
  | release (t : T) (hpc : s.pc t = .owner) : LockTurn s (.release t) (s.goto t .release)
  | clearHolder (t : T) (hpc : s.pc t = .release) :
      LockTurn s (.clearHolder t) ((s.setHolder none).goto t .releaseUp)
  | freed (t : T) (hpc : s.pc t = .releaseUp) (hw : s.lock.semaphore.waiters = []) :
      LockTurn s (.up t)
        ((s.setSema { s.lock.semaphore with value := (s.lock.semaphore.value + 1) % 2 ^ 32 }).goto t
          .outside)
  | woke (t : T) (hpc : s.pc t = .releaseUp) (w : T) (rest : List T)
      (hw : s.lock.semaphore.waiters = w :: rest) :
      LockTurn s (.up t)
        (((s.setSema { value := (s.lock.semaphore.value + 1) % 2 ^ 32, waiters := rest }).goto t
          .outside).goto w .awakened)

variable {s s' : LockState T} {a : LockAction T} {t : T}

lemma LockTurn.of_exec (h : lockExec s a = .ok s') : LockTurn s a s' := by
  cases a with
  | acquire t | tryAcquire t | setHolder t | release t | clearHolder t =>
    simp only [lockExec] at h
    split_ifs at h with hpc
    cases h
    constructor
    exact not_not.mp hpc
  | down t =>
    simp only [lockExec] at h
    split_ifs at h with hpc
    have hpc' : s.pc t = .acquire ∨ s.pc t = .awakened := by
      by_contra hc
      exact hpc (not_or.mp hc)
    rcases Nat.eq_zero_or_pos s.lock.semaphore.value with hv | hv
    · rw [semaDown_of_zero hv] at h
      cases h
      exact .queued t hpc' hv
    · rw [semaDown_of_pos hv] at h
      cases h
      exact .passed t hpc' hv
  | tryDown t =>
    simp only [lockExec] at h
    split_ifs at h with hpc
    rcases Nat.eq_zero_or_pos s.lock.semaphore.value with hv | hv
    · rw [semaTryDown_of_zero hv] at h
      cases h
      exact .refused t (not_not.mp hpc) hv
    · rw [semaTryDown_of_pos hv] at h
      cases h
      exact .taken t (not_not.mp hpc) hv
  | up t =>
    simp only [lockExec] at h
    split_ifs at h with hpc
    cases hw : s.lock.semaphore.waiters with
    | nil =>
      rw [semaUp_of_nil hw] at h
      cases h
      exact .freed t (not_not.mp hpc) hw
    | cons w rest =>
      rw [semaUp_of_cons hw] at h
      cases h
      exact .woke t (not_not.mp hpc) w rest hw

/-! ## The lock's semaphore is a semaphore

Forgetting `holder` and the positions outside `sema_down` maps the lock to the machine of
`SemaphoreRuns` started with one unit, so `SemaInv` holds of the semaphore inside. -/

/-- The position with respect to the semaphore. -/
def LockPc.toSema : LockPc → SemaPc
  | .waiting => .waiting
  | .awakened => .awakened
  | _ => .outside

/-- The semaphore inside the lock. -/
def LockState.toSema (s : LockState T) : SemaState T :=
  { sema := s.lock.semaphore, pc := fun t => (s.pc t).toSema }

/-- Moving a thread moves its image. -/
lemma toSema_goto (s : LockState T) (t : T) (p : LockPc) :
    (s.goto t p).toSema = { s.toSema with pc := update s.toSema.pc t p.toSema } := by
  have hpc : (fun u => (update s.pc t p u).toSema) = update (fun u => (s.pc u).toSema) t p.toSema := by
    funext u
    by_cases hu : u = t
    · subst hu; simp
    · simp [hu]
  simp only [LockState.toSema, LockState.goto, hpc]

/-- A thread that only moves between positions outside `sema_down` does not move its image. -/
lemma toSema_goto_of_eq {p : LockPc} (h : p.toSema = (s.pc t).toSema) : (s.goto t p).toSema = s.toSema := by
  rw [toSema_goto, h]
  exact congrArg (SemaState.mk _) (update_eq_self t _)

lemma LockTurn.toSema (h : LockTurn s a s') :
    s'.toSema = s.toSema ∨ ∃ b, semaStep s.toSema b = some s'.toSema := by
  cases h with
  | acquire t hpc | tryAcquire t hpc | release t hpc => exact Or.inl (toSema_goto_of_eq (by rw [hpc]; rfl))
  | setHolder t hpc | clearHolder t hpc | refused t hpc hv =>
    exact Or.inl (toSema_goto_of_eq (by show _ = (s.pc t).toSema; rw [hpc]; rfl))
  | passed t hpc hv =>
    right
    have hne : s.toSema.pc t ≠ .waiting := by
      rcases hpc with hpc | hpc <;> simp [LockState.toSema, hpc, LockPc.toSema]
    have hv' : 0 < s.toSema.sema.value := hv
    refine ⟨.down t, ?_⟩
    rw [semaStep, if_neg hne, semaDown_of_pos hv', toSema_goto]
    rfl
  | queued t hpc hv =>
    right
    have hne : s.toSema.pc t ≠ .waiting := by
      rcases hpc with hpc | hpc <;> simp [LockState.toSema, hpc, LockPc.toSema]
    have hv' : s.toSema.sema.value = 0 := hv
    refine ⟨.down t, ?_⟩
    rw [semaStep, if_neg hne, semaDown_of_zero hv', toSema_goto]
    rfl
  | taken t hpc hv =>
    right
    have hv' : 0 < s.toSema.sema.value := hv
    refine ⟨.tryDown none, ?_⟩
    rw [semaStep, SemaState.canCall, if_pos rfl, semaTryDown_of_pos hv',
      toSema_goto_of_eq (by show _ = (s.pc t).toSema; rw [hpc]; rfl)]
    rfl
  | freed t hpc hw =>
    right
    have hw' : s.toSema.sema.waiters = [] := hw
    refine ⟨.up none, ?_⟩
    rw [semaStep, SemaState.canCall, if_pos rfl, semaUp_of_nil hw',
      toSema_goto_of_eq (by show _ = (s.pc t).toSema; rw [hpc]; rfl)]
    rfl
  | woke t hpc w rest hw =>
    right
    have hw' : s.toSema.sema.waiters = w :: rest := hw
    refine ⟨.up none, ?_⟩
    rw [semaStep, SemaState.canCall, if_pos rfl, semaUp_of_cons hw', toSema_goto,
      toSema_goto_of_eq (by show _ = (s.pc t).toSema; rw [hpc]; rfl)]
    rfl

/-- The semaphore inside a reachable lock is a reachable semaphore with initial value 1. -/
lemma lockMachine_toSema (h : lockMachine.Reachable s) : (semaMachine 1).Reachable s.toSema := by
  refine h.map LockState.toSema (fun s hs => ?_) fun s a s' _ hstep => ?_
  · rw [show s = lockStart from hs]
    rfl
  · exact (LockTurn.of_exec (Machine.ofExec_step.mp hstep)).toSema

/-! ## The invariant -/

/-- The thread took the lock's unit and has not given it back. -/
def LockPc.hasUnit : LockPc → Bool
  | .granted | .owner | .release | .releaseUp => true
  | _ => false

/-- The thread is stored in `holder`. -/
def LockPc.isHolder : LockPc → Bool
  | .owner | .release => true
  | _ => false

lemma LockPc.hasUnit_of_isHolder {p : LockPc} (h : p.isHolder = true) : p.hasUnit = true := by
  cases p <;> first | rfl | cases h

/-- What every reachable state of the lock satisfies. -/
structure LockInv (s : LockState T) : Prop where
  /-- The unit is on the counter, or exactly one thread has it. -/
  unit : (s.lock.semaphore.value = 1 ∧ ∀ t, (s.pc t).hasUnit = false) ∨
    (s.lock.semaphore.value = 0 ∧ ∃ t, ∀ u, (s.pc u).hasUnit = true ↔ u = t)
  holder : ∀ t, s.lock.holder = some t ↔ (s.pc t).isHolder = true

omit [DecidableEq T] in
lemma lockStart_inv : LockInv (lockStart : LockState T) where
  unit := Or.inl ⟨rfl, fun _ => rfl⟩
  holder t := by simp [lockStart, lockInit, LockPc.isHolder]

section LockInv

variable (hs : LockInv s)
include hs

omit [DecidableEq T] in
/-- A thread that has the unit is the only one, and the counter is 0. -/
lemma LockInv.of_hasUnit (ht : (s.pc t).hasUnit = true) :
    s.lock.semaphore.value = 0 ∧ ∀ u, (s.pc u).hasUnit = true ↔ u = t := by
  rcases hs.unit with ⟨_, hnone⟩ | ⟨hv, w, hw⟩
  · rw [hnone t] at ht
    cases ht
  · obtain rfl := (hw t).mp ht
    exact ⟨hv, hw⟩

omit [DecidableEq T] in
/-- Two owners are the same thread. -/
lemma LockInv.owner_unique {u : T} (ht : s.pc t = .owner) (hu : s.pc u = .owner) :
    t = u := by
  obtain ⟨_, hunique⟩ := hs.of_hasUnit (by rw [ht]; rfl)
  exact ((hunique u).mp (by rw [hu]; rfl)).symm

/-- Moving a thread between two positions that agree on the unit and on `holder` keeps the
invariant. -/
lemma LockInv.goto (t : T) (p : LockPc) (hu : p.hasUnit = (s.pc t).hasUnit)
    (hh : p.isHolder = (s.pc t).isHolder) : LockInv (s.goto t p) := by
  have hunit : ∀ u, (update s.pc t p u).hasUnit = (s.pc u).hasUnit := by grind
  have hholder : ∀ u, (update s.pc t p u).isHolder = (s.pc u).isHolder := by grind
  exact ⟨by simpa only [LockState.goto, hunit] using hs.unit,
    by simpa only [LockState.goto, hholder] using hs.holder⟩

omit [DecidableEq T] in
/-- The invariant does not read the queue of the semaphore. -/
lemma LockInv.setSema {sema : Semaphore T} (hv : sema.value = s.lock.semaphore.value) :
    LockInv (s.setSema sema) :=
  ⟨by simpa only [LockState.setSema, hv] using hs.unit, hs.holder⟩

/-- Taking the unit. -/
lemma LockInv.grant (t : T) (hv : 0 < s.lock.semaphore.value)
    (hh : (s.pc t).isHolder = false) :
    LockInv ((s.setSema { s.lock.semaphore with value := s.lock.semaphore.value - 1 }).goto t
      .granted) := by
  obtain ⟨hone, hnone⟩ := hs.unit.resolve_right fun hzero => by omega
  refine ⟨Or.inr ⟨by simp [LockState.setSema, LockState.goto, hone], t, fun u => ?_⟩, fun u => ?_⟩
  · show (update s.pc t .granted u).hasUnit = true ↔ u = t
    grind [LockPc.hasUnit]
  · show s.lock.holder = some u ↔ (update s.pc t .granted u).isHolder = true
    grind [LockPc.isHolder, hs.holder u]

/-- Giving the unit back. -/
lemma LockInv.giveBack (t : T) (hpc : s.pc t = .releaseUp) (waiters : List T) :
    LockInv ((s.setSema { value := (s.lock.semaphore.value + 1) % 2 ^ 32, waiters }).goto t
      .outside) := by
  obtain ⟨hv, hunique⟩ := hs.of_hasUnit (by rw [hpc]; rfl)
  refine ⟨Or.inl ⟨by simp [LockState.setSema, LockState.goto, hv], fun u => ?_⟩, fun u => ?_⟩
  · show (update s.pc t .outside u).hasUnit = false
    grind [LockPc.hasUnit]
  · show s.lock.holder = some u ↔ (update s.pc t .outside u).isHolder = true
    grind [LockPc.isHolder, hs.holder u]

/-- Storing the thread that has the unit in `holder`: nobody else is stored there, as nobody else has it. -/
lemma LockInv.storeHolder (t : T) (hpc : s.pc t = .granted) :
    LockInv ((s.setHolder (some t)).goto t .owner) := by
  obtain ⟨hv, hunique⟩ := hs.of_hasUnit (by rw [hpc]; rfl)
  refine ⟨Or.inr ⟨hv, t, fun u => ?_⟩, fun u => ?_⟩
  · show (update s.pc t .owner u).hasUnit = true ↔ u = t
    grind [LockPc.hasUnit]
  · show some t = some u ↔ (update s.pc t .owner u).isHolder = true
    grind [LockPc.isHolder, LockPc.hasUnit_of_isHolder]

/-- Clearing `holder`. -/
lemma LockInv.clearHolder (t : T) (hpc : s.pc t = .release) :
    LockInv ((s.setHolder none).goto t .releaseUp) := by
  obtain ⟨hv, hunique⟩ := hs.of_hasUnit (by rw [hpc]; rfl)
  refine ⟨Or.inr ⟨hv, t, fun u => ?_⟩, fun u => ?_⟩
  · show (update s.pc t .releaseUp u).hasUnit = true ↔ u = t
    grind [LockPc.hasUnit]
  · show none = some u ↔ (update s.pc t .releaseUp u).isHolder = true
    grind [LockPc.isHolder, LockPc.hasUnit_of_isHolder]

end LockInv

omit [DecidableEq T] in
/-- The thread that a `sema_up` pops is blocked in `sema_down`. -/
lemma waiting_of_waiters (hsema : SemaInv s.toSema) {w : T} {rest : List T} (hw : s.lock.semaphore.waiters = w :: rest) :
    s.pc w = .waiting := by
  have hwait : s.toSema.pc w = .waiting := by
    rw [← hsema.mem_waiters w]
    simp [LockState.toSema, hw]
  cases hp : s.pc w <;> simp_all [LockState.toSema, LockPc.toSema]

lemma LockTurn.inv (h : LockTurn s a s') (hs : LockInv s) (hsema : SemaInv s.toSema) : LockInv s' := by
  cases h with
  | acquire t hpc | tryAcquire t hpc | release t hpc => exact hs.goto t _ (by rw [hpc]; rfl) (by rw [hpc]; rfl)
  | passed t hpc hv =>
    exact hs.grant t hv (by rcases hpc with hpc | hpc <;> rw [hpc] <;> rfl)
  | queued t hpc hv =>
    have hs' := hs.setSema
      (show ({ s.lock.semaphore with waiters := s.lock.semaphore.waiters ++ [t] } : Semaphore T).value
        = s.lock.semaphore.value from rfl)
    refine hs'.goto t _ ?_ ?_ <;>
      rcases hpc with hpc | hpc <;> simp [LockState.setSema, hpc, LockPc.hasUnit, LockPc.isHolder]
  | taken t hpc hv => exact hs.grant t hv (by rw [hpc]; rfl)
  | refused t hpc hv =>
    refine (hs.setSema rfl).goto t _ ?_ ?_ <;>
      simp [LockState.setSema, hpc, LockPc.hasUnit, LockPc.isHolder]
  | setHolder t hpc => exact hs.storeHolder t hpc
  | clearHolder t hpc => exact hs.clearHolder t hpc
  | freed t hpc hw => exact hs.giveBack t hpc _
  | woke t hpc w rest hw =>
    -- the thread woken has no unit
    have hpcw := waiting_of_waiters hsema hw
    have hne : w ≠ t := by
      rintro rfl
      rw [hpc] at hpcw
      cases hpcw
    refine (hs.giveBack t hpc rest).goto w _ ?_ ?_ <;>
      simp [LockState.goto, LockState.setSema, hne, hpcw, LockPc.hasUnit, LockPc.isHolder]

lemma lockMachine_inv (h : lockMachine.Reachable s) : LockInv s := by
  refine h.invariant (fun s hs => ?_) fun s a s' hreach hs hstep => ?_
  · rw [show s = lockStart from hs]
    exact lockStart_inv
  · exact (LockTurn.of_exec (Machine.ofExec_step.mp hstep)).inv hs
      (semaMachine_inv (lockMachine_toSema hreach))

/-- An owner stays the owner until it calls `lock_release`. -/
lemma LockTurn.owner (h : LockTurn s a s') (hsema : SemaInv s.toSema) {u : T} (hu : s.pc u = .owner) :
    s'.pc u = .owner ∨ a = .release u := by
  -- the thread that moves is elsewhere in the lock's code
  have hmove {p : LockPc} {t : T} (hpc : s.pc t ≠ .owner) : update s.pc t p u = .owner := by
    have hne : u ≠ t := by
      rintro rfl
      exact hpc hu
    rw [update_of_ne hne]
    exact hu
  cases h with
  | acquire t hpc | tryAcquire t hpc | taken t hpc | refused t hpc | setHolder t hpc | clearHolder t hpc
  | freed t hpc => exact Or.inl (hmove (by rw [hpc]; decide))
  | passed t hpc | queued t hpc =>
    refine Or.inl (hmove ?_)
    rcases hpc with hpc | hpc <;> rw [hpc] <;> decide
  | release t hpc =>
    by_cases hne : u = t
    · exact Or.inr (by rw [hne])
    · left
      show update s.pc t _ u = .owner
      rw [update_of_ne hne]
      exact hu
  | woke t hpc w rest hw =>
    left
    have hne : u ≠ w := by
      rintro rfl
      cases hu.symm.trans (waiting_of_waiters hsema hw)
    show update (update s.pc t _) w _ u = .owner
    rw [update_of_ne hne]
    exact hmove (by rw [hpc]; decide)

/-- In a reachable state no ownership assertion fails. -/
lemma LockInv.no_fault (hs : LockInv s) (a : LockAction T) (f : LockAssert) :
    lockExec s a ≠ .error (.fault f) := by
  intro hf
  cases a with
  | acquire t | tryAcquire t =>
    simp only [lockExec] at hf
    split_ifs at hf with hpc hh
    · cases hf
    · have hholder := (hs.holder t).mp (by simpa [lockHeldByCurrentThread] using hh)
      rw [not_not.mp hpc] at hholder
      cases hholder
  | release t =>
    simp only [lockExec] at hf
    split_ifs at hf with hpc hh
    · cases hf
    · have hholder := (hs.holder t).mpr (by rw [not_not.mp hpc]; rfl)
      simp [lockHeldByCurrentThread, hholder] at hh
  | down t | tryDown t | setHolder t | clearHolder t | up t =>
    simp only [lockExec] at hf
    split at hf
    · cases hf
    · first
        | (split at hf <;> cases hf)
        | cases hf

/-- Mutual exclusion. In every state of every interleaving at most one thread is between a successful
acquire and its release, `holder` is that thread, the semaphore is 0 or 1 and 1 only
while nobody owns the lock, and no ownership assertion fails. -/
theorem lock_mutual_exclusion {s : LockState T} (h : lockMachine.Reachable s) :
    (∀ t u, s.pc t = .owner → s.pc u = .owner → t = u)
    ∧ (∀ t, s.pc t = .owner → s.lock.holder = some t)
    ∧ (s.lock.semaphore.value = 0 ∨ s.lock.semaphore.value = 1)
    ∧ (s.lock.semaphore.value = 1 → ∀ t, s.pc t ≠ .owner)
    ∧ ∀ a f, lockExec s a ≠ .error (.fault f) := by
  have hs := lockMachine_inv h
  refine ⟨fun t u ht hu => hs.owner_unique ht hu, ?_, ?_, ?_, hs.no_fault⟩
  · intro t ht
    exact (hs.holder t).mpr (by rw [ht]; rfl)
  · exact hs.unit.symm.imp And.left And.left
  · intro hone t ht
    obtain ⟨hzero, _⟩ := hs.of_hasUnit (t := t) (by rw [ht]; rfl)
    omega

/-- Thread 0 owns the lock and thread 1 waits for it. -/
theorem lock_mutual_exclusion_contended :
    ∃ s : LockState ℕ,
      lockMachine.run lockStart [.acquire 0, .down 0, .setHolder 0, .acquire 1, .down 1] = some s ∧
      s.pc 0 = .owner ∧ s.pc 1 = .waiting ∧ s.lock.holder = some 0 := by
  refine ⟨_, rfl, rfl, rfl, ?_⟩
  refine (lock_mutual_exclusion ⟨lockStart, [.acquire 0, .down 0, .setHolder 0, .acquire 1, .down 1],
    rfl, rfl⟩).2.1 0 rfl

end OsLabs.Threads
