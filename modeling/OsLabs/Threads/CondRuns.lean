import OsLabs.Threads.LockRuns

/-!
# One condition variable and its lock under every interleaving

The machine of `cond_wait`, `cond_signal` and `cond_broadcast` on one condition, built over the machine of
its lock. The callers hold the lock; preemption is possible between any two steps, in particular
between the `lock_release` and the `sema_down` of `cond_wait`.

The record a waiter registers (`struct semaphore_elem`) lives on its own stack, and a thread is in at
most one `cond_wait`, so a record is named by its thread: `waiters` is a list of threads and `sema t` is the
semaphore in the record of `t`. That private semaphore remembers a signal which arrives in the gap
before its thread blocks.
-/

namespace OsLabs.Threads

open Lib Function

/-- Where a thread is in the code of the condition variable. -/
inductive CondPc (T : Type) where
  /-- Not in the code of the condition variable. -/
  | outside
  /-- `cond_wait`: registered, in `lock_release`, or past it and before `sema_down`. -/
  | waitRelease
  /-- `cond_wait`: queued and blocked in `sema_down` on its own semaphore. -/
  | waitBlocked
  /-- `cond_wait`: popped by a `sema_up`, before the next test of the value. -/
  | waitAwakened
  /-- `cond_wait`: in the final `lock_acquire`. -/
  | waitAcquire
  /-- `cond_signal`: the record of `w` is popped, before `sema_up`; the flag tells whether
  `cond_broadcast` is the caller. -/
  | signalUp (w : T) (inBroadcast : Bool)
  /-- `cond_broadcast`: at the test of its loop. -/
  | broadcast
deriving DecidableEq

/-- The condition, its lock, the records and the position of every thread. -/
structure CondState (T : Type) where
  lock : LockState T
  waiters : List T
  sema : T → Semaphore T
  pc : T → CondPc T

/-- One step of one thread. -/
inductive CondAction (T : Type) where
  /-- A statement of the lock's code, by a client or inside `cond_wait`. -/
  | lock (a : LockAction T)
  /-- `cond_wait` up to its `lock_release`. -/
  | wait (t : T)
  /-- A turn of the loop of `sema_down (&waiter.semaphore)`. -/
  | down (t : T)
  /-- `cond_wait` returns. -/
  | returned (t : T)
  /-- `cond_signal` up to its `sema_up`. -/
  | signal (t : T)
  /-- The `sema_up` of `cond_signal`. -/
  | signalUp (t : T)
  /-- The call of `cond_broadcast`. -/
  | broadcast (t : T)
  /-- One test of the loop of `cond_broadcast`, with the `cond_signal` it calls up to its `sema_up`. -/
  | test (t : T)

/-- The assertions: those of the lock's code, and that the lock is held. -/
inductive CondAssert where
  | lock (f : LockAssert)
  | wait
  | signal
deriving DecidableEq

/-- The thread that executes a statement of the lock's code. -/
def LockAction.thread {T : Type} : LockAction T → T
  | .acquire t | .tryAcquire t | .down t | .tryDown t | .setHolder t | .release t | .clearHolder t
  | .up t => t

variable {T : Type} [DecidableEq T]

/-- Which statements of the lock's code a thread may be at: any for a client, those of `lock_release`
and of `lock_acquire` inside `cond_wait`. -/
def CondPc.mayLock : CondPc T → LockAction T → Bool
  | .outside, _ => true
  | .waitRelease, .release _ | .waitRelease, .clearHolder _ | .waitRelease, .up _ => true
  | .waitAcquire, .acquire _ | .waitAcquire, .down _ | .waitAcquire, .setHolder _ => true
  | _, _ => false

/-- The state with thread `t` moved to `p`. -/
@[simps -fullyApplied]
def CondState.goto (s : CondState T) (t : T) (p : CondPc T) : CondState T :=
  { s with pc := update s.pc t p }

/-- The state with another semaphore in the record of `t`. -/
@[simps -fullyApplied]
def CondState.setSema (s : CondState T) (t : T) (sema : Semaphore T) : CondState T :=
  { s with sema := update s.sema t sema }

/-- `thread_unblock` on the thread popped by `sema_up`, if any. -/
def CondState.wake (s : CondState T) : Option T → CondState T
  | none => s
  | some t => s.goto t .waitAwakened

/-- Where a `cond_signal` returns to. -/
def signalReturn (inBroadcast : Bool) : CondPc T :=
  if inBroadcast then .broadcast else .outside

/-- `cond_signal` by `t` up to its `sema_up`. -/
def condSignal (s : CondState T) (t : T) (inBroadcast : Bool) :
    Except (Halt CondAssert) (CondState T) :=
  if !lockHeldByCurrentThread s.lock.lock t then .error (.fault .signal)
  else
    match s.waiters with
    | [] => .ok (s.goto t (signalReturn inBroadcast))
    | w :: rest => .ok ({ s with waiters := rest }.goto t (.signalUp w inBroadcast))

/-- One step of the code of the condition variable. -/
def condExec (s : CondState T) : CondAction T → Except (Halt CondAssert) (CondState T)
  | .lock a =>
    if (s.pc a.thread).mayLock a then
      match lockExec s.lock a with
      | .ok lock => .ok { s with lock }
      | .error .disabled => .error .disabled
      | .error (.fault f) => .error (.fault (.lock f))
    else .error .disabled
  | .wait t =>
    if s.pc t ≠ .outside ∨ s.lock.pc t ≠ .owner then .error .disabled
    else if !lockHeldByCurrentThread s.lock.lock t then .error (.fault .wait)
    else
      .ok (({ s with waiters := s.waiters ++ [t] }.setSema t (semaInit 0)).goto t .waitRelease)
  | .down t =>
    if (s.pc t = .waitRelease ∧ s.lock.pc t = .outside) ∨ s.pc t = .waitAwakened then
      match semaDown (s.sema t) t with
      | (sema, true) => .ok ((s.setSema t sema).goto t .waitAcquire)
      | (sema, false) => .ok ((s.setSema t sema).goto t .waitBlocked)
    else .error .disabled
  | .returned t =>
    if s.pc t = .waitAcquire ∧ s.lock.pc t = .owner then .ok (s.goto t .outside)
    else .error .disabled
  | .signal t =>
    if s.pc t ≠ .outside ∨ s.lock.pc t ≠ .owner then .error .disabled
    else condSignal s t false
  | .signalUp t =>
    match s.pc t with
    | .signalUp w inBroadcast =>
      match semaUp (s.sema w) with
      | (sema, woken) => .ok (((s.setSema w sema).goto t (signalReturn inBroadcast)).wake woken)
    | _ => .error .disabled
  | .broadcast t =>
    if s.pc t ≠ .outside ∨ s.lock.pc t ≠ .owner then .error .disabled
    else .ok (s.goto t .broadcast)
  | .test t =>
    if s.pc t ≠ .broadcast then .error .disabled
    else if s.waiters = [] then .ok (s.goto t .outside)
    else condSignal s t true

/-- The state `cond_init` and `lock_init` leave. -/
def condStart : CondState T :=
  { lock := lockStart, waiters := [], sema := fun _ => semaInit 0, pc := fun _ => .outside }

/-- The machine of one condition variable. -/
def condMachine : Machine (CondState T) (CondAction T) :=
  .ofExec (fun s => s = condStart) condExec

/-! ## What one step can do -/

/-- Everything a step can do, guards included. -/
inductive CondTurn (s : CondState T) : CondAction T → CondState T → Prop
  | lock (a : LockAction T) (lock : LockState T) (hmay : (s.pc a.thread).mayLock a = true)
      (hexec : lockExec s.lock a = .ok lock) : CondTurn s (.lock a) { s with lock }
  | wait (t : T) (hpc : s.pc t = .outside) (hown : s.lock.pc t = .owner) :
      CondTurn s (.wait t)
        (({ s with waiters := s.waiters ++ [t] }.setSema t (semaInit 0)).goto t .waitRelease)
  | passed (t : T)
      (hpc : (s.pc t = .waitRelease ∧ s.lock.pc t = .outside) ∨ s.pc t = .waitAwakened)
      (hv : 0 < (s.sema t).value) :
      CondTurn s (.down t)
        ((s.setSema t { s.sema t with value := (s.sema t).value - 1 }).goto t .waitAcquire)
  | queued (t : T)
      (hpc : (s.pc t = .waitRelease ∧ s.lock.pc t = .outside) ∨ s.pc t = .waitAwakened)
      (hv : (s.sema t).value = 0) :
      CondTurn s (.down t)
        ((s.setSema t { s.sema t with waiters := (s.sema t).waiters ++ [t] }).goto t .waitBlocked)
  | returned (t : T) (hpc : s.pc t = .waitAcquire) (hown : s.lock.pc t = .owner) :
      CondTurn s (.returned t) (s.goto t .outside)
  | signalNone (t : T) (hpc : s.pc t = .outside) (hown : s.lock.pc t = .owner)
      (hw : s.waiters = []) : CondTurn s (.signal t) (s.goto t .outside)
  | signalPop (t : T) (hpc : s.pc t = .outside) (hown : s.lock.pc t = .owner) (w : T)
      (rest : List T) (hw : s.waiters = w :: rest) :
      CondTurn s (.signal t) ({ s with waiters := rest }.goto t (.signalUp w false))
  | signalUp (t w : T) (inBroadcast : Bool) (hpc : s.pc t = .signalUp w inBroadcast) :
      CondTurn s (.signalUp t)
        (((s.setSema w (semaUp (s.sema w)).1).goto t (signalReturn inBroadcast)).wake
          (semaUp (s.sema w)).2)
  | broadcast (t : T) (hpc : s.pc t = .outside) (hown : s.lock.pc t = .owner) :
      CondTurn s (.broadcast t) (s.goto t .broadcast)
  | testDone (t : T) (hpc : s.pc t = .broadcast) (hw : s.waiters = []) :
      CondTurn s (.test t) (s.goto t .outside)
  | testPop (t : T) (hpc : s.pc t = .broadcast) (w : T) (rest : List T)
      (hw : s.waiters = w :: rest) :
      CondTurn s (.test t) ({ s with waiters := rest }.goto t (.signalUp w true))

variable {s s' : CondState T} {a : CondAction T} {u t w : T} {p : CondPc T} {b : Bool}

lemma CondTurn.of_exec (h : condExec s a = .ok s') : CondTurn s a s' := by
  cases a with
  | lock a =>
    simp only [condExec] at h
    split_ifs at h with hmay
    cases hl : lockExec s.lock a with
    | ok lock =>
      rw [hl] at h
      cases h
      exact .lock a lock hmay hl
    | error e =>
      rw [hl] at h
      cases e <;> cases h
  | wait t =>
    simp only [condExec] at h
    split_ifs at h with hpc hh
    cases h
    obtain ⟨hpc, hown⟩ := not_or.mp hpc
    exact .wait t (not_not.mp hpc) (not_not.mp hown)
  | down t =>
    simp only [condExec] at h
    split_ifs at h with hpc
    rcases Nat.eq_zero_or_pos (s.sema t).value with hv | hv
    · rw [semaDown_of_zero hv] at h
      cases h
      exact .queued t hpc hv
    · rw [semaDown_of_pos hv] at h
      cases h
      exact .passed t hpc hv
  | returned t =>
    simp only [condExec] at h
    split_ifs at h with hpc
    cases h
    exact .returned t hpc.1 hpc.2
  | signal t =>
    simp only [condExec, condSignal] at h
    split_ifs at h with hpc hh
    obtain ⟨hpc, hown⟩ := not_or.mp hpc
    cases hw : s.waiters with
    | nil =>
      rw [hw] at h
      cases h
      exact .signalNone t (not_not.mp hpc) (not_not.mp hown) hw
    | cons w rest =>
      rw [hw] at h
      cases h
      exact .signalPop t (not_not.mp hpc) (not_not.mp hown) w rest hw
  | signalUp t =>
    simp only [condExec] at h
    split at h
    · rename_i w inBroadcast hpc
      cases h
      exact .signalUp t w inBroadcast hpc
    · cases h
  | broadcast t =>
    simp only [condExec] at h
    split_ifs at h with hpc
    cases h
    obtain ⟨hpc, hown⟩ := not_or.mp hpc
    exact .broadcast t (not_not.mp hpc) (not_not.mp hown)
  | test t =>
    simp only [condExec, condSignal] at h
    split_ifs at h with hpc hw hh
    · cases h
      exact .testDone t (not_not.mp hpc) hw
    · cases hw' : s.waiters with
      | nil => exact absurd hw' hw
      | cons w rest =>
        rw [hw'] at h
        cases h
        exact .testPop t (not_not.mp hpc) w rest hw'

/-! ## The lock under the condition variable -/

lemma CondTurn.toLock (h : CondTurn s a s') :
    s'.lock = s.lock ∨ ∃ b, lockMachine.step s.lock b = some s'.lock := by
  cases h with
  | lock a lock hmay hexec => exact Or.inr ⟨a, Machine.ofExec_step.mpr hexec⟩
  | signalUp t w inBroadcast hpc =>
    left
    cases hw : (semaUp (s.sema w)).2 <;> rfl
  | _ => exact Or.inl rfl

/-- The lock of a reachable condition variable is a reachable lock. -/
lemma condMachine_toLock (h : condMachine.Reachable s) : lockMachine.Reachable s.lock := by
  refine h.map CondState.lock (fun s hs => ?_) fun s a s' _ hstep => ?_
  · rw [show s = condStart from hs]
    rfl
  · exact (CondTurn.of_exec (Machine.ofExec_step.mp hstep)).toLock

/-! ## The invariant

A registered record is in one of three situations: still in `waiters`, popped with its `sema_up`
outstanding, or released. `CondInv` says which semaphore values and positions go with each. -/

/-- The thread is between the registration and the end of the `sema_down` of a `cond_wait`. -/
def CondPc.waits : CondPc T → Bool
  | .waitRelease | .waitBlocked | .waitAwakened => true
  | _ => false

/-- The thread is inside `cond_signal` or `cond_broadcast`. -/
def CondPc.signals : CondPc T → Bool
  | .signalUp _ _ | .broadcast => true
  | _ => false

/-- Some thread popped the record of `w` and has not done its `sema_up` yet. -/
def CondState.Pending (s : CondState T) (w : T) : Prop :=
  ∃ t b, s.pc t = .signalUp w b

/-- The record of `t` is registered and its semaphore still 0: `t` is on its way to block, or blocked. -/
def CondState.Unreleased (s : CondState T) (t : T) : Prop :=
  (s.pc t = .waitRelease ∧ s.sema t = semaInit 0) ∨
  (s.pc t = .waitBlocked ∧ s.sema t = { value := 0, waiters := [t] })

/-- `t` is in a `cond_wait` and its semaphore lets it pass. -/
def CondState.Released (s : CondState T) (t : T) : Prop :=
  (s.pc t = .waitRelease ∨ s.pc t = .waitAwakened) ∧ s.sema t = semaInit 1

/-- `t` is not waiting. -/
def CondState.Idle (s : CondState T) (t : T) : Prop :=
  (s.pc t).waits = false ∧ s.sema t = semaInit 0

/-- No record of `t` is waiting to be released. -/
def CondState.Settled (s : CondState T) (t : T) : Prop :=
  s.Released t ∨ s.Idle t

/-- What every reachable state of the condition variable satisfies. -/
structure CondInv (s : CondState T) : Prop where
  nodup : s.waiters.Nodup
  /-- Signalling threads own the lock, so there is at most one. -/
  owner : ∀ t, (s.pc t).signals = true → s.lock.pc t = .owner
  apart : ∀ t, t ∈ s.waiters → ¬s.Pending t
  unreleased : ∀ t, t ∈ s.waiters ∨ s.Pending t → s.Unreleased t
  settled : ∀ t, t ∉ s.waiters → ¬s.Pending t → s.Settled t

lemma CondState.setSema_self (s : CondState T) (t : T) : s.setSema t (s.sema t) = s := by
  simp only [CondState.setSema, update_eq_self]

omit [DecidableEq T] in
/-- The situation of a record depends only on the position and the semaphore of its thread. -/
lemma CondState.Unreleased.congr (h : s.Unreleased u) (hpc : s'.pc u = s.pc u) (hsema : s'.sema u = s.sema u) :
    s'.Unreleased u := by
  unfold CondState.Unreleased at h ⊢
  rwa [hpc, hsema]

omit [DecidableEq T] in
@[inherit_doc CondState.Unreleased.congr]
lemma CondState.Settled.congr (h : s.Settled u) (hpc : s'.pc u = s.pc u) (hsema : s'.sema u = s.sema u) :
    s'.Settled u := by
  unfold CondState.Settled CondState.Released CondState.Idle at h ⊢
  rwa [hpc, hsema]

omit [DecidableEq T] in
lemma CondState.Unreleased.waits (h : s.Unreleased t) : (s.pc t).waits = true := by
  rcases h with ⟨hpc, _⟩ | ⟨hpc, _⟩ <;> simp [hpc, CondPc.waits]

omit [DecidableEq T] in
lemma CondState.Unreleased.value (h : s.Unreleased t) : (s.sema t).value = 0 := by
  rcases h with ⟨_, hsema⟩ | ⟨_, hsema⟩ <;> simp [hsema]

omit [DecidableEq T] in
lemma CondState.Released.waits (h : s.Released t) : (s.pc t).waits = true := by
  rcases h.1 with hpc | hpc <;> simp [hpc, CondPc.waits]

section CondInv

variable (hs : CondInv s)
include hs

omit [DecidableEq T] in
/-- The record of a thread that does not wait is in no list and in nobody's hands. -/
lemma CondInv.of_not_waits (ht : (s.pc t).waits = false) :
    t ∉ s.waiters ∧ ¬s.Pending t ∧ s.sema t = semaInit 0 := by
  have hnot : ¬(t ∈ s.waiters ∨ s.Pending t) := by
    intro h
    have hw := (hs.unreleased t h).waits
    rw [ht] at hw
    cases hw
  obtain ⟨hmem, hpend⟩ := not_or.mp hnot
  refine ⟨hmem, hpend, ?_⟩
  rcases hs.settled t hmem hpend with hrel | hidle
  · have hw := hrel.waits
    rw [ht] at hw
    cases hw
  · exact hidle.2

omit [DecidableEq T] in
/-- A thread that may test its semaphore passes exactly when it was released. -/
lemma CondInv.released_of_pos (hv : 0 < (s.sema t).value) :
    t ∉ s.waiters ∧ ¬s.Pending t ∧ s.Released t := by
  have hnot : ¬(t ∈ s.waiters ∨ s.Pending t) := by
    intro h
    have hzero := (hs.unreleased t h).value
    omega
  obtain ⟨hmem, hpend⟩ := not_or.mp hnot
  refine ⟨hmem, hpend, ?_⟩
  rcases hs.settled t hmem hpend with hrel | hidle
  · exact hrel
  · rw [hidle.2] at hv
    cases hv

omit hs in
/-- Moving a thread that is not at a `sema_up` of `cond_signal`, and stays so, leaves the outstanding
records alone. -/
lemma CondState.pending_update (hpc : s'.pc = update s.pc t p) (hold : ∀ w b, s.pc t ≠ .signalUp w b)
    (hnew : ∀ w b, p ≠ .signalUp w b) (w : T) : s'.Pending w ↔ s.Pending w := by
  unfold CondState.Pending
  rw [hpc]
  constructor
  · rintro ⟨u, b, hu⟩
    exact ⟨u, b, by grind⟩
  · rintro ⟨u, b, hu⟩
    exact ⟨u, b, by grind⟩

omit [DecidableEq T] hs in
/-- A thread that may test its own semaphore is not at a `sema_up` of `cond_signal`. -/
lemma CondState.not_signalUp {p : Prop} (hpc : (s.pc t = .waitRelease ∧ p) ∨ s.pc t = .waitAwakened) (w : T)
    (b : Bool) : s.pc t ≠ .signalUp w b := by
  intro hc
  rcases hpc with ⟨hpc, _⟩ | hpc <;> rw [hc] at hpc <;> cases hpc

/-- The record of `u` is in the situation that goes with where it is. -/
def CondState.RecordOk (s : CondState T) (u : T) : Prop :=
  (u ∈ s.waiters → ¬s.Pending u) ∧ (u ∈ s.waiters ∨ s.Pending u → s.Unreleased u) ∧
    (u ∉ s.waiters → ¬s.Pending u → s.Settled u)

omit [DecidableEq T] in
/-- A step keeps the invariant if it leaves the records that it touches in the right situation. -/
lemma CondInv.change (hlock : s'.lock = s.lock) (hnodup : s'.waiters.Nodup)
    (hsame : ∀ u, (s'.pc u = s.pc u ∧ s'.sema u = s.sema u ∧ (u ∈ s'.waiters ↔ u ∈ s.waiters) ∧
      (s'.Pending u ↔ s.Pending u)) ∨ ((s'.pc u).signals = true → s.lock.pc u = .owner) ∧ s'.RecordOk u) :
    CondInv s' := by
  refine ⟨hnodup, fun u hu => ?_, fun u hu => ?_, fun u hu => ?_, fun u hmem hp => ?_⟩ <;>
    rcases hsame u with ⟨hpc, hsema, hmem', hpend⟩ | ⟨hown, hok⟩
  · rw [hlock]
    exact hs.owner u (hpc ▸ hu)
  · rw [hlock]
    exact hown hu
  · rw [hpend]
    exact hs.apart u (hmem'.mp hu)
  · exact hok.1 hu
  · rw [hmem', hpend] at hu
    exact (hs.unreleased u hu).congr hpc hsema
  · exact hok.2.1 hu
  · rw [hmem'] at hmem
    rw [hpend] at hp
    exact (hs.settled u hmem hp).congr hpc hsema
  · exact hok.2.2 hmem hp

/-- A step of `t` alone. -/
lemma CondInv.move (t : T) (p) (sema : Semaphore T)
    (hold : ∀ w b, s.pc t ≠ .signalUp w b) (hnew : ∀ w b, p ≠ .signalUp w b)
    (hown : p.signals = true → s.lock.pc t = .owner)
    (hun : t ∈ s.waiters ∨ s.Pending t → ((s.setSema t sema).goto t p).Unreleased t)
    (hset : t ∉ s.waiters → ¬s.Pending t → ((s.setSema t sema).goto t p).Settled t) :
    CondInv ((s.setSema t sema).goto t p) := by
  have hpend : ∀ w, ((s.setSema t sema).goto t p).Pending w ↔ s.Pending w :=
    CondState.pending_update rfl hold hnew
  refine hs.change rfl hs.nodup fun u => ?_
  by_cases h : u = t
  · subst h
    refine Or.inr ⟨by simpa using hown, ?_⟩
    unfold CondState.RecordOk
    rw [hpend]
    exact ⟨hs.apart u, hun, hset⟩
  · exact Or.inl ⟨by simp [h], by simp [h], Iff.rfl, hpend u⟩

/-- A step between two positions outside `cond_wait`'s waiting part. -/
lemma CondInv.move_idle (t : T) (p) (hold : ∀ w b, s.pc t ≠ .signalUp w b)
    (hnew : ∀ w b, p ≠ .signalUp w b) (hown : p.signals = true → s.lock.pc t = .owner)
    (hidle : (s.pc t).waits = false) (hidle' : p.waits = false) : CondInv (s.goto t p) := by
  obtain ⟨hmem, hpend, hsema⟩ := hs.of_not_waits hidle
  have hmove := hs.move t p (s.sema t) hold hnew hown
    (fun h => absurd h (not_or.mpr ⟨hmem, hpend⟩))
    (fun _ _ => Or.inr ⟨by simpa using hidle', by simpa using hsema⟩)
  rwa [CondState.setSema_self] at hmove

/-- `cond_wait` registers a fresh record. -/
lemma CondInv.wait (hpc : s.pc t = .outside) :
    CondInv (({ s with waiters := s.waiters ++ [t] }.setSema t (semaInit 0)).goto t .waitRelease) := by
  obtain ⟨hmem, hpend, _⟩ := hs.of_not_waits (by rw [hpc]; rfl)
  have hpend' : ∀ w, (({ s with waiters := s.waiters ++ [t] }.setSema t (semaInit 0)).goto t
      .waitRelease).Pending w ↔ s.Pending w :=
    CondState.pending_update rfl (by simp [hpc]) (by simp)
  refine hs.change rfl (by simpa using List.Nodup.concat hmem hs.nodup) fun u => ?_
  by_cases h : u = t
  · subst h
    refine Or.inr ⟨by simp [CondPc.signals], fun _ => ?_, fun _ => Or.inl ⟨by simp, by simp⟩, fun hu => ?_⟩
    · rw [hpend']
      exact hpend
    · simp at hu
  · exact Or.inl ⟨by simp [h], by simp [h], by simp [h], hpend' u⟩

/-- `cond_signal` pops the front record: it goes from `waiters` into the hands of `t`. -/
lemma CondInv.pop {rest : List T} (b : Bool) (hpc : s.pc t = .outside ∨ s.pc t = .broadcast)
    (hown : s.lock.pc t = .owner) (hw : s.waiters = w :: rest) :
    CondInv ({ s with waiters := rest }.goto t (.signalUp w b)) := by
  have hidle : (s.pc t).waits = false := by rcases hpc with hpc | hpc <;> rw [hpc] <;> rfl
  obtain ⟨hmem, hnone, hsema⟩ := hs.of_not_waits hidle
  have hnd := hs.nodup
  rw [hw, List.nodup_cons] at hnd
  have hpend : ∀ u, ({ s with waiters := rest }.goto t (.signalUp w b)).Pending u ↔
      u = w ∨ s.Pending u := by
    intro u
    unfold CondState.Pending
    rw [CondState.goto_pc]
    constructor
    · rintro ⟨v, c, hv⟩
      by_cases h : v = t
      · exact Or.inl (by grind)
      · exact Or.inr ⟨v, c, by grind⟩
    · rintro (rfl | ⟨v, c, hv⟩)
      · exact ⟨t, b, by simp⟩
      · exact ⟨v, c, by grind⟩
  refine hs.change rfl hnd.2 fun u => ?_
  have hpend := hpend u
  by_cases h : u = t
  · -- the record of `t` is in no list
    subst h
    have hwu : u ≠ w := fun h => hmem (by rw [hw, h]; exact List.mem_cons_self ..)
    have hrest : u ∉ rest := fun h => hmem (by rw [hw]; exact List.mem_cons_of_mem w h)
    have hpend : ¬({ s with waiters := rest }.goto u (.signalUp w b)).Pending u := by
      rw [hpend]
      exact not_or.mpr ⟨hwu, hnone⟩
    exact Or.inr ⟨fun _ => hown, fun _ => hpend, fun h => absurd h (not_or.mpr ⟨hrest, hpend⟩),
      fun _ _ => Or.inr ⟨by simp [CondPc.waits], by simpa using hsema⟩⟩
  · by_cases huw : u = w
    · -- this record is outstanding now
      subst huw
      have hun := hs.unreleased u (Or.inl (by rw [hw]; exact List.mem_cons_self ..))
      refine Or.inr ⟨fun hu => hs.owner u (by simpa [h] using hu), fun hu => absurd hu hnd.1,
        fun _ => hun.congr (by simp [h]) (by simp), fun _ hp => absurd (hpend.mpr (Or.inl rfl)) hp⟩
    · refine Or.inl ⟨by simp [h], by simp, ?_, hpend.trans (or_iff_right huw)⟩
      rw [hw, List.mem_cons]
      exact (or_iff_right huw).symm

omit hs in
/-- What the `sema_up` of `cond_signal` does to a record that is not yet released: its semaphore goes to
1, and its thread wakes up if it was blocked. -/
lemma CondState.Unreleased.signalUp (h : s.Unreleased w) (t : T) (p) :
    (s.pc w = .waitRelease ∧
      ((s.setSema w (semaUp (s.sema w)).1).goto t p).wake (semaUp (s.sema w)).2
        = (s.setSema w (semaInit 1)).goto t p) ∨
    (s.pc w = .waitBlocked ∧
      ((s.setSema w (semaUp (s.sema w)).1).goto t p).wake (semaUp (s.sema w)).2
        = ((s.setSema w (semaInit 1)).goto t p).goto w .waitAwakened) := by
  rcases h with ⟨hpc, hsema⟩ | ⟨hpc, hsema⟩
  · refine Or.inl ⟨hpc, ?_⟩
    rw [hsema]
    rfl
  · refine Or.inr ⟨hpc, ?_⟩
    rw [hsema]
    rfl

omit [DecidableEq T] in
/-- A thread does not signal itself. -/
lemma CondInv.signalUp_ne (hpc : s.pc t = .signalUp w b) : w ≠ t := by
  rintro rfl
  have hw := (hs.unreleased w (Or.inr ⟨w, b, hpc⟩)).waits
  rw [hpc] at hw
  cases hw

omit [DecidableEq T] in
/-- The owner of the lock is the only thread at a `sema_up`. -/
lemma CondInv.signalUp_unique (hlock : LockInv s.lock) {v : T} {c : Bool}
    (ht : s.pc t = .signalUp w b) (hu : s.pc u = .signalUp v c) : u = t ∧ v = w := by
  obtain rfl := hlock.owner_unique (hs.owner u (by rw [hu]; rfl)) (hs.owner t (by rw [ht]; rfl))
  rw [ht] at hu
  cases hu
  exact ⟨rfl, rfl⟩

omit [DecidableEq T] hs in
lemma signalReturn_waits (b : Bool) : (signalReturn b : CondPc T).waits = false := by
  cases b <;> rfl

omit [DecidableEq T] hs in
lemma signalReturn_ne (b : Bool) (w : T) (c : Bool) : (signalReturn b : CondPc T) ≠ .signalUp w c := by
  cases b <;> simp [signalReturn]

/-- Once the record is released, no other one is outstanding. -/
lemma CondInv.released_pending (hlock : LockInv s.lock) (hpc : s.pc t = .signalUp w b)
    (hp : p.waits = true) (hpc' : s'.pc = update (update s.pc t (signalReturn b)) w p) (u : T) :
    ¬s'.Pending u := by
  rintro ⟨v, c, hv⟩
  rw [hpc'] at hv
  by_cases hvw : v = w
  · rw [hvw, update_self] at hv
    rw [hv] at hp
    cases hp
  · rw [update_of_ne hvw] at hv
    by_cases hvt : v = t
    · rw [hvt, update_self] at hv
      exact signalReturn_ne b u c hv
    · rw [update_of_ne hvt] at hv
      exact hvt (hs.signalUp_unique hlock hpc hv).1

/-- Raising the semaphore of the popped record keeps the invariant, whether its thread was blocked or not. -/
lemma CondInv.released (hlock : LockInv s.lock) (hpc : s.pc t = .signalUp w b)
    (hp : p = .waitRelease ∨ p = .waitAwakened) (hlock' : s'.lock = s.lock) (hwaiters' : s'.waiters = s.waiters)
    (hsema' : s'.sema = update s.sema w (semaInit 1))
    (hpc' : s'.pc = update (update s.pc t (signalReturn b)) w p) : CondInv s' := by
  have hnone : ∀ u, ¬s'.Pending u :=
    hs.released_pending hlock hpc (by rcases hp with rfl | rfl <;> rfl) hpc'
  have hmem : w ∉ s.waiters := fun hmem => hs.apart w hmem ⟨t, b, hpc⟩
  obtain ⟨hidle, -, hsema⟩ := hs.of_not_waits (by rw [hpc]; rfl)
  refine hs.change hlock' (by rw [hwaiters']; exact hs.nodup) fun u => ?_
  by_cases huw : u = w
  · subst huw
    refine Or.inr ⟨fun hu => ?_, fun _ => hnone u, fun h => absurd h (not_or.mpr ⟨by rwa [hwaiters'], hnone u⟩),
      fun _ _ => Or.inl ⟨by rw [hpc', update_self]; exact hp, by rw [hsema', update_self]⟩⟩
    rw [hpc'] at hu
    rcases hp with hp | hp <;> simp [hp, CondPc.signals] at hu
  · by_cases hut : u = t
    · subst hut
      refine Or.inr ⟨fun _ => hs.owner u (by rw [hpc]; rfl), fun _ => hnone u,
        fun h => absurd h (not_or.mpr ⟨by rwa [hwaiters'], hnone u⟩), fun _ _ => Or.inr ⟨?_, ?_⟩⟩
      · rw [hpc', update_of_ne huw, update_self]
        exact signalReturn_waits b
      · simpa [hsema', huw] using hsema
    · have hpend : ¬s.Pending u := by
        rintro ⟨v, c, hv⟩
        exact huw (hs.signalUp_unique hlock hpc hv).2
      exact Or.inl ⟨by simp [hpc', huw, hut], by simp [hsema', huw], by rw [hwaiters'], iff_of_false (hnone u) hpend⟩

/-- The `sema_up` of `cond_signal` releases the record it popped. -/
lemma CondInv.signalUp (hlock : LockInv s.lock) (hpc : s.pc t = .signalUp w b) :
    CondInv (((s.setSema w (semaUp (s.sema w)).1).goto t (signalReturn b)).wake
      (semaUp (s.sema w)).2) := by
  have hun := hs.unreleased w (Or.inr ⟨t, b, hpc⟩)
  rcases hun.signalUp t (signalReturn b) with ⟨hw, heq⟩ | ⟨hw, heq⟩
  · rw [heq]
    refine hs.released hlock hpc (Or.inl rfl) rfl rfl rfl ?_
    simp only [CondState.goto_pc, CondState.setSema_pc]
    rw [← hw, update_comm (hs.signalUp_ne hpc).symm, update_eq_self]
  · rw [heq]
    exact hs.released hlock hpc (Or.inr rfl) rfl rfl rfl rfl

/-- Statements of the lock's code do not touch the records. -/
lemma CondInv.lock (hsema : SemaInv s.lock.toSema) {a : LockAction T} {lock : LockState T}
    (hmay : (s.pc a.thread).mayLock a = true) (hturn : LockTurn s.lock a lock) : CondInv { s with lock } := by
  refine ⟨hs.nodup, fun u hu => ?_, hs.apart, hs.unreleased, hs.settled⟩
  have hne : u ≠ a.thread := by
    rintro rfl
    cases hp : s.pc a.thread <;> simp_all [CondPc.signals, CondPc.mayLock]
  refine (hturn.owner hsema (hs.owner u hu)).resolve_right ?_
  rintro rfl
  exact hne rfl

end CondInv

lemma CondTurn.inv (h : CondTurn s a s') (hlock : LockInv s.lock) (hsema : SemaInv s.lock.toSema)
    (hs : CondInv s) : CondInv s' := by
  cases h with
  | lock a lock hmay hexec => exact hs.lock hsema hmay (LockTurn.of_exec hexec)
  | wait t hpc hown => exact hs.wait hpc
  | passed t hpc hv =>
    obtain ⟨hmem, hpend, hrel⟩ := hs.released_of_pos hv
    refine hs.move t _ _ (CondState.not_signalUp hpc) (by simp) (by simp [CondPc.signals])
      (fun h => absurd h (not_or.mpr ⟨hmem, hpend⟩)) ?_
    intro _ _
    refine Or.inr ⟨by simp [CondPc.waits], ?_⟩
    simp [hrel.2, semaInit]
  | queued t hpc hv =>
    have hwaits : (s.pc t).waits = true := by
      rcases hpc with ⟨hpc, _⟩ | hpc <;> rw [hpc] <;> rfl
    refine hs.move t _ _ (CondState.not_signalUp hpc) (by simp) (by simp [CondPc.signals]) (fun hreg => ?_)
      (fun hmem hpend => ?_)
    · -- a registered thread that may test its semaphore has not blocked before
      have hzero : s.sema t = semaInit 0 := by
        rcases hs.unreleased t hreg with ⟨_, hzero⟩ | ⟨hblocked, _⟩
        · exact hzero
        · rcases hpc with ⟨hpc, _⟩ | hpc <;> rw [hblocked] at hpc <;> cases hpc
      exact Or.inr ⟨by simp, by simp [hzero]⟩
    · rcases hs.settled t hmem hpend with hrel | hidle
      · rw [hrel.2] at hv
        cases hv
      · rw [hidle.1] at hwaits
        cases hwaits
  | returned t hpc | signalNone t hpc | testDone t hpc =>
    exact hs.move_idle t _ (by simp [hpc]) (by simp) (by simp [CondPc.signals]) (by rw [hpc]; rfl) rfl
  | signalPop t hpc hown w rest hw => exact hs.pop false (Or.inl hpc) hown hw
  | signalUp t w b hpc => exact hs.signalUp hlock hpc
  | broadcast t hpc hown =>
    exact hs.move_idle t _ (by simp [hpc]) (by simp) (fun _ => hown) (by rw [hpc]; rfl) rfl
  | testPop t hpc w rest hw =>
    exact hs.pop true (Or.inr hpc) (hs.owner t (by rw [hpc]; rfl)) hw

omit [DecidableEq T] in
lemma condStart_inv : CondInv (condStart : CondState T) where
  nodup := List.nodup_nil
  owner t h := by cases h
  apart t h := by cases h
  unreleased t h := by
    rcases h with h | ⟨u, b, h⟩ <;> cases h
  settled t _ _ := Or.inr ⟨rfl, rfl⟩

lemma condMachine_inv (h : condMachine.Reachable s) : CondInv s := by
  refine h.invariant (fun s hs => ?_) fun s a s' hreach hs hstep => ?_
  · rw [show s = condStart from hs]
    exact condStart_inv
  · have hlock := condMachine_toLock hreach
    exact (CondTurn.of_exec (Machine.ofExec_step.mp hstep)).inv (lockMachine_inv hlock)
      (semaMachine_inv (lockMachine_toSema hlock)) hs

/-- In a reachable state no assertion fails. -/
lemma condMachine_no_fault (h : condMachine.Reachable s) (a) (f : CondAssert) :
    condExec s a ≠ .error (.fault f) := by
  have hlock := lockMachine_inv (condMachine_toLock h)
  have hinv := condMachine_inv h
  -- owners are stored in `holder`
  have hheld : ∀ t, s.lock.pc t = .owner → lockHeldByCurrentThread s.lock.lock t = true := by
    intro t ht
    have := (hlock.holder t).mpr (by rw [ht]; rfl)
    simpa [lockHeldByCurrentThread] using this
  have hsignal : ∀ t b, s.lock.pc t = .owner → condSignal s t b ≠ .error (.fault f) := by
    intro t b ht hf
    simp only [condSignal, hheld t ht] at hf
    cases hw : s.waiters <;> rw [hw] at hf <;> cases hf
  intro hf
  cases a with
  | lock a =>
    simp only [condExec] at hf
    split_ifs at hf with hmay
    · cases hl : lockExec s.lock a with
      | ok lock => rw [hl] at hf; cases hf
      | error e =>
        rw [hl] at hf
        cases e with
        | disabled => cases hf
        | fault g => exact hlock.no_fault a g hl
    · cases hf
  | wait t =>
    simp only [condExec] at hf
    split_ifs at hf with hpc hh
    · cases hf
    · rw [hheld t (not_not.mp (not_or.mp hpc).2)] at hh
      cases hh
  | down t =>
    simp only [condExec] at hf
    split_ifs at hf with hpc
    · split at hf <;> cases hf
    · cases hf
  | returned t =>
    simp only [condExec] at hf
    split_ifs at hf
    cases hf
  | signal t =>
    simp only [condExec] at hf
    split_ifs at hf with hpc
    · cases hf
    · exact hsignal t false (not_not.mp (not_or.mp hpc).2) hf
  | signalUp t =>
    simp only [condExec] at hf
    split at hf <;> cases hf
  | broadcast t =>
    simp only [condExec] at hf
    split_ifs at hf
    cases hf
  | test t =>
    simp only [condExec] at hf
    split_ifs at hf with hpc hw
    · cases hf
    · exact hsignal t true (hinv.owner t (by rw [not_not.mp hpc]; rfl)) hf

end OsLabs.Threads
