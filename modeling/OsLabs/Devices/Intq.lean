import OsLabs.Lib.Ensures
import OsLabs.Lib.Ring
import OsLabs.Threads.Synch

/-!
# Interrupt queues

`devices/intq.c`: one queue, any number of threads that call `intq_getc` and `intq_putc`, and interrupt handlers that call
them when they need not wait. The functions run with interrupts off, so what a thread does up to the point where it blocks
or returns is one step; a step is a call, the continuation of a thread that was unblocked, or a call by a handler.

`intq_getc` tests the condition, then acquires the lock, then waits. A thread that has to wait for the lock does not test
the condition again when it gets it, so the assertion of `wait` fails if the condition came true in the meantime
(`wait_assertion_fails`). The results are about the runs in which no thread has to wait for the lock.
-/

namespace OsLabs.Devices

open Lib Threads Function

/-! ## The queue -/

/-- The two calls of a queue. -/
inductive QueueOp where
  | getc
  | putc (byte : UInt8)
deriving DecidableEq

/-- The two members of a queue that a thread is registered in, by the condition it waits for. -/
inductive Condition where
  | notFull
  | notEmpty
deriving DecidableEq

/-- Where a thread is in `intq_getc` or `intq_putc`. -/
inductive IntqPc where
  /-- In neither of them. -/
  | outside
  /-- Queued and blocked in `sema_down`, called by `lock_acquire`. -/
  | queued (op : QueueOp)
  /-- Unblocked by `sema_up`, before the next test of the value. -/
  | awakened (op : QueueOp)
  /-- Registered and blocked in `wait`. -/
  | waiting (op : QueueOp)
  /-- Unblocked by `signal`, before `lock_release`. -/
  | woken (op : QueueOp)
deriving DecidableEq

/-- `struct intq`, with the position of every thread. -/
structure Intq (T : Type) where
  lock : Lock T
  notFull : Option T
  notEmpty : Option T
  ring : Ring UInt8 64
  pc : T → IntqPc

/-- The assertions of `intq.c`, and those of the functions it calls. -/
inductive IntqAssert where
  | wait
  | signal
  | threadUnblock
  | lockAcquire
  | lockRelease
deriving DecidableEq

variable {T : Type} [DecidableEq T]

/-- The condition is true. -/
def Intq.Holds (q : Intq T) : Condition → Prop
  | .notFull => ¬q.ring.Full
  | .notEmpty => ¬q.ring.Empty

instance (q : Intq T) (c : Condition) : Decidable (q.Holds c) :=
  match c with
  | .notFull => inferInstanceAs (Decidable (¬q.ring.Full))
  | .notEmpty => inferInstanceAs (Decidable (¬q.ring.Empty))

/-- The thread registered for the condition. -/
def Intq.waiter (q : Intq T) : Condition → Option T
  | .notFull => q.notFull
  | .notEmpty => q.notEmpty

def Intq.setWaiter (q : Intq T) (w : Option T) : Condition → Intq T
  | .notFull => { q with notFull := w }
  | .notEmpty => { q with notEmpty := w }

def Intq.goto (q : Intq T) (t : T) (p : IntqPc) : Intq T :=
  { q with pc := update q.pc t p }

/-- What a call waits for. -/
def QueueOp.needs : QueueOp → Condition
  | .getc => .notEmpty
  | .putc _ => .notFull

/-- What a call signals at its end. -/
def QueueOp.makes : QueueOp → Condition
  | .getc => .notFull
  | .putc _ => .notEmpty

/-- What a call does to the buffer. -/
def QueueOp.apply (ring : Ring UInt8 64) : QueueOp → Ring UInt8 64
  | .getc => ring.pop
  | .putc byte => ring.push byte

/-! ## The code -/

/-- `thread_unblock`. -/
def threadUnblock (q : Intq T) (t : T) : Except (Halt IntqAssert) (Intq T) :=
  match q.pc t with
  | .queued op => .ok (q.goto t (.awakened op))
  | .waiting op => .ok (q.goto t (.woken op))
  | _ => .error (.fault .threadUnblock)

/-- `signal`. -/
def signal (q : Intq T) (c : Condition) : Except (Halt IntqAssert) (Intq T) :=
  if ¬q.Holds c then .error (.fault .signal)
  else
    match q.waiter c with
    | none => .ok q
    | some t => do
      let q ← threadUnblock q t
      return q.setWaiter none c

/-- `wait`, up to the point where the thread blocks. -/
def wait (q : Intq T) (t : T) (op : QueueOp) : Except (Halt IntqAssert) (Intq T) :=
  if q.Holds op.needs then .error (.fault .wait)
  else .ok ((q.setWaiter (some t) op.needs).goto t (.waiting op))

/-- A turn of `sema_down` in `lock_acquire`, and `wait` if it gets through. -/
def acquireAndWait (q : Intq T) (t : T) (op : QueueOp) : Except (Halt IntqAssert) (Intq T) :=
  match semaDown q.lock.semaphore t with
  | (semaphore, true) => wait { q with lock := { holder := some t, semaphore } } t op
  | (semaphore, false) => .ok ({ q with lock := { q.lock with semaphore } }.goto t (.queued op))

/-- The rest of `intq_getc` or `intq_putc` after the loop. -/
def complete (q : Intq T) (op : QueueOp) : Except (Halt IntqAssert) (Intq T) :=
  signal { q with ring := op.apply q.ring } op.makes

/-- `intq_getc` or `intq_putc` from the test of the loop on. -/
def enter (q : Intq T) (t : T) (op : QueueOp) : Except (Halt IntqAssert) (Intq T) :=
  if q.Holds op.needs then complete (q.goto t .outside) op
  else if lockHeldByCurrentThread q.lock t then .error (.fault .lockAcquire)
  else acquireAndWait q t op

/-- `lock_release`. -/
def lockRelease (q : Intq T) (t : T) : Except (Halt IntqAssert) (Intq T) :=
  if !lockHeldByCurrentThread q.lock t then .error (.fault .lockRelease)
  else
    match semaUp q.lock.semaphore with
    | (semaphore, none) => .ok { q with lock := { holder := none, semaphore } }
    | (semaphore, some u) => threadUnblock { q with lock := { holder := none, semaphore } } u

/-- The steps of a queue. -/
inductive IntqAction (T : Type) where
  /-- A thread calls one of the functions. -/
  | call (t : T) (op : QueueOp)
  /-- A thread that was unblocked goes on. -/
  | resume (t : T)
  /-- An interrupt handler calls one of the functions, which it does only if there is no need to wait. -/
  | handler (op : QueueOp)
deriving DecidableEq

def intqExec (q : Intq T) : IntqAction T → Except (Halt IntqAssert) (Intq T)
  | .call t op => if q.pc t ≠ .outside then .error .disabled else enter q t op
  | .resume t =>
    match q.pc t with
    | .awakened op => acquireAndWait q t op
    | .woken op => do
      let q ← lockRelease q t
      enter q t op
    | _ => .error .disabled
  | .handler op => if ¬q.Holds op.needs then .error .disabled else complete q op

/-- The queue that `intq_init` leaves, whatever is in the buffer. -/
def intqInit (buf : ℕ → UInt8) : Intq T where
  lock := lockInit
  notFull := none
  notEmpty := none
  ring := { buf, head := 0, tail := 0, head_lt := by decide, tail_lt := by decide }
  pc _ := .outside

omit [DecidableEq T] in
@[simp] lemma intqInit_contents (buf : ℕ → UInt8) : (intqInit buf : Intq T).ring.contents = [] := by
  rw [Ring.contents_eq_nil_iff]
  show 0 = 0
  rfl

def intqMachine : Machine (Intq T) (IntqAction T) :=
  .ofExec (fun q => ∃ buf, q = intqInit buf) intqExec

/-! ## Queues in which one thread waits at most -/

/-- A thread that has to wait finds the lock free. -/
def Uncontended (q : Intq T) : IntqAction T → Prop
  | .call _ op => q.Holds op.needs ∨ q.lock.holder = none
  | _ => True

instance (q : Intq T) (a : IntqAction T) : Decidable (Uncontended q a) :=
  match a with
  | .call _ _ => inferInstanceAs (Decidable (_ ∨ _))
  | .resume _ | .handler _ => inferInstanceAs (Decidable True)

/-- Every thread but `t` is outside. -/
def Intq.Alone (q : Intq T) (t : T) : Prop :=
  ∀ u, u ≠ t → q.pc u = .outside

/-- Who waits: nobody, one thread that is registered for a condition that is not true, or one that was unblocked. -/
inductive IntqInv (q : Intq T) : Prop
  | idle (hlock : q.lock = lockInit) (hpc : ∀ t, q.pc t = .outside) (hnone : ∀ c, q.waiter c = none)
  | waiting (t : T) (op : QueueOp) (hlock : q.lock = ⟨some t, semaInit 0⟩) (hpc : q.pc t = .waiting op)
      (halone : q.Alone t) (hwaiter : q.waiter op.needs = some t) (hnone : ∀ c, c ≠ op.needs → q.waiter c = none)
      (hnot : ¬q.Holds op.needs)
  | woken (t : T) (op : QueueOp) (hlock : q.lock = ⟨some t, semaInit 0⟩) (hpc : q.pc t = .woken op)
      (halone : q.Alone t) (hnone : ∀ c, q.waiter c = none)

section Frame

variable (q : Intq T) (t : T) (p : IntqPc) (w : Option T) (c c' : Condition) (ring : Ring UInt8 64)

@[simp] lemma Intq.goto_lock : (q.goto t p).lock = q.lock := rfl

@[simp] lemma Intq.goto_ring : (q.goto t p).ring = q.ring := rfl

@[simp] lemma Intq.goto_waiter : (q.goto t p).waiter c = q.waiter c := by
  cases c <;> rfl

@[simp] lemma Intq.goto_holds : (q.goto t p).Holds c ↔ q.Holds c := by
  cases c <;> exact Iff.rfl

@[simp] lemma Intq.goto_pc_self : (q.goto t p).pc t = p :=
  update_self ..

variable {t} in
lemma Intq.goto_pc_of_ne {u : T} (h : u ≠ t) : (q.goto t p).pc u = q.pc u :=
  update_of_ne h ..

omit [DecidableEq T]

@[simp] lemma Intq.setWaiter_lock : (q.setWaiter w c).lock = q.lock := by
  cases c <;> rfl

@[simp] lemma Intq.setWaiter_ring : (q.setWaiter w c).ring = q.ring := by
  cases c <;> rfl

@[simp] lemma Intq.setWaiter_pc : (q.setWaiter w c).pc = q.pc := by
  cases c <;> rfl

@[simp] lemma Intq.waiter_setWaiter_self : (q.setWaiter w c).waiter c = w := by
  cases c <;> rfl

variable {c c'} in
lemma Intq.waiter_setWaiter_of_ne (h : c' ≠ c) : (q.setWaiter w c).waiter c' = q.waiter c' := by
  cases c <;> cases c' <;> first | rfl | exact absurd rfl h

@[simp] lemma Intq.setWaiter_holds : (q.setWaiter w c).Holds c' ↔ q.Holds c' := by
  cases c <;> cases c' <;> exact Iff.rfl

@[simp] lemma Intq.ring_waiter : ({ q with ring } : Intq T).waiter c = q.waiter c := by
  cases c <;> rfl

end Frame

variable {q : Intq T} {op : QueueOp}

omit [DecidableEq T] in
/-- The condition that a call signals is true. -/
lemma QueueOp.makes_holds (h : q.Holds op.needs) :
    ({ q with ring := op.apply q.ring } : Intq T).Holds op.makes := by
  cases op with
  | getc => exact Ring.not_full_pop h
  | putc byte => exact Ring.not_empty_push h byte

/-- There are two conditions. -/
lemma QueueOp.eq_makes {c : Condition} (h : c ≠ op.needs) : c = op.makes := by
  cases op <;> cases c <;> first | rfl | exact absurd rfl h

/-- A call that need not wait: the thread that waits for the other condition is unblocked. -/
lemma complete_spec (hq : IntqInv q) (h : q.Holds op.needs) :
    Ensures (fun _ => False) IntqInv (complete q op) := by
  unfold complete signal
  rw [if_neg (not_not.mpr (QueueOp.makes_holds h)), Intq.ring_waiter]
  cases hq with
  | idle hlock hpc hnone =>
    rw [hnone]
    exact .idle hlock hpc fun c => by rw [Intq.ring_waiter, hnone]
  | waiting t op' hlock hpc halone hwaiter hnone hnot =>
    -- the condition of this call is true and that of the thread is not
    have hne : op'.needs ≠ op.needs := by
      intro heq
      rw [heq] at hnot
      exact hnot h
    rw [← QueueOp.eq_makes hne, hwaiter]
    dsimp only
    have hunblock : threadUnblock { q with ring := op.apply q.ring } t =
        .ok (({ q with ring := op.apply q.ring } : Intq T).goto t (.woken op')) := by
      rw [threadUnblock]
      rw [hpc]
    rw [hunblock]
    refine Ensures.ok_bind (.woken t op' ?_ ?_ ?_ ?_)
    · rw [Intq.setWaiter_lock]
      exact hlock
    · rw [Intq.setWaiter_pc, Intq.goto_pc_self]
    · intro u hu
      rw [Intq.setWaiter_pc, Intq.goto_pc_of_ne _ _ hu]
      exact halone u hu
    · intro c
      by_cases hc : c = op'.needs
      · rw [hc, Intq.waiter_setWaiter_self]
      · rw [Intq.waiter_setWaiter_of_ne _ _ hc, Intq.goto_waiter, Intq.ring_waiter, hnone c hc]
  | woken t op' hlock hpc halone hnone =>
    rw [hnone]
    exact .woken t op' hlock hpc halone fun c => by rw [Intq.ring_waiter, hnone]

/-- A call while nobody else is in the queue. -/
lemma enter_spec {t : T} (hlock : q.lock = lockInit) (halone : q.Alone t) (hnone : ∀ c, q.waiter c = none)
    (op) : Ensures (fun _ => False) IntqInv (enter q t op) := by
  have hidle : IntqInv (q.goto t .outside) := by
    refine .idle hlock (fun u => ?_) fun c => by rw [Intq.goto_waiter, hnone]
    by_cases hu : u = t
    · rw [hu, Intq.goto_pc_self]
    · rw [Intq.goto_pc_of_ne _ _ hu]
      exact halone u hu
  unfold enter
  by_cases h : q.Holds op.needs
  · rw [if_pos h]
    exact complete_spec hidle (by rw [Intq.goto_holds]; exact h)
  · have hfree : lockHeldByCurrentThread q.lock t = false := by
      rw [hlock]
      rfl
    have hdown : semaDown q.lock.semaphore t = (semaInit 0, true) := by
      rw [hlock]
      rfl
    rw [if_neg h, hfree, acquireAndWait, hdown]
    dsimp only
    have hnot : ¬({ q with lock := ⟨some t, semaInit 0⟩ } : Intq T).Holds op.needs := by
      intro hholds
      apply h
      cases hop : op.needs <;> rw [hop] at hholds <;> exact hholds
    have hwaiter (c : Condition) : ({ q with lock := ⟨some t, semaInit 0⟩ } : Intq T).waiter c = none := by
      rw [← hnone c]
      cases c <;> rfl
    rw [wait, if_neg hnot]
    refine .waiting t op ?_ (Intq.goto_pc_self ..) ?_ ?_ ?_ ?_
    · rw [Intq.goto_lock, Intq.setWaiter_lock]
    · intro u hu
      rw [Intq.goto_pc_of_ne _ _ hu, Intq.setWaiter_pc]
      exact halone u hu
    · rw [Intq.goto_waiter, Intq.waiter_setWaiter_self]
    · intro c hc
      rw [Intq.goto_waiter, Intq.waiter_setWaiter_of_ne _ _ hc, hwaiter]
    · rw [Intq.goto_holds, Intq.setWaiter_holds]
      exact hnot

/-- One step keeps the invariant and no assertion fails in it. -/
lemma intqExec_spec (hq : IntqInv q) {a : IntqAction T} (ha : Uncontended q a) :
    Ensures (fun _ => False) IntqInv (intqExec q a) := by
  cases a with
  | call t op =>
    refine Ensures.ite (fun _ => .disabled) fun hpc => ?_
    have hpc : q.pc t = .outside := not_not.mp hpc
    rcases ha with hholds | hfree
    · have hstay : q.goto t .outside = q := by
        rw [Intq.goto, ← hpc, update_eq_self]
      rw [enter, if_pos hholds, hstay]
      exact complete_spec hq hholds
    · cases hq with
      | idle hlock hpc' hnone => exact enter_spec hlock (fun u _ => hpc' u) hnone op
      | waiting u op' hlock | woken u op' hlock =>
        rw [hlock] at hfree
        cases hfree
  | resume t =>
    rw [intqExec]
    cases hq with
    | idle hlock hpc hnone =>
      rw [hpc t]
      exact .disabled
    | waiting u op hlock hpc halone =>
      by_cases htu : t = u
      · rw [htu, hpc]
        exact .disabled
      · rw [halone t htu]
        exact .disabled
    | woken u op hlock hpc halone hnone =>
      by_cases htu : t = u
      · subst htu
        have hheld : lockHeldByCurrentThread q.lock t = true := by
          rw [hlock]
          simp [lockHeldByCurrentThread]
        have hrelease : lockRelease q t = .ok { q with lock := lockInit } := by
          rw [lockRelease, hheld, hlock]
          rfl
        rw [hpc]
        rw [hrelease]
        refine Ensures.ok_bind (enter_spec (q := { q with lock := lockInit }) rfl halone (fun c => ?_) op)
        rw [← hnone c]
        cases c <;> rfl
      · rw [halone t htu]
        exact .disabled
  | handler op =>
    refine Ensures.ite (fun _ => .disabled) fun hholds => ?_
    exact complete_spec hq (not_not.mp hholds)

omit [DecidableEq T] in
lemma intqInit_inv (buf : ℕ → UInt8) : IntqInv (intqInit buf : Intq T) :=
  .idle rfl (fun _ => rfl) fun c => by cases c <;> rfl

lemma uncontended_inv (h : (intqMachine.restrict Uncontended).Reachable q) : IntqInv q := by
  refine h.invariant (fun q hq => ?_) fun q a q' _ hq hstep => ?_
  · obtain ⟨buf, rfl⟩ := hq
    exact intqInit_inv buf
  · obtain ⟨ha, hstep⟩ := Machine.restrict_step.mp hstep
    exact (intqExec_spec hq ha).of_eq_ok (Machine.ofExec_step.mp hstep)

/-! ## The assertions -/

/-- In every run in which no thread has to wait for the lock, no assertion fails, and a thread that is registered waits
for a condition that is not true. -/
theorem intq_assertions_hold {q : Intq T} (h : (intqMachine.restrict Uncontended).Reachable q) :
    (∀ a f, Uncontended q a → intqExec q a ≠ .error (.fault f)) ∧
      ∀ c t, q.waiter c = some t → ¬q.Holds c := by
  have hq := uncontended_inv h
  constructor
  · intro a f ha hfault
    exact (intqExec_spec hq ha).of_eq_fault hfault
  · intro c t hwaiter
    cases hq with
    | idle _ _ hnone =>
      rw [hnone c] at hwaiter
      cases hwaiter
    | waiting u op _ _ _ _ hnone hnot =>
      by_cases hc : c = op.needs
      · rw [hc]
        exact hnot
      · rw [hnone c hc] at hwaiter
        cases hwaiter
    | woken u op _ _ _ hnone =>
      rw [hnone c] at hwaiter
      cases hwaiter

/-- A thread that waits for a byte, and the interrupt that delivers it. -/
def oneByte : List (IntqAction Bool) :=
  [.call false .getc, .handler (.putc 65)]

theorem intq_assertions_hold_oneByte :
    ∃ q : Intq Bool, (intqMachine.restrict Uncontended).run (intqInit fun _ => 0) oneByte = some q ∧
      intqExec q (.resume false) ≠ .error (.fault .wait) := by
  obtain ⟨q, hrun⟩ : ∃ q : Intq Bool,
      (intqMachine.restrict Uncontended).run (intqInit fun _ => 0) oneByte = some q := ⟨_, rfl⟩
  exact ⟨q, hrun, (intq_assertions_hold ⟨_, oneByte, ⟨_, rfl⟩, hrun⟩).1 (.resume false) .wait trivial⟩

/-- Two threads wait for a byte, the second one for the lock. Two bytes come, the first thread takes one of them, and the
second thread goes to `wait` although the queue is not empty. -/
theorem wait_assertion_fails :
    ∃ q : Intq Bool, intqMachine.run (intqInit fun _ => 0)
        [.call false .getc, .call true .getc, .handler (.putc 65), .handler (.putc 66), .resume false] = some q ∧
      intqExec q (.resume true) = .error (.fault .wait) :=
  ⟨_, rfl, rfl⟩

/-! ## The buffer

What a step does to the buffer, in every state of the queue. -/

/-- A thread in a call either has done it and is outside, or has done nothing yet. -/
def Moves (q : Intq T) (t : T) (op : QueueOp) (q' : Intq T) : Prop :=
  q.Holds op.needs ∧ q'.ring = op.apply q.ring ∧ q'.pc t = .outside ∨ q'.ring = q.ring ∧ q'.pc t ≠ .outside

lemma threadUnblock_ring (q) (t : T) :
    Ensures (fun _ => True) (fun q' => q'.ring = q.ring ∧ ∀ u, q.pc u = .outside → q'.pc u = .outside)
      (threadUnblock q t) := by
  -- the thread that is unblocked is not outside
  have hmove (p : IntqPc) (hp : q.pc t ≠ .outside) (u : T) (hu : q.pc u = .outside) : (q.goto t p).pc u = .outside := by
    have hne : u ≠ t := by
      rintro rfl
      exact hp hu
    rw [Intq.goto_pc_of_ne _ _ hne]
    exact hu
  unfold threadUnblock
  split
  · rename_i op hpc
    exact ⟨rfl, hmove _ (by rw [hpc]; simp)⟩
  · rename_i op hpc
    exact ⟨rfl, hmove _ (by rw [hpc]; simp)⟩
  · trivial

lemma complete_ring (q : Intq T) (op : QueueOp) :
    Ensures (fun _ => True) (fun q' => q'.ring = op.apply q.ring ∧ ∀ u, q.pc u = .outside → q'.pc u = .outside)
      (complete q op) := by
  refine Ensures.ite (fun _ => trivial) fun _ => ?_
  split
  · exact ⟨rfl, fun _ hu => hu⟩
  · rename_i t _
    refine (threadUnblock_ring _ t).bind fun q' hq' => ?_
    show (q'.setWaiter none op.makes).ring = _ ∧ _
    rw [Intq.setWaiter_ring, Intq.setWaiter_pc]
    exact hq'

lemma acquireAndWait_moves (q) (t : T) (op) :
    Ensures (fun _ => True) (Moves q t op) (acquireAndWait q t op) := by
  unfold acquireAndWait
  split
  · refine Ensures.ite (fun _ => trivial) fun _ => Or.inr ⟨?_, ?_⟩
    · rw [Intq.goto_ring, Intq.setWaiter_ring]
    · simp
  · refine Or.inr ⟨rfl, ?_⟩
    simp

lemma enter_moves (q) (t : T) (op) :
    Ensures (fun _ => True) (Moves q t op) (enter q t op) := by
  refine Ensures.ite (fun hholds => ?_) fun _ => Ensures.ite (fun _ => trivial) fun _ => acquireAndWait_moves q t op
  refine (complete_ring _ op).mono fun q' hq' => Or.inl ⟨hholds, hq'.1, ?_⟩
  exact hq'.2 t (Intq.goto_pc_self ..)

lemma lockRelease_ring (q) (t : T) :
    Ensures (fun _ => True) (fun q' => q'.ring = q.ring) (lockRelease q t) := by
  refine Ensures.ite (fun _ => trivial) fun _ => ?_
  split
  · rfl
  · exact (threadUnblock_ring _ _).mono fun q' hq' => hq'.1

/-- The call of a thread. -/
lemma call_moves (q) (t : T) (op) :
    Ensures (fun _ => True) (Moves q t op) (intqExec q (.call t op)) := by
  exact Ensures.ite (fun _ => trivial) fun _ => enter_moves q t op

/-- The continuation of a thread in a call. -/
lemma resume_moves {t : T} (hpc : q.pc t = .awakened op ∨ q.pc t = .woken op) :
    Ensures (fun _ => True) (Moves q t op) (intqExec q (.resume t)) := by
  rw [intqExec]
  rcases hpc with hpc | hpc
  · rw [hpc]
    exact acquireAndWait_moves q t op
  · rw [hpc]
    refine (lockRelease_ring q t).bind fun q' hq' => (enter_moves q' t op).mono fun q'' hmoves => ?_
    have hholds : q'.Holds op.needs ↔ q.Holds op.needs := by
      cases op.needs <;> simp only [Intq.Holds, hq']
    rw [Moves, hholds, hq'] at hmoves
    exact hmoves

/-- The call of a handler. -/
lemma handler_ring (q : Intq T) (op : QueueOp) :
    Ensures (fun _ => True) (fun q' => q.Holds op.needs ∧ q'.ring = op.apply q.ring) (intqExec q (.handler op)) := by
  refine Ensures.ite (fun _ => trivial) fun hholds => ?_
  exact (complete_ring q op).mono fun q' hq' => ⟨not_not.mp hholds, hq'.1⟩

end OsLabs.Devices
