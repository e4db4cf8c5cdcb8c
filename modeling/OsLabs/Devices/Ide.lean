import OsLabs.Threads.LockRuns

/-!
# Requests on an ATA channel

`ide_read`, `ide_write`, `issue_pio_command` and `interrupt_handler` of `devices/ide.c`, for one channel and any number of
threads. The lock of the channel is the one of `LockRuns`, statement by statement, and `completion_wait` is a semaphore of
`Synch`. The registers of the controller are left out but for one bit that only the hardware keeps: `outstanding`, a
command was written and no interrupt came since.

`issue_pio_command` sets `expecting_interrupt` and nothing ever clears it. So an interrupt that comes when no command is
outstanding is ignored only up to the first command; afterwards it ups `completion_wait`, and a later request runs ahead
of the disk (`early_completion`). The results are about the runs in which this does not happen: `Expected` is a condition
on the interrupts.
-/

namespace OsLabs.Devices

open Lib Threads Function

/-- Where a thread is in `ide_read` or `ide_write`. -/
inductive IdePc where
  /-- In neither of them. -/
  | outside
  /-- From the call to `issue_pio_command`: in `lock_acquire`, then in `select_sector`. -/
  | start (write : Bool)
  /-- In `issue_pio_command`, before the command is written to its register. -/
  | issue (write : Bool)
  /-- In `ide_write`, after `issue_pio_command` and before the end of `output_sector`. -/
  | transfer
  /-- Before `sema_down`. -/
  | down
  /-- Queued and blocked in `sema_down`. -/
  | waiting
  /-- Popped by `sema_up`, before the next test of the value. -/
  | awakened
  /-- After `sema_down`; in `ide_read`, up to the end of `input_sector`. -/
  | finish
  /-- In `lock_release`. -/
  | leave
deriving DecidableEq

/-- The channel with the position of every thread, in its lock and in its requests. -/
structure Ide (T : Type) where
  lock : LockState T
  expectingInterrupt : Bool
  completionWait : Semaphore T
  /-- A command was written to the register and no interrupt came since. -/
  outstanding : Bool
  pc : T → IdePc

/-- One statement by one thread, or an interrupt. -/
inductive IdeAction (T : Type) where
  /-- The call of `ide_read` or `ide_write`, with the assertions at the head of `lock_acquire`. -/
  | call (t : T) (write : Bool)
  /-- A statement of `lock_acquire` or `lock_release`. -/
  | lock (a : LockAction T)
  /-- The end of `select_sector`, and `c->expecting_interrupt = true`. -/
  | expect (t : T)
  /-- `outb (reg_command (c), command)`. -/
  | command (t : T)
  /-- `wait_while_busy` and `output_sector`. -/
  | output (t : T)
  /-- A turn of the loop of `sema_down`. -/
  | down (t : T)
  /-- The end of `input_sector`, and the assertions at the head of `lock_release`. -/
  | release (t : T)
  /-- An interrupt on the line of the channel. -/
  | interrupt

variable {T : Type} [DecidableEq T]

def Ide.goto (s : Ide T) (t : T) (p : IdePc) : Ide T :=
  { s with pc := update s.pc t p }

/-- `interrupt_handler`, for this channel. -/
def interruptHandler (s : Ide T) : Ide T :=
  if s.expectingInterrupt then
    match semaUp s.completionWait with
    | (sema, none) => { s with completionWait := sema, outstanding := false }
    | (sema, some t) => { s with completionWait := sema, outstanding := false }.goto t .awakened
  else s

/-- The statements of the lock's code between the call of a function and its return. -/
def lockStatement (s : Ide T) (a : LockAction T) : Except (Halt LockAssert) (Ide T) :=
  match a with
  | .down _ | .setHolder _ | .clearHolder _ => do
    let lock ← lockExec s.lock a
    return { s with lock }
  | .up t => do
    let lock ← lockExec s.lock a
    return { s with lock }.goto t .outside
  | _ => .error .disabled

def ideExec (s : Ide T) : IdeAction T → Except (Halt LockAssert) (Ide T)
  | .call t write =>
    if s.pc t ≠ .outside then .error .disabled
    else do
      let lock ← lockExec s.lock (.acquire t)
      return { s with lock }.goto t (.start write)
  | .lock a => lockStatement s a
  | .expect t =>
    match s.pc t with
    | .start write =>
      if s.lock.pc t ≠ .owner then .error .disabled
      else .ok ({ s with expectingInterrupt := true }.goto t (.issue write))
    | _ => .error .disabled
  | .command t =>
    match s.pc t with
    | .issue write => .ok ({ s with outstanding := true }.goto t (if write then .transfer else .down))
    | _ => .error .disabled
  | .output t => if s.pc t ≠ .transfer then .error .disabled else .ok (s.goto t .down)
  | .down t =>
    if s.pc t ≠ .down ∧ s.pc t ≠ .awakened then .error .disabled
    else
      match semaDown s.completionWait t with
      | (sema, true) => .ok ({ s with completionWait := sema }.goto t .finish)
      | (sema, false) => .ok ({ s with completionWait := sema }.goto t .waiting)
  | .release t =>
    if s.pc t ≠ .finish then .error .disabled
    else do
      let lock ← lockExec s.lock (.release t)
      return { s with lock }.goto t .leave
  | .interrupt => .ok (interruptHandler s)

/-- The channel after `ide_init`. `expecting_interrupt` is set already if a disk was identified. -/
def ideStart (expectingInterrupt : Bool) : Ide T where
  lock := lockStart
  expectingInterrupt
  completionWait := semaInit 0
  outstanding := false
  pc _ := .outside

def ideMachine : Machine (Ide T) (IdeAction T) :=
  .ofExec (fun s => ∃ e, s = ideStart e) ideExec

/-- The condition on the interrupts: once `expecting_interrupt` is set, one comes only for a command that is
outstanding. -/
def Expected (s : Ide T) (a : IdeAction T) : Prop :=
  a matches .interrupt → s.expectingInterrupt = true → s.outstanding = true

instance (s : Ide T) (a : IdeAction T) : Decidable (Expected s a) := inferInstanceAs (Decidable (_ → _ → _))

/-- The next turn of the thread in `sema_down` returns. -/
def DownReturns (s : Ide T) (t : T) : Prop :=
  (s.pc t = .down ∨ s.pc t = .awakened) ∧ (semaDown s.completionWait t).2 = true

instance (s : Ide T) (t : T) : Decidable (DownReturns s t) := inferInstanceAs (Decidable (_ ∧ _))

/-- The thread has written its command and not returned from `sema_down`. -/
def IdePc.inFlight : IdePc → Bool
  | .transfer | .down | .waiting | .awakened => true
  | _ => false

/-- The thread is between the two calls of the lock's code, after `select_sector`. -/
def IdePc.inside : IdePc → Bool
  | .issue _ | .transfer | .down | .waiting | .awakened | .finish => true
  | _ => false

/-! ## What one statement can do -/

/-- Everything a statement or an interrupt can do, guards included. -/
inductive IdeTurn (s : Ide T) : IdeAction T → Ide T → Prop
  | call (t : T) (write : Bool) (l : LockState T) (hpc : s.pc t = .outside)
      (hl : lockExec s.lock (.acquire t) = .ok l) :
      IdeTurn s (.call t write) ({ s with lock := l }.goto t (.start write))
  | lock (a : LockAction T) (l : LockState T) (ha : ∀ t, a ≠ .release t) (hl : lockExec s.lock a = .ok l) :
      IdeTurn s (.lock a) { s with lock := l }
  | unlock (t : T) (l : LockState T) (hl : lockExec s.lock (.up t) = .ok l) :
      IdeTurn s (.lock (.up t)) ({ s with lock := l }.goto t .outside)
  | expect (t : T) (write : Bool) (hpc : s.pc t = .start write) (howner : s.lock.pc t = .owner) :
      IdeTurn s (.expect t) ({ s with expectingInterrupt := true }.goto t (.issue write))
  | command (t : T) (write : Bool) (hpc : s.pc t = .issue write) :
      IdeTurn s (.command t) ({ s with outstanding := true }.goto t (if write then .transfer else .down))
  | output (t : T) (hpc : s.pc t = .transfer) : IdeTurn s (.output t) (s.goto t .down)
  | passed (t : T) (hpc : s.pc t = .down ∨ s.pc t = .awakened) (hv : 0 < s.completionWait.value) :
      IdeTurn s (.down t)
        ({ s with completionWait := { s.completionWait with value := s.completionWait.value - 1 } }.goto t .finish)
  | queued (t : T) (hpc : s.pc t = .down ∨ s.pc t = .awakened) (hv : s.completionWait.value = 0) :
      IdeTurn s (.down t)
        ({ s with completionWait := { s.completionWait with waiters := s.completionWait.waiters ++ [t] } }.goto t .waiting)
  | release (t : T) (l : LockState T) (hpc : s.pc t = .finish) (hl : lockExec s.lock (.release t) = .ok l) :
      IdeTurn s (.release t) ({ s with lock := l }.goto t .leave)
  | ignored (hexpecting : s.expectingInterrupt = false) : IdeTurn s .interrupt s
  | counted (hexpecting : s.expectingInterrupt = true) (hw : s.completionWait.waiters = []) :
      IdeTurn s .interrupt { s with
        completionWait := { s.completionWait with value := (s.completionWait.value + 1) % 2 ^ 32 }, outstanding := false }
  | woke (hexpecting : s.expectingInterrupt = true) (t : T) (rest : List T) (hw : s.completionWait.waiters = t :: rest) :
      IdeTurn s .interrupt ({ s with
        completionWait := { value := (s.completionWait.value + 1) % 2 ^ 32, waiters := rest },
        outstanding := false }.goto t .awakened)

lemma IdeTurn.of_interrupt (s : Ide T) : IdeTurn s .interrupt (interruptHandler s) := by
  unfold interruptHandler
  by_cases hexpecting : s.expectingInterrupt = true
  · rw [if_pos hexpecting]
    cases hw : s.completionWait.waiters with
    | nil =>
      rw [semaUp_of_nil hw]
      exact .counted hexpecting hw
    | cons t rest =>
      rw [semaUp_of_cons hw]
      exact .woke hexpecting t rest hw
  · rw [if_neg hexpecting]
    exact .ignored (Bool.eq_false_iff.mpr hexpecting)

omit [DecidableEq T] in
lemma bind_return_eq_ok {S : Type} {r : Except (Halt LockAssert) (LockState T)} {f : LockState T → S} {s : S}
    (h : (do let l ← r; return f l) = .ok s) : ∃ l, r = .ok l ∧ f l = s := by
  cases r with
  | error e => cases h
  | ok l => exact ⟨l, rfl, Except.ok.inj h⟩

variable {s s' : Ide T} {a : IdeAction T} {t : T} {p : IdePc}

lemma IdeTurn.of_exec (h : ideExec s a = .ok s') : IdeTurn s a s' := by
  cases a with
  | call t write =>
    simp only [ideExec] at h
    split_ifs at h with hpc
    obtain ⟨l, hl, rfl⟩ := bind_return_eq_ok h
    exact .call t write l (not_not.mp hpc) hl
  | lock a =>
    cases a with
    | down t | setHolder t | clearHolder t =>
      obtain ⟨l, hl, rfl⟩ := bind_return_eq_ok h
      exact .lock _ l (fun u hu => by cases hu) hl
    | up t =>
      obtain ⟨l, hl, rfl⟩ := bind_return_eq_ok h
      exact .unlock t l hl
    | acquire t | tryAcquire t | tryDown t | release t => cases h
  | expect t =>
    simp only [ideExec] at h
    split at h
    · rename_i write hpc
      split_ifs at h with howner
      cases h
      exact .expect t write hpc (not_not.mp howner)
    · cases h
  | command t =>
    simp only [ideExec] at h
    split at h
    · rename_i write hpc
      cases h
      exact .command t write hpc
    · cases h
  | output t =>
    simp only [ideExec] at h
    split_ifs at h with hpc
    cases h
    exact .output t (not_not.mp hpc)
  | down t =>
    simp only [ideExec] at h
    split_ifs at h with hpc
    have hpc' : s.pc t = .down ∨ s.pc t = .awakened := by
      by_contra hc
      exact hpc (not_or.mp hc)
    rcases Nat.eq_zero_or_pos s.completionWait.value with hv | hv
    · rw [semaDown_of_zero hv] at h
      cases h
      exact .queued t hpc' hv
    · rw [semaDown_of_pos hv] at h
      cases h
      exact .passed t hpc' hv
  | release t =>
    simp only [ideExec] at h
    split_ifs at h with hpc
    obtain ⟨l, hl, rfl⟩ := bind_return_eq_ok h
    exact .release t l (not_not.mp hpc) hl
  | interrupt =>
    cases h
    exact .of_interrupt s

/-! ## The lock of the channel -/

/-- The lock goes through steps of its own machine. -/
lemma IdeTurn.lock_step (h : IdeTurn s a s') :
    s'.lock = s.lock ∨ ∃ b, lockMachine.step s.lock b = some s'.lock := by
  cases h with
  | call t write l hpc hl => exact Or.inr ⟨_, Machine.ofExec_step.mpr hl⟩
  | lock a l ha hl => exact Or.inr ⟨_, Machine.ofExec_step.mpr hl⟩
  | unlock t l hl => exact Or.inr ⟨_, Machine.ofExec_step.mpr hl⟩
  | release t l hpc hl => exact Or.inr ⟨_, Machine.ofExec_step.mpr hl⟩
  | expect | command | output | passed | queued | ignored | counted | woke => exact Or.inl rfl

/-- A thread inside of a request owns the lock, and interrupts are expected. -/
def OwnerInside (s : Ide T) : Prop :=
  ∀ t, (s.pc t).inside = true → s.lock.pc t = .owner ∧ s.expectingInterrupt = true

/-- A lock step leaves the threads inside of a request alone, but for the one that releases the lock. -/
lemma OwnerInside.lock (hs : OwnerInside s) (hreach : lockMachine.Reachable s.lock) {a : LockAction T}
    {l : LockState T} (hl : lockExec s.lock a = .ok l) {u : T} (hu : (s.pc u).inside = true)
    (ha : a ≠ .release u) : l.pc u = .owner ∧ s.expectingInterrupt = true := by
  obtain ⟨howner, hexpecting⟩ := hs u hu
  have hsema := semaMachine_inv (lockMachine_toSema hreach)
  rcases (LockTurn.of_exec hl).owner hsema howner with hstill | hrelease
  · exact ⟨hstill, hexpecting⟩
  · exact absurd hrelease ha

/-- Moving one thread: the others are where they were. -/
lemma Ide.pc_goto_of_ne {u : T} (h : u ≠ t) (p : IdePc) : (s.goto t p).pc u = s.pc u :=
  update_of_ne h ..

@[simp] lemma Ide.pc_goto_self (s : Ide T) (t : T) (p : IdePc) : (s.goto t p).pc t = p :=
  update_self ..

lemma OwnerInside.goto (hs : OwnerInside s)
    (hp : p.inside = true → s.lock.pc t = .owner ∧ s.expectingInterrupt = true) : OwnerInside (s.goto t p) := by
  intro u hu
  by_cases hut : u = t
  · subst hut
    rw [Ide.pc_goto_self] at hu
    exact hp hu
  · rw [Ide.pc_goto_of_ne hut] at hu
    exact hs u hu

lemma IdeTurn.ownerInside (h : IdeTurn s a s') (hreach : lockMachine.Reachable s.lock) (hs : OwnerInside s)
    (hw : ∀ t ∈ s.completionWait.waiters, s.pc t = .waiting) : OwnerInside s' := by
  cases h with
  | call t write l hpc hl =>
    refine OwnerInside.goto (fun u hu => ?_) (by simp [IdePc.inside])
    exact hs.lock hreach hl hu (by simp)
  | lock a l ha hl => exact fun u hu => hs.lock hreach hl hu (ha u)
  | unlock t l hl =>
    refine OwnerInside.goto (fun u hu => ?_) (by simp [IdePc.inside])
    exact hs.lock hreach hl hu (by simp)
  | expect t write hpc howner =>
    exact OwnerInside.goto (fun u hu => ⟨(hs u hu).1, rfl⟩) fun _ => ⟨howner, rfl⟩
  | command t write hpc =>
    exact OwnerInside.goto hs fun _ => hs t (by rw [hpc]; rfl)
  | output t hpc => exact hs.goto fun _ => hs t (by rw [hpc]; rfl)
  | passed t hpc hv =>
    refine OwnerInside.goto hs fun _ => hs t ?_
    rcases hpc with hpc | hpc <;> rw [hpc] <;> rfl
  | queued t hpc hv =>
    refine OwnerInside.goto hs fun _ => hs t ?_
    rcases hpc with hpc | hpc <;> rw [hpc] <;> rfl
  | release t l hpc hl =>
    -- the thread that gives the lock back is no longer inside
    intro u hu
    by_cases hut : u = t
    · subst hut
      rw [Ide.pc_goto_self] at hu
      cases hu
    · rw [Ide.pc_goto_of_ne hut] at hu
      exact hs.lock hreach hl hu (by simpa using fun h => hut h.symm)
  | ignored hexpecting => exact hs
  | counted hexpecting hwaiters => exact hs
  | woke hexpecting t rest hwaiters =>
    have hwait : s.pc t = .waiting := hw t (by rw [hwaiters]; exact List.mem_cons_self ..)
    exact OwnerInside.goto hs fun _ => hs t (by rw [hwait]; rfl)

/-! ## The protocol of one command -/

section Protocol

omit [DecidableEq T]

/-- The thread is the only one that waits for a command. -/
def Ide.Alone (s : Ide T) (t : T) : Prop :=
  ∀ u, (s.pc u).inFlight = true → u = t

/-- How far the channel is with the command of a request. -/
inductive Phase (s : Ide T) : Prop
  /-- There is none. -/
  | idle (hflight : ∀ t, (s.pc t).inFlight = false) (hout : s.outstanding = false)
      (hv : s.completionWait.value = 0) (hw : s.completionWait.waiters = [])
  /-- It was written, and the thread has not come to block. -/
  | sent (t : T) (halone : s.Alone t) (hpc : s.pc t = .transfer ∨ s.pc t = .down) (hout : s.outstanding = true)
      (hexpecting : s.expectingInterrupt = true) (hv : s.completionWait.value = 0) (hw : s.completionWait.waiters = [])
  /-- It was written, and the thread waits. -/
  | blocked (t : T) (halone : s.Alone t) (hpc : s.pc t = .waiting) (hout : s.outstanding = true)
      (hexpecting : s.expectingInterrupt = true) (hv : s.completionWait.value = 0) (hw : s.completionWait.waiters = [t])
  /-- Its interrupt came. -/
  | answered (t : T) (halone : s.Alone t) (hpc : s.pc t = .transfer ∨ s.pc t = .down ∨ s.pc t = .awakened)
      (hout : s.outstanding = false) (hv : s.completionWait.value = 1) (hw : s.completionWait.waiters = [])

/-- The threads in the queue are blocked. -/
lemma Phase.waiting {s : Ide T} (h : Phase s) : ∀ t ∈ s.completionWait.waiters, s.pc t = .waiting := by
  intro t ht
  cases h with
  | idle hflight hout hv hw => simp [hw] at ht
  | sent u halone hpc hout hexpecting hv hw => simp [hw] at ht
  | blocked u halone hpc hout hexpecting hv hw =>
    rw [hw, List.mem_singleton] at ht
    rw [ht]
    exact hpc
  | answered u halone hpc hout hv hw => simp [hw] at ht

/-- Without a thread that waits for a command there is none outstanding, and nothing is left in `completion_wait`. -/
lemma Phase.of_no_flight {s : Ide T} (h : Phase s) (hflight : ∀ t, (s.pc t).inFlight = false) :
    s.outstanding = false ∧ s.completionWait.value = 0 ∧ s.completionWait.waiters = [] := by
  cases h with
  | idle _ hout hv hw => exact ⟨hout, hv, hw⟩
  | sent t halone hpc =>
    have hnot := hflight t
    rcases hpc with hpc | hpc <;> rw [hpc] at hnot <;> cases hnot
  | blocked t halone hpc =>
    have hnot := hflight t
    rw [hpc] at hnot
    cases hnot
  | answered t halone hpc =>
    have hnot := hflight t
    rcases hpc with hpc | hpc | hpc <;> rw [hpc] at hnot <;> cases hnot

/-- A step that leaves the command and the threads that wait for it alone. -/
lemma Phase.frame {s s' : Ide T} (h : Phase s) (hsema : s'.completionWait = s.completionWait)
    (hout : s'.outstanding = s.outstanding) (hexpecting : s.expectingInterrupt = true → s'.expectingInterrupt = true)
    (hpc : ∀ u, (s.pc u).inFlight = true ∨ (s'.pc u).inFlight = true → s'.pc u = s.pc u) : Phase s' := by
  have halone {t : T} (h : s.Alone t) : s'.Alone t := by
    intro u hu
    apply h u
    rw [← hpc u (Or.inr hu)]
    exact hu
  cases h with
  | idle hflight hout' hv hw =>
    refine .idle ?_ (hout.trans hout') (by rw [hsema, hv]) (by rw [hsema, hw])
    intro t
    by_contra ht
    have ht : (s'.pc t).inFlight = true := by simpa using ht
    have hsame := hflight t
    rw [← hpc t (Or.inr ht), ht] at hsame
    cases hsame
  | sent t halone' hpc' hout' hexp hv hw =>
    refine .sent t (halone halone') ?_ (hout.trans hout') (hexpecting hexp) (by rw [hsema, hv]) (by rw [hsema, hw])
    rw [hpc t (Or.inl (by rcases hpc' with hpc' | hpc' <;> rw [hpc'] <;> rfl))]
    exact hpc'
  | blocked t halone' hpc' hout' hexp hv hw =>
    refine .blocked t (halone halone') ?_ (hout.trans hout') (hexpecting hexp) (by rw [hsema, hv]) (by rw [hsema, hw])
    rw [hpc t (Or.inl (by rw [hpc']; rfl))]
    exact hpc'
  | answered t halone' hpc' hout' hv hw =>
    refine .answered t (halone halone') ?_ (hout.trans hout') (by rw [hsema, hv]) (by rw [hsema, hw])
    rw [hpc t (Or.inl (by rcases hpc' with hpc' | hpc' | hpc' <;> rw [hpc'] <;> rfl))]
    exact hpc'

end Protocol

/-- A thread that waits for no command moves to where it waits for none. -/
lemma Phase.goto (h : Phase s) (hold : (s.pc t).inFlight = false) (hnew : p.inFlight = false) :
    Phase (s.goto t p) := by
  refine h.frame rfl rfl id fun u hu => ?_
  have hne : u ≠ t := by
    rintro rfl
    rw [Ide.pc_goto_self, hold, hnew] at hu
    simp at hu
  exact Ide.pc_goto_of_ne hne p

lemma Ide.Alone.goto (h : s.Alone t) (p : IdePc) : (s.goto t p).Alone t := by
  intro u hu
  by_contra hne
  rw [Ide.pc_goto_of_ne hne] at hu
  exact hne (h u hu)

/-- The thread that waits for the command stops waiting. -/
lemma Ide.Alone.goto_idle (h : s.Alone t) (hp : p.inFlight = false) (u : T) :
    ((s.goto t p).pc u).inFlight = false := by
  by_cases hu : u = t
  · subst hu
    rw [Ide.pc_goto_self]
    exact hp
  · rw [Ide.pc_goto_of_ne hu]
    by_contra hflight
    exact hu (h u (by simpa using hflight))

/-- The thread that writes a command finds the channel idle: any other would own the lock as well. -/
lemma Phase.command (h : Phase s) (hinv : LockInv s.lock) (hs : OwnerInside s) {write : Bool}
    (hpc : s.pc t = .issue write) :
    Phase ({ s with outstanding := true }.goto t (if write then .transfer else .down)) := by
  have hflight : ∀ u, (s.pc u).inFlight = false := by
    intro u
    by_contra hu
    have hu : (s.pc u).inFlight = true := by simpa using hu
    have hinside : (s.pc u).inside = true := by
      cases hp : s.pc u <;> rw [hp] at hu <;> first | rfl | cases hu
    obtain rfl : u = t := hinv.owner_unique (hs u hinside).1 (hs t (by rw [hpc]; rfl)).1
    rw [hpc] at hu
    cases hu
  have halone : ({ s with outstanding := true } : Ide T).Alone t := by
    intro u hu
    have hnot := hflight u
    rw [show (s.pc u).inFlight = true from hu] at hnot
    cases hnot
  obtain ⟨-, hv, hw⟩ := h.of_no_flight hflight
  refine .sent t (halone.goto _) ?_ rfl (hs t (by rw [hpc]; rfl)).2 hv hw
  rw [Ide.pc_goto_self]
  cases write
  · exact Or.inr rfl
  · exact Or.inl rfl

lemma Phase.output (h : Phase s) (hpc : s.pc t = .transfer) : Phase (s.goto t .down) := by
  have hflight : (s.pc t).inFlight = true := by
    rw [hpc]
    rfl
  cases h with
  | idle hnone =>
    rw [hnone t] at hflight
    cases hflight
  | sent u halone hpc' hout hexpecting hv hw =>
    obtain rfl := halone t hflight
    exact .sent t (halone.goto _) (Or.inr (Ide.pc_goto_self ..)) hout hexpecting hv hw
  | blocked u halone hpc' =>
    obtain rfl := halone t hflight
    rw [hpc] at hpc'
    cases hpc'
  | answered u halone hpc' hout hv hw =>
    obtain rfl := halone t hflight
    exact .answered t (halone.goto _) (Or.inr (Or.inl (Ide.pc_goto_self ..))) hout hv hw

/-- A thread returns from `sema_down` only when its interrupt came. -/
lemma Phase.passed (h : Phase s) (hpc : s.pc t = .down ∨ s.pc t = .awakened) (hv : 0 < s.completionWait.value) :
    s.outstanding = false ∧
      Phase ({ s with completionWait := { s.completionWait with value := s.completionWait.value - 1 } }.goto t .finish) := by
  have hflight : (s.pc t).inFlight = true := by
    rcases hpc with hpc | hpc <;> rw [hpc] <;> rfl
  cases h with
  | idle _ _ hzero => omega
  | sent u _ _ _ _ hzero => omega
  | blocked u _ _ _ _ hzero => omega
  | answered u halone _ hout hone hw =>
    obtain rfl := halone t hflight
    refine ⟨hout, .idle (Ide.Alone.goto_idle halone rfl) hout ?_ hw⟩
    show s.completionWait.value - 1 = 0
    omega

/-- A thread blocks only while its command is outstanding. -/
lemma Phase.queued (h : Phase s) (hpc : s.pc t = .down ∨ s.pc t = .awakened) (hv : s.completionWait.value = 0) :
    Phase ({ s with
      completionWait := { s.completionWait with waiters := s.completionWait.waiters ++ [t] } }.goto t .waiting) := by
  have hflight : (s.pc t).inFlight = true := by
    rcases hpc with hpc | hpc <;> rw [hpc] <;> rfl
  cases h with
  | idle hnone =>
    rw [hnone t] at hflight
    cases hflight
  | sent u halone _ hout hexpecting _ hw =>
    obtain rfl := halone t hflight
    refine .blocked t (Ide.Alone.goto halone _) (Ide.pc_goto_self ..) hout hexpecting hv ?_
    show s.completionWait.waiters ++ [t] = [t]
    rw [hw, List.nil_append]
  | blocked u halone hpc' =>
    obtain rfl := halone t hflight
    rw [hpc'] at hpc
    simp at hpc
  | answered u _ _ _ hone => omega

/-- The interrupt of the outstanding command. -/
lemma Phase.interrupt (h : Phase s) (hout : s.outstanding = true) (hturn : IdeTurn s .interrupt s') :
    Phase s' := by
  cases h with
  | idle _ hnone =>
    rw [hnone] at hout
    cases hout
  | sent t halone hpc _ hexpecting hv hw =>
    cases hturn with
    | ignored hnot =>
      rw [hexpecting] at hnot
      cases hnot
    | counted _ _ =>
      refine .answered t halone (by tauto) rfl ?_ hw
      show (s.completionWait.value + 1) % 2 ^ 32 = 1
      omega
    | woke _ u rest hw' =>
      rw [hw] at hw'
      cases hw'
  | blocked t halone hpc _ hexpecting hv hw =>
    cases hturn with
    | ignored hnot =>
      rw [hexpecting] at hnot
      cases hnot
    | counted _ hw' =>
      rw [hw] at hw'
      cases hw'
    | woke _ u rest hw' =>
      rw [hw] at hw'
      obtain ⟨rfl, rfl⟩ := List.cons.inj hw'
      refine .answered t (Ide.Alone.goto halone _) (Or.inr (Or.inr (Ide.pc_goto_self ..))) rfl ?_ rfl
      show (s.completionWait.value + 1) % 2 ^ 32 = 1
      omega
  | answered t _ _ hnone =>
    rw [hnone] at hout
    cases hout

/-- What every state of a run with expected interrupts satisfies. -/
structure IdeInv (s : Ide T) : Prop where
  lock : lockMachine.Reachable s.lock
  inside : OwnerInside s
  phase : Phase s

lemma ideStart_inv (e : Bool) : IdeInv (ideStart e : Ide T) where
  lock := .init rfl
  inside t ht := by cases ht
  phase := .idle (fun _ => rfl) rfl rfl rfl

lemma IdeTurn.inv (h : IdeTurn s a s') (hs : IdeInv s) (ha : Expected s a) : IdeInv s' := by
  have hlock : lockMachine.Reachable s'.lock := by
    rcases h.lock_step with hsame | ⟨b, hstep⟩
    · rw [hsame]
      exact hs.lock
    · exact hs.lock.step hstep
  refine ⟨hlock, h.ownerInside hs.lock hs.inside hs.phase.waiting, ?_⟩
  have hphase := hs.phase
  cases h with
  | call t write l hpc hl =>
    refine Phase.goto (hphase.frame rfl rfl id fun _ _ => rfl) ?_ rfl
    show (s.pc t).inFlight = false
    rw [hpc]
    rfl
  | lock b l hb hl => exact hphase.frame rfl rfl id fun _ _ => rfl
  | unlock t l hl =>
    refine Phase.goto (hphase.frame rfl rfl id fun _ _ => rfl) ?_ rfl
    -- a thread at the end of `lock_release` does not own the lock
    show (s.pc t).inFlight = false
    by_contra hflight
    have hinside : (s.pc t).inside = true := by
      cases hp : s.pc t <;> rw [hp] at hflight <;> first | rfl | exact absurd rfl hflight
    have hup : s.lock.pc t = .releaseUp := by
      cases LockTurn.of_exec hl <;> assumption
    rw [(hs.inside t hinside).1] at hup
    cases hup
  | expect t write hpc howner =>
    refine Phase.goto (hphase.frame rfl rfl (fun _ => rfl) fun _ _ => rfl) ?_ rfl
    show (s.pc t).inFlight = false
    rw [hpc]
    rfl
  | command t write hpc => exact hphase.command (lockMachine_inv hs.lock) hs.inside hpc
  | output t hpc => exact hphase.output hpc
  | passed t hpc hv => exact (hphase.passed hpc hv).2
  | queued t hpc hv => exact hphase.queued hpc hv
  | release t l hpc hl =>
    refine Phase.goto (hphase.frame rfl rfl id fun _ _ => rfl) ?_ rfl
    show (s.pc t).inFlight = false
    rw [hpc]
    rfl
  | ignored hexpecting => exact hphase
  | counted hexpecting hw => exact hphase.interrupt (ha rfl hexpecting) (.counted hexpecting hw)
  | woke hexpecting t rest hw => exact hphase.interrupt (ha rfl hexpecting) (.woke hexpecting t rest hw)

lemma expected_inv (h : (ideMachine.restrict Expected).Reachable s) : IdeInv s := by
  refine h.invariant (fun s hs => ?_) fun s a s' _ hs hstep => ?_
  · obtain ⟨e, rfl⟩ := hs
    exact ideStart_inv e
  · obtain ⟨ha, hstep⟩ := Machine.restrict_step.mp hstep
    exact (IdeTurn.of_exec (Machine.ofExec_step.mp hstep)).inv hs ha

/-! ## Requests and their interrupts -/

/-- A command stays outstanding until an interrupt comes. -/
lemma IdeTurn.outstanding (h : IdeTurn s a s') (hout : s.outstanding = true) (ha : a ≠ .interrupt) :
    s'.outstanding = true := by
  cases h with
  | call | lock | unlock | expect | output | passed | queued | release => exact hout
  | command => rfl
  | ignored | counted | woke => exact absurd rfl ha

lemma outstanding_of_run {as : List (IdeAction T)} (hrun : ideMachine.run s as = some s')
    (hout : s.outstanding = true) (has : .interrupt ∉ as) : s'.outstanding = true := by
  refine ideMachine.run_induction (fun _ => hout) ?_ hrun has
  intro as r a t _ ih hstep hno
  rw [List.mem_append, List.mem_singleton, not_or] at hno
  exact (IdeTurn.of_exec (Machine.ofExec_step.mp hstep)).outstanding (ih hno.1) (Ne.symm hno.2)

/-- In every run with expected interrupts, `sema_down` returns to a request only after an interrupt that came after the
request's command, and `completion_wait` is 0 whenever no request waits for its command. -/
theorem request_completes_on_interrupt {e : Bool} {s : Ide T} {as : List (IdeAction T)}
    (hrun : (ideMachine.restrict Expected).run (ideStart e) as = some s) :
    (∀ before after t, as = before ++ .command t :: after → DownReturns s t → .interrupt ∈ after) ∧
      ((∀ t, (s.pc t).inFlight = false) → s.completionWait.value = 0) := by
  have hinv : IdeInv s := expected_inv ⟨_, as, ⟨e, rfl⟩, hrun⟩
  refine ⟨?_, fun hflight => (hinv.phase.of_no_flight hflight).2.1⟩
  rintro before after t rfl ⟨hpc, hreturns⟩
  by_contra hno
  -- the command is outstanding since it was written, so nothing is in `completion_wait`
  obtain ⟨r, -, hrest⟩ := ideMachine.run_append_eq_some.mp (Machine.run_of_restrict hrun)
  rw [Machine.run_cons] at hrest
  obtain ⟨r', hcommand, hafter⟩ := Option.bind_eq_some_iff.mp hrest
  have hout : r'.outstanding = true := by
    cases IdeTurn.of_exec (Machine.ofExec_step.mp hcommand)
    rfl
  have hv : 0 < s.completionWait.value := by
    rw [semaDown] at hreturns
    split at hreturns
    · cases hreturns
    · omega
  have hanswered := (hinv.phase.passed hpc hv).1
  rw [outstanding_of_run hafter hout hno] at hanswered
  cases hanswered

/-- `ide_read` up to the command. -/
def readStart (t : T) : List (IdeAction T) :=
  [.call t false, .lock (.down t), .lock (.setHolder t), .expect t]

/-- The rest of `ide_read`, for a thread that finds `completion_wait` up. -/
def readFinish (t : T) : List (IdeAction T) :=
  [.down t, .release t, .lock (.clearHolder t), .lock (.up t)]

theorem request_completes_on_interrupt_read :
    ∃ s, (ideMachine.restrict Expected).run (ideStart true) (readStart () ++ .command () :: [.interrupt]) = some s ∧
      DownReturns s () ∧ IdeAction.interrupt ∈ [(.interrupt : IdeAction Unit)] := by
  obtain ⟨s, hrun, hreturns⟩ : ∃ s, (ideMachine.restrict Expected).run (ideStart true)
      (readStart () ++ .command () :: [.interrupt]) = some s ∧ DownReturns s () := ⟨_, rfl, by decide⟩
  exact ⟨s, hrun, hreturns, (request_completes_on_interrupt hrun).1 (readStart ()) _ () rfl hreturns⟩

/-- One interrupt after the end of a request is counted, and the next request does not wait for its own. -/
theorem early_completion :
    ∃ s : Ide Unit, ideMachine.run (ideStart false) (readStart () ++ .command () :: .interrupt :: readFinish () ++
        [.interrupt] ++ readStart () ++ .command () :: []) = some s ∧
      DownReturns s () ∧ IdeAction.interrupt ∉ ([] : List (IdeAction Unit)) :=
  ⟨_, rfl, by decide, List.not_mem_nil⟩

end OsLabs.Devices
