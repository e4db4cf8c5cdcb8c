import Mathlib.Algebra.Group.Int.Defs
import OsLabs.Lib.Ensures
import OsLabs.Threads.Synch

/-!
# The thread system: `threads/thread.c` with the alarm clock of `devices/timer.c`

One CPU runs threads whose remaining work is a stack of `Code`: each entry is one statement that may be preempted
before and after, or one section executed with interrupts off. A step (`kernelExec`) either executes the
top entry of the running thread or takes an interrupt, which is possible exactly when interrupts are on.

The functions of the source keep their names. They work on the whole state `Kernel` and return in `Except`:
`disabled` is a step that cannot be taken, `fault f` a failed assertion. A thread switch (`schedule`) changes
`cpu`, the page the stack pointer is in; the thread that left resumes at the top of its own stack when it is
scheduled again.

Threads that run client code may call any of the functions of the thread system, in any order and with any arguments;
what they do in between is not modelled. List operations are atomic.
-/

namespace OsLabs.Threads

open Lib Function

/-- The page a `struct thread` is at the start of: the value of a `struct thread *`. -/
abbrev Page := ℕ

/-- `enum thread_status`. -/
inductive ThreadStatus where
  | running
  | ready
  | blocked
  | dying
deriving DecidableEq

/-- `enum intr_level`. -/
inductive IntrLevel where
  | off
  | on
deriving DecidableEq

/-- The locks: the one of the kernel page pool, `tid_lock` and those of clients. -/
inductive LockId where
  | pool
  | tid
  | user (n : ℕ)
deriving DecidableEq

/-- The semaphores: `idle_started` of `thread_start`, those inside locks and those of clients. -/
inductive SemaId where
  | idleStarted
  | lock (l : LockId)
  | user (n : ℕ)
deriving DecidableEq

/-- The functions threads are created with. -/
inductive ThreadFunc where
  | idle
  | client
deriving DecidableEq

/-- What a thread still has to execute. -/
inductive Code where
  /-- Client code: it may call a function of the thread system or return. -/
  | client
  /-- `kernel_thread`, at the first run of a thread. -/
  | kernelThread (function : ThreadFunc)
  | threadExit
  /-- The first statement of `idle`. -/
  | idle
  /-- The loop of `idle`: `intr_disable (); thread_block ()`. -/
  | idleBlock
  /-- The loop of `idle`: `sti; hlt`. -/
  | idleHalt
  | intrSetLevel (level : IntrLevel)
  /-- The end of `intr_handler`, where it yields if it was asked to. -/
  | intrReturn
  | iret
  | semaInit (s : SemaId) (value : ℕ)
  | semaDown (s : SemaId)
  /-- The loop of `sema_down` after `thread_block` returned. -/
  | semaDownLoop (s : SemaId) (old : IntrLevel)
  | semaTryDown (s : SemaId)
  | semaUp (s : SemaId)
  | lockAcquire (l : LockId)
  | lockTryAcquire (l : LockId)
  /-- The `sema_try_down` of `lock_try_acquire`. -/
  | lockTryDown (l : LockId)
  /-- `lock->holder = thread_current ()`. -/
  | setHolder (l : LockId)
  | lockRelease (l : LockId)
  | threadCreate (priority : ℤ) (function : ThreadFunc)
  /-- `thread_create`, in `palloc_get_page`: `bitmap_scan_and_flip` under the lock of the pool. -/
  | pallocScan (priority : ℤ) (function : ThreadFunc)
  /-- `thread_create`: `init_thread`. -/
  | initThread (t : Page) (priority : ℤ) (function : ThreadFunc)
  /-- `thread_create`, in `allocate_tid`: `tid = next_tid++` under `tid_lock`. -/
  | allocateTid (t : Page) (function : ThreadFunc)
  /-- `thread_create`: the frames of the new thread's stack. -/
  | initStack (t : Page) (tid : ℕ) (function : ThreadFunc)
  | threadUnblock (t : Page)
  | timerSleep (ticks : ℤ)
  /-- `timer_sleep` after `thread_block` returned. -/
  | sleepReturn (old : IntrLevel)
  | threadYield
  /-- `wait` of `devices/intq.c` on the waiter field `q`. -/
  | intqWait (q : ℕ)
  /-- `wait` of `devices/intq.c` after `thread_block` returned. -/
  | intqReturn (q : ℕ)
  /-- `signal` of `devices/intq.c` on the waiter field `q`. -/
  | intqSignal (q : ℕ)
deriving DecidableEq

/-- `struct thread`, without the list elements: a thread is in a list when its page is in the list. `magic`
tells whether the page holds a thread at all. -/
structure Thread where
  tid : ℕ
  status : ThreadStatus
  wakeupTime : ℤ
  priority : ℤ
  magic : Bool
  stack : List Code

/-- The record at a page that holds no thread. -/
def Thread.free : Thread :=
  { tid := 0, status := .dying, wakeupTime := 0, priority := 0, magic := false, stack := [] }

/-- The state of the thread system. -/
structure Kernel where
  threads : Page → Thread
  readyList : List Page
  allList : List Page
  idleThread : Option Page
  initialThread : Page
  /-- The page the stack pointer is in: the result of `running_thread`. -/
  cpu : Page
  intrLevel : IntrLevel
  yieldOnReturn : Bool
  ticks : ℤ
  idleTicks : ℕ
  kernelTicks : ℕ
  threadTicks : ℕ
  semas : SemaId → Semaphore Page
  holders : LockId → Option Page
  /-- The waiter fields `not_full` and `not_empty` of the interrupt queues. -/
  waiter : ℕ → Option Page
  /-- The pages of the kernel pool in use. -/
  usedMap : Page → Bool
  nextTid : ℕ

/-- The assertions of the thread system, by the function they are in, and the overflow of `ticks`. -/
inductive KernelAssert where
  | threadCurrent
  | threadUnblock
  | threadBlock
  | schedule
  | scheduleTail
  | initThread
  | lockAcquire
  | lockTryAcquire
  | lockRelease
  | timerSleep
  | intqWait
  | intqSignal
  | ticks
deriving DecidableEq

/-- The result of a piece of kernel code. -/
abbrev Outcome (α : Type) := Except (Halt KernelAssert) α

def priMin : ℤ := 0

def priDefault : ℤ := 31

def priMax : ℤ := 63

def timeSlice : ℕ := 4

/-- A 64-bit signed sum as the machine computes it. -/
def int64 (x : ℤ) : ℤ :=
  Int.bmod x (2 ^ 64)

namespace Kernel

/-- The record at the page of the stack pointer. -/
def current (k : Kernel) : Thread :=
  k.threads k.cpu

@[simps -fullyApplied] def setThread (k : Kernel) (t : Page) (th : Thread) : Kernel :=
  { k with threads := update k.threads t th }

@[simps! -fullyApplied] def setStatus (k : Kernel) (t : Page) (status : ThreadStatus) : Kernel :=
  k.setThread t { k.threads t with status }

/-- The running thread goes on with `code`. -/
@[simps! -fullyApplied] def continueWith (k : Kernel) (code : List Code) : Kernel :=
  k.setThread k.cpu { k.current with stack := code }

@[simps -fullyApplied] def setReady (k : Kernel) (readyList : List Page) : Kernel :=
  { k with readyList }

@[simps -fullyApplied] def setAll (k : Kernel) (allList : List Page) : Kernel :=
  { k with allList }

/-- The stack pointer moves to another thread's page. -/
@[simps -fullyApplied] def switchTo (k : Kernel) (cpu : Page) : Kernel :=
  { k with cpu }

@[simps -fullyApplied] def setLevel (k : Kernel) (intrLevel : IntrLevel) : Kernel :=
  { k with intrLevel }

@[simps -fullyApplied] def setSema (k : Kernel) (s : SemaId) (sema : Semaphore Page) : Kernel :=
  { k with semas := update k.semas s sema }

@[simps -fullyApplied] def setWaiter (k : Kernel) (q : ℕ) (t : Option Page) : Kernel :=
  { k with waiter := update k.waiter q t }

@[simps -fullyApplied] def setLockHolder (k : Kernel) (l : LockId) (t : Option Page) : Kernel :=
  { k with holders := update k.holders l t }

@[simps -fullyApplied] def setNextTid (k : Kernel) (nextTid : ℕ) : Kernel :=
  { k with nextTid }

@[simps -fullyApplied] def setIdle (k : Kernel) (t : Page) : Kernel :=
  { k with idleThread := some t }

/-- The page allocator marks a page as used. -/
@[simps -fullyApplied] def usePage (k : Kernel) (t : Page) : Kernel :=
  { k with usedMap := update k.usedMap t true }

@[simps -fullyApplied] def setTicks (k : Kernel) (ticks : ℤ) : Kernel :=
  { k with ticks }

/-- A lock with its holder and its semaphore. -/
def lock (k : Kernel) (l : LockId) : Lock Page :=
  { holder := k.holders l, semaphore := k.semas (.lock l) }

end Kernel

/-! ## Scheduling -/

/-- `thread_current`. -/
def threadCurrent (k : Kernel) : Outcome Page :=
  if k.current.magic = false ∨ k.current.status ≠ .running then .error (.fault .threadCurrent)
  else .ok k.cpu

/-- `next_thread_to_run`, with the run queue it leaves. -/
def nextThreadToRun (k : Kernel) : Option Page × List Page :=
  match k.readyList with
  | [] => (k.idleThread, [])
  | t :: rest => (some t, rest)

/-- `palloc_free_page` on the page of a thread: the record is overwritten. -/
@[simps! -fullyApplied] def pallocFreePage (k : Kernel) (t : Page) : Kernel :=
  { k.setThread t .free with usedMap := update k.usedMap t false }

/-- `thread_schedule_tail`: the running thread is marked as such and gets a new time slice. -/
@[simps! -fullyApplied] def startSlice (k : Kernel) : Kernel :=
  { k.setStatus k.cpu .running with threadTicks := 0 }

/-- `thread_schedule_tail`. -/
def threadScheduleTail (k : Kernel) (prev : Option Page) : Outcome Kernel :=
  let k := startSlice k
  match prev with
  | none => .ok k
  | some prev =>
    if (k.threads prev).status = .dying ∧ prev ≠ k.initialThread then
      if prev = k.cpu then .error (.fault .scheduleTail) else .ok (pallocFreePage k prev)
    else .ok k

/-- `schedule`. -/
def schedule (k : Kernel) : Outcome Kernel :=
  match nextThreadToRun k with
  | (none, _) => .error (.fault .schedule)
  | (some next, readyList) =>
    if k.intrLevel = .on ∨ k.current.status = .running ∨ (k.threads next).magic = false then
      .error (.fault .schedule)
    else if k.cpu ≠ next then
      threadScheduleTail ((k.setReady readyList).switchTo next) (some k.cpu)
    else threadScheduleTail (k.setReady readyList) none

/-- `thread_block`. -/
def threadBlock (k : Kernel) : Outcome Kernel :=
  if k.intrLevel = .on then .error (.fault .threadBlock)
  else do
    let cur ← threadCurrent k
    schedule (k.setStatus cur .blocked)

/-- `thread_unblock`. -/
def threadUnblock (k : Kernel) (t : Page) : Outcome Kernel :=
  if (k.threads t).magic = false ∨ (k.threads t).status ≠ .blocked then
    .error (.fault .threadUnblock)
  else .ok ((k.setReady (k.readyList ++ [t])).setStatus t .ready)

/-- `thread_yield`, after which the thread goes on with `rest`. -/
def threadYield (k : Kernel) (rest : List Code) : Outcome Kernel := do
  let cur ← threadCurrent k
  let old := k.intrLevel
  let k := (k.setLevel .off).continueWith (.intrSetLevel old :: rest)
  let k := if k.idleThread ≠ some cur then k.setReady (k.readyList ++ [cur]) else k
  schedule (k.setStatus cur .ready)

/-- `thread_exit`. -/
def threadExit (k : Kernel) : Outcome Kernel := do
  let k := (k.setLevel .off).continueWith []
  let cur ← threadCurrent k
  schedule ((k.setAll (k.allList.erase cur)).setStatus cur .dying)

/-! ## Semaphores and interrupt queues -/

/-- One turn of the loop of `sema_down`, entered with interrupts off; the thread goes on with `rest` and gets the level
`old` back when it passes. -/
def semaDownTurn (k : Kernel) (s : SemaId) (old : IntrLevel) (rest : List Code) : Outcome Kernel :=
  match semaDown (k.semas s) k.cpu with
  | (sema, true) => .ok (((k.continueWith rest).setSema s sema).setLevel old)
  | (sema, false) => do
    let _ ← threadCurrent k
    threadBlock ((k.continueWith (.semaDownLoop s old :: rest)).setSema s sema)

/-- `sema_up`. -/
def semaUpTurn (k : Kernel) (s : SemaId) : Outcome Kernel :=
  match semaUp (k.semas s) with
  | (sema, none) => .ok (k.setSema s sema)
  | (sema, some t) => threadUnblock (k.setSema s sema) t

/-- `signal` of `devices/intq.c`. -/
def intqSignal (k : Kernel) (q : ℕ) : Outcome Kernel :=
  match k.waiter q with
  | none => .ok k
  | some t => do
    let k ← threadUnblock k t
    return k.setWaiter q none

/-! ## Creating threads -/

/-- The code a thread function starts with. -/
def ThreadFunc.code : ThreadFunc → List Code
  | .idle => [.idle]
  | .client => [.client]

/-- `init_thread` on a fresh page. -/
def initThread (k : Kernel) (t : Page) (priority : ℤ) : Outcome Kernel :=
  if priMin ≤ priority ∧ priority ≤ priMax then
    .ok ((k.setThread t
      { tid := 0, status := .blocked, wakeupTime := 0, priority, magic := true, stack := [] }).setAll
        (k.allList ++ [t]))
  else .error (.fault .initThread)

/-- `thread_start`, as the code of the initial thread. -/
def threadStart : List Code :=
  [.semaInit .idleStarted 0, .threadCreate priMin .idle, .intrSetLevel .on, .semaDown .idleStarted]

/-! ## The alarm clock -/

/-- `timer_sleep`. -/
def timerSleep (k : Kernel) (n : ℤ) (rest : List Code) : Outcome Kernel :=
  if k.intrLevel = .off then .error (.fault .timerSleep)
  else if n ≤ 0 then .ok (k.continueWith rest)
  else do
    let cur ← threadCurrent k
    let old := k.intrLevel
    let k := (k.setLevel .off).continueWith (.sleepReturn old :: rest)
    let k := k.setThread cur { k.threads cur with wakeupTime := int64 (k.ticks + n) }
    threadBlock k

/-- `update_sleeping_threads`. -/
def updateSleepingThreads (now : ℤ) (k : Kernel) (t : Page) : Outcome Kernel :=
  let th := k.threads t
  if th.status = .blocked ∧ th.wakeupTime > 0 ∧ th.wakeupTime ≤ now then
    threadUnblock (k.setThread t { th with wakeupTime := 0 }) t
  else .ok k

/-- `thread_foreach`. -/
def threadForeach (k : Kernel) (func : Kernel → Page → Outcome Kernel) : Outcome Kernel :=
  k.allList.foldlM func k

/-- `thread_tick`. -/
def threadTick (k : Kernel) : Outcome Kernel := do
  let t ← threadCurrent k
  let k :=
    if k.idleThread = some t then { k with idleTicks := k.idleTicks + 1 }
    else { k with kernelTicks := k.kernelTicks + 1 }
  let k := { k with threadTicks := k.threadTicks + 1 }
  return if k.threadTicks ≥ timeSlice then { k with yieldOnReturn := true } else k

/-- `timer_interrupt`. The counter is a signed 64-bit integer, its overflow is undefined. -/
def timerInterrupt (k : Kernel) : Outcome Kernel :=
  let now := k.ticks + 1
  if now < 2 ^ 63 then do
    let k ← threadTick (k.setTicks now)
    threadForeach k (updateSleepingThreads now)
  else .error (.fault .ticks)

/-! ## One step -/

/-- What the handlers of the other devices call: the disk's raises a semaphore, those of the keyboard and the serial
port signal an interrupt queue. -/
inductive HandlerCall where
  | semaUp (s : SemaId)
  | semaTryDown (s : SemaId)
  | intqSignal (q : ℕ)

/-- One call of an interrupt handler. -/
def handlerCall (k : Kernel) : HandlerCall → Outcome Kernel
  | .semaUp s => semaUpTurn k s
  | .semaTryDown s => .ok (k.setSema s (semaTryDown (k.semas s)).1)
  | .intqSignal q => intqSignal k q

/-- The calls client code may make. -/
def Code.isCall : Code → Bool
  | .threadCreate _ .client | .threadExit | .intrSetLevel _ | .semaInit _ _ | .semaDown _
  | .semaTryDown _ | .semaUp _ | .lockAcquire _ | .lockTryAcquire _ | .lockRelease _
  | .timerSleep _ | .threadYield | .intqWait _ | .intqSignal _ => true
  | _ => false

/-- Executes the entry `c` at the top of the running thread's stack, below which is `rest`. -/
def execCode (k : Kernel) (rest : List Code) : Code → Outcome Kernel
  | .client => .error .disabled
  | .kernelThread f => .ok ((k.continueWith (f.code ++ .threadExit :: rest)).setLevel .on)
  | .threadExit => threadExit k
  | .idle => do
    let cur ← threadCurrent k
    return (k.continueWith (.semaUp .idleStarted :: .idleBlock :: rest)).setIdle cur
  | .idleBlock => threadBlock ((k.setLevel .off).continueWith (.idleHalt :: .idleBlock :: rest))
  | .idleHalt => .ok ((k.continueWith rest).setLevel .on)
  | .intrSetLevel level => .ok ((k.continueWith rest).setLevel level)
  | .intrReturn =>
    if k.yieldOnReturn then .ok (k.continueWith (.threadYield :: .iret :: rest))
    else .ok (k.continueWith (.iret :: rest))
  | .iret => .ok ((k.continueWith rest).setLevel .on)
  | .semaInit s value => .ok ((k.continueWith rest).setSema s (semaInit value))
  | .semaDown s => semaDownTurn (k.setLevel .off) s k.intrLevel rest
  | .semaDownLoop s old => semaDownTurn k s old rest
  | .semaTryDown s => .ok ((k.continueWith rest).setSema s (semaTryDown (k.semas s)).1)
  | .semaUp s => semaUpTurn (k.continueWith rest) s
  | .lockAcquire l => do
    let cur ← threadCurrent k
    if lockHeldByCurrentThread (k.lock l) cur then .error (.fault .lockAcquire)
    else return k.continueWith (.semaDown (.lock l) :: .setHolder l :: rest)
  | .lockTryAcquire l => do
    let cur ← threadCurrent k
    if lockHeldByCurrentThread (k.lock l) cur then .error (.fault .lockTryAcquire)
    else return k.continueWith (.lockTryDown l :: rest)
  | .lockTryDown l =>
    match semaTryDown (k.semas (.lock l)) with
    | (sema, true) => .ok ((k.continueWith (.setHolder l :: rest)).setSema (.lock l) sema)
    | (sema, false) => .ok ((k.continueWith rest).setSema (.lock l) sema)
  | .setHolder l => do
    let cur ← threadCurrent k
    return (k.continueWith rest).setLockHolder l (some cur)
  | .lockRelease l => do
    let cur ← threadCurrent k
    if !lockHeldByCurrentThread (k.lock l) cur then .error (.fault .lockRelease)
    else return (k.continueWith (.semaUp (.lock l) :: rest)).setLockHolder l none
  | .threadCreate priority f =>
    .ok (k.continueWith (.lockAcquire .pool :: .pallocScan priority f :: rest))
  | .pallocScan _ _ => .error .disabled
  | .initThread t priority f => do
    let k ← initThread (k.continueWith rest) t priority
    return k.continueWith (.lockAcquire .tid :: .allocateTid t f :: rest)
  | .allocateTid t f =>
    .ok ((k.continueWith (.lockRelease .tid :: .initStack t k.nextTid f :: rest)).setNextTid
      (k.nextTid + 1))
  | .initStack t tid f =>
    .ok (((k.continueWith rest).setThread t
      { k.threads t with tid, stack := [.kernelThread f] }).continueWith (.threadUnblock t :: rest))
  | .threadUnblock t => threadUnblock (k.continueWith rest) t
  | .timerSleep n => timerSleep k n rest
  | .sleepReturn old => .ok ((k.continueWith rest).setLevel old)
  | .threadYield => threadYield k rest
  | .intqWait q =>
    if k.intrLevel = .on then .error (.fault .intqWait)
    else do
      let cur ← threadCurrent k
      threadBlock ((k.continueWith (.intqReturn q :: rest)).setWaiter q (some cur))
  | .intqReturn _ => .ok (k.continueWith rest)
  | .intqSignal q =>
    if k.intrLevel = .on then .error (.fault .intqSignal)
    else intqSignal (k.continueWith rest) q

/-- What happens next: the running thread executes its next entry, makes a call or returns from client code, gets the
answer of the page allocator, or is interrupted. -/
inductive KernelAction where
  | exec
  | call (c : Code)
  | ret
  | alloc (page : Option Page)
  | timer
  | interrupt (calls : List HandlerCall)

/-- An external interrupt: `intr_handler` around `handler`, up to the point where it may yield. -/
def intrHandler (k : Kernel) (handler : Kernel → Outcome Kernel) : Outcome Kernel :=
  if k.intrLevel = .off then .error .disabled
  else do
    let k ← handler { k with intrLevel := .off, yieldOnReturn := false }
    return k.continueWith (.intrReturn :: k.current.stack)

/-- One step of the thread system. -/
def kernelExec (k : Kernel) : KernelAction → Outcome Kernel
  | .exec =>
    match k.current.stack with
    | [] => .error .disabled
    | c :: rest => execCode k rest c
  | .call c =>
    match k.current.stack with
    | .client :: rest => if c.isCall then .ok (k.continueWith (c :: .client :: rest)) else .error .disabled
    | _ => .error .disabled
  | .ret =>
    match k.current.stack with
    | .client :: rest => .ok (k.continueWith rest)
    | _ => .error .disabled
  | .alloc page =>
    match k.current.stack with
    | .pallocScan priority f :: rest =>
      match page with
      | none => .ok (k.continueWith (.lockRelease .pool :: rest))
      | some t =>
        if k.usedMap t then .error .disabled
        else
          .ok (((k.continueWith rest).usePage t).continueWith
            (.lockRelease .pool :: .initThread t priority f :: rest))
    | _ => .error .disabled
  | .timer => intrHandler k timerInterrupt
  | .interrupt calls => intrHandler k fun k => calls.foldlM handlerCall k

/-- The state `thread_init` leaves, with the initial thread at page `main` about to call `thread_start`. -/
def kernelStart (main : Page) : Kernel where
  threads := update (fun _ => .free) main
    { tid := 1, status := .running, wakeupTime := 0, priority := priDefault, magic := true,
      stack := threadStart ++ [.client, .threadExit] }
  readyList := []
  allList := [main]
  idleThread := none
  initialThread := main
  cpu := main
  intrLevel := .off
  yieldOnReturn := false
  ticks := 0
  idleTicks := 0
  kernelTicks := 0
  threadTicks := 0
  semas
    | .lock _ => semaInit 1
    | _ => semaInit 0
  holders := fun _ => none
  waiter := fun _ => none
  usedMap := update (fun _ => false) main true
  nextTid := 2

/-- The machine of the thread system. -/
def kernelMachine : Machine Kernel KernelAction :=
  .ofExec (fun k => ∃ main, k = kernelStart main) kernelExec

end OsLabs.Threads
