import Mathlib.Algebra.Group.Nat.Defs
import Mathlib.Logic.Function.Basic

/-!
# `threads/synch.c`: semaphores and locks as data

The bodies of `sema_init`, `sema_down`, `sema_try_down` and `sema_up` as functions of the
semaphore alone. Each is one interrupts-off section: nothing else can run between
its reads and its writes. What the sections do to threads (`thread_block`,
`thread_unblock`) is left to the caller, so the same functions serve the machines in
which a thread is only a program counter and the kernel with its run queue.

`thread_block` in `sema_down` gives the CPU away in the middle of the loop, so the section
modelled is one turn of the loop: a thread that was woken enters `semaDown` again and may find
the value 0 again.
-/

namespace OsLabs.Threads

variable {T : Type}

/-- `struct semaphore`: an `unsigned` counter and the threads waiting for it, in the order
`list_push_back` put them. -/
structure Semaphore (T : Type) where
  value : ℕ
  waiters : List T
deriving DecidableEq

/-- `sema_init`. -/
@[simps -fullyApplied]
def semaInit (value : ℕ) : Semaphore T :=
  { value, waiters := [] }

/-- One turn of the loop of `sema_down` by the thread `cur`, with the decrement after the loop. The
flag is `true` when the thread leaves the loop, `false` when it queued itself and blocks. -/
def semaDown (sema : Semaphore T) (cur : T) : Semaphore T × Bool :=
  if sema.value = 0 then
    ({ sema with waiters := sema.waiters ++ [cur] }, false)
  else
    ({ sema with value := sema.value - 1 }, true)

/-- `sema_try_down`, with its return value. -/
def semaTryDown (sema : Semaphore T) : Semaphore T × Bool :=
  if sema.value > 0 then
    ({ sema with value := sema.value - 1 }, true)
  else
    (sema, false)

/-- `sema_up`: pops the front waiter, if any, for `thread_unblock`, and increments the counter, which
is 32 bits wide. -/
def semaUp (sema : Semaphore T) : Semaphore T × Option T :=
  match sema.waiters with
  | [] => ({ sema with value := (sema.value + 1) % 2 ^ 32 }, none)
  | t :: rest => ({ value := (sema.value + 1) % 2 ^ 32, waiters := rest }, some t)

/-- `struct lock`: the thread holding it, `none` for a null pointer, and its semaphore. -/
structure Lock (T : Type) where
  holder : Option T
  semaphore : Semaphore T
deriving DecidableEq

/-- `lock_init`. -/
def lockInit : Lock T :=
  { holder := none, semaphore := semaInit 1 }

/-- `lock_held_by_current_thread`, called by the thread `cur`. -/
def lockHeldByCurrentThread [DecidableEq T] (lock : Lock T) (cur : T) : Bool :=
  lock.holder = some cur

variable {sema : Semaphore T}

lemma semaDown_of_zero (h : sema.value = 0) (cur : T) :
    semaDown sema cur = ({ sema with waiters := sema.waiters ++ [cur] }, false) := by
  rw [semaDown, if_pos h]

lemma semaDown_of_pos (h : 0 < sema.value) (cur : T) :
    semaDown sema cur = ({ sema with value := sema.value - 1 }, true) := by
  rw [semaDown, if_neg (by omega)]

lemma semaTryDown_of_zero (h : sema.value = 0) : semaTryDown sema = (sema, false) := by
  rw [semaTryDown, if_neg (by omega)]

lemma semaTryDown_of_pos (h : 0 < sema.value) :
    semaTryDown sema = ({ sema with value := sema.value - 1 }, true) := by
  rw [semaTryDown, if_pos h]

lemma semaUp_of_nil (h : sema.waiters = []) :
    semaUp sema = ({ sema with value := (sema.value + 1) % 2 ^ 32 }, none) := by
  rw [semaUp, h]

lemma semaUp_of_cons {t : T} {rest : List T} (h : sema.waiters = t :: rest) :
    semaUp sema = ({ value := (sema.value + 1) % 2 ^ 32, waiters := rest }, some t) := by
  rw [semaUp, h]

end OsLabs.Threads
