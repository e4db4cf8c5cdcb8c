import Mathlib.Data.Set.Card
import OsLabs.Lib.Machine
import OsLabs.Threads.Synch

/-!
# One semaphore under every interleaving of its callers

The machine of a single semaphore: any number of threads and interrupt handlers call `sema_down`,
`sema_try_down` and `sema_up`, one interrupts-off section per step. Between its sections a thread is
`outside`, `waiting` (queued and blocked in `sema_down`) or `awakened` (popped by a `sema_up`, not yet
back at the loop test).

`sema_up` hands the unit to nobody: it increments the value and wakes one thread, and a third thread
may take the unit before the woken one tests the value. `SemaInv` is what survives this: while
somebody waits, the units on the counter are covered by threads that are on their way to the test.
-/

namespace OsLabs.Threads

open Lib Function

/-- Where a thread is with respect to the semaphore. -/
inductive SemaPc where
  | outside
  | waiting
  | awakened
deriving DecidableEq

/-- The semaphore with the position of every thread. -/
structure SemaState (T : Type) where
  sema : Semaphore T
  pc : T → SemaPc

/-- One interrupts-off section. `down t` is a call of `sema_down` by `t`, or the next turn of its loop
after `t` was woken. A caller `none` of the other two is an interrupt handler. -/
inductive SemaAction (T : Type) where
  | down (t : T)
  | tryDown (caller : Option T)
  | up (caller : Option T)

variable {T : Type} [DecidableEq T]

/-- A thread calls a semaphore function only when it is not inside `sema_down`; an interrupt handler
may call one at any time. -/
def SemaState.canCall (s : SemaState T) : Option T → Bool
  | none => true
  | some t => s.pc t = .outside

/-- One section of the semaphore's code. -/
def semaStep (s : SemaState T) : SemaAction T → Option (SemaState T)
  | .down t =>
    if s.pc t = .waiting then none
    else
      match semaDown s.sema t with
      | (sema, true) => some { sema, pc := update s.pc t .outside }
      | (sema, false) => some { sema, pc := update s.pc t .waiting }
  | .tryDown caller =>
    if s.canCall caller then some { s with sema := (semaTryDown s.sema).1 } else none
  | .up caller =>
    if s.canCall caller then
      match semaUp s.sema with
      | (sema, none) => some { s with sema }
      | (sema, some t) => some { sema, pc := update s.pc t .awakened }
    else none

/-- The state `sema_init (sema, v)` leaves: no thread inside. -/
def semaStart (v : ℕ) : SemaState T :=
  { sema := semaInit v, pc := fun _ => .outside }

/-- The machine of one semaphore. -/
def semaMachine (v : ℕ) : Machine (SemaState T) (SemaAction T) where
  Init s := s = semaStart v
  step := semaStep

/-! ## What one section can do -/

/-- Everything a section can do, guards included. -/
inductive SemaTurn (s : SemaState T) : SemaAction T → SemaState T → Prop
  | passed (t : T) (hpc : s.pc t ≠ .waiting) (hv : 0 < s.sema.value) :
      SemaTurn s (.down t)
        { sema := { s.sema with value := s.sema.value - 1 }
          pc := update s.pc t .outside }
  | queued (t : T) (hpc : s.pc t ≠ .waiting) (hv : s.sema.value = 0) :
      SemaTurn s (.down t)
        { sema := { s.sema with waiters := s.sema.waiters ++ [t] }
          pc := update s.pc t .waiting }
  | taken (caller : Option T) (hv : 0 < s.sema.value) :
      SemaTurn s (.tryDown caller) { s with sema := { s.sema with value := s.sema.value - 1 } }
  | refused (caller : Option T) (hv : s.sema.value = 0) : SemaTurn s (.tryDown caller) s
  | released (caller : Option T) (hw : s.sema.waiters = []) :
      SemaTurn s (.up caller)
        { s with sema := { s.sema with value := (s.sema.value + 1) % 2 ^ 32 } }
  | woke (caller : Option T) (t : T) (rest : List T) (hw : s.sema.waiters = t :: rest) :
      SemaTurn s (.up caller)
        { sema := { value := (s.sema.value + 1) % 2 ^ 32, waiters := rest }
          pc := update s.pc t .awakened }

variable {s s' : SemaState T} {a : SemaAction T}

lemma SemaTurn.of_step (h : semaStep s a = some s') : SemaTurn s a s' := by
  cases a with
  | down t =>
    obtain ⟨hpc, hs'⟩ := Option.ite_none_left_eq_some.mp h
    rcases Nat.eq_zero_or_pos s.sema.value with hv | hv
    · rw [semaDown_of_zero hv] at hs'
      cases hs'
      exact .queued t hpc hv
    · rw [semaDown_of_pos hv] at hs'
      cases hs'
      exact .passed t hpc hv
  | tryDown caller =>
    obtain ⟨_, hs'⟩ := Option.ite_none_right_eq_some.mp h
    rcases Nat.eq_zero_or_pos s.sema.value with hv | hv
    · rw [semaTryDown_of_zero hv] at hs'
      cases hs'
      exact .refused caller hv
    · rw [semaTryDown_of_pos hv] at hs'
      cases hs'
      exact .taken caller hv
  | up caller =>
    obtain ⟨_, hs'⟩ := Option.ite_none_right_eq_some.mp h
    cases hw : s.sema.waiters with
    | nil =>
      rw [semaUp_of_nil hw] at hs'
      cases hs'
      exact .released caller hw
    | cons t rest =>
      rw [semaUp_of_cons hw] at hs'
      cases hs'
      exact .woke caller t rest hw

/-! ## The invariant -/

/-- The threads popped from `waiters` that have not yet tested the value again. -/
def SemaState.awakened (s : SemaState T) : Set T :=
  {t | s.pc t = .awakened}

/-- What every reachable state of the semaphore satisfies. -/
structure SemaInv (s : SemaState T) : Prop where
  nodup : s.sema.waiters.Nodup
  mem_waiters : ∀ t, t ∈ s.sema.waiters ↔ s.pc t = .waiting
  finite : s.awakened.Finite
  covered : s.sema.waiters = [] ∨ s.sema.value ≤ s.awakened.ncard

omit [DecidableEq T] in
lemma semaStart_inv (v : ℕ) : SemaInv (semaStart v : SemaState T) where
  nodup := List.nodup_nil
  mem_waiters t := by simp [semaStart]
  finite := by simp [SemaState.awakened, semaStart]
  covered := Or.inl rfl

/-- A thread that leaves the loop or queues itself is no longer awakened. -/
lemma awakened_update_of_ne {pc : T → SemaPc} {t : T} {p : SemaPc} (hp : p ≠ .awakened) :
    {u | update pc t p u = .awakened} = {u | pc u = .awakened} \ {t} := by
  ext u
  by_cases hu : u = t
  · subst hu; simp [hp]
  · simp [hu]

lemma awakened_update_awakened {pc : T → SemaPc} {t : T} :
    {u | update pc t .awakened u = .awakened} = insert t {u | pc u = .awakened} := by
  ext u
  by_cases hu : u = t
  · subst hu; simp
  · simp [hu]

lemma SemaTurn.inv (h : SemaTurn s a s') (hs : SemaInv s) : SemaInv s' := by
  cases h with
  | passed t hpc hv =>
    refine ⟨hs.nodup, fun u => ?_, ?_, ?_⟩
    · by_cases hu : u = t
      · subst hu; simp [hs.mem_waiters, hpc]
      · simp [hs.mem_waiters, hu]
    · simp only [SemaState.awakened, awakened_update_of_ne (show SemaPc.outside ≠ .awakened by decide)]
      exact hs.finite.sdiff
    · -- one unit and at most one awakened thread are gone
      refine hs.covered.imp id fun hle => ?_
      simp only [SemaState.awakened, awakened_update_of_ne (show SemaPc.outside ≠ .awakened by decide)]
      have hcard := Set.pred_ncard_le_ncard_sdiff_singleton s.awakened t
      simp only [SemaState.awakened] at hcard hle
      omega
  | queued t hpc hv =>
    refine ⟨?_, fun u => ?_, ?_, Or.inr (by simp [hv])⟩
    · have hnot : t ∉ s.sema.waiters := fun hmem => hpc ((hs.mem_waiters t).mp hmem)
      simpa using List.Nodup.concat hnot hs.nodup
    · by_cases hu : u = t
      · subst hu; simp
      · simp [hs.mem_waiters, hu]
    · simp only [SemaState.awakened, awakened_update_of_ne (show SemaPc.waiting ≠ .awakened by decide)]
      exact hs.finite.sdiff
  | taken caller hv =>
    exact ⟨hs.nodup, hs.mem_waiters, hs.finite,
      hs.covered.imp id fun hle => (Nat.sub_le _ _).trans hle⟩
  | refused caller hv => exact hs
  | released caller hw => exact ⟨hs.nodup, hs.mem_waiters, hs.finite, Or.inl hw⟩
  | woke caller t rest hw =>
    have hnd := hs.nodup
    rw [hw, List.nodup_cons] at hnd
    have hpct : s.pc t = .waiting := (hs.mem_waiters t).mp (by simp [hw])
    have hnot : t ∉ s.awakened := by simp [SemaState.awakened, hpct]
    refine ⟨hnd.2, fun u => ?_, ?_, Or.inr ?_⟩
    · by_cases hu : u = t
      · subst hu; simp [hnd.1]
      · have := hs.mem_waiters u
        rw [hw] at this
        simpa [hu] using this
    · simp only [SemaState.awakened, awakened_update_awakened]
      exact hs.finite.insert t
    · -- the new unit is covered by the thread just woken
      simp only [SemaState.awakened, awakened_update_awakened]
      have hcard : (insert t s.awakened).ncard = s.awakened.ncard + 1 :=
        Set.ncard_insert_of_notMem hnot hs.finite
      simp only [SemaState.awakened] at hcard
      have hle := hs.covered.resolve_left (by simp [hw])
      simp only [SemaState.awakened] at hle
      exact (Nat.mod_le _ _).trans (by omega)

lemma semaMachine_inv {v : ℕ} (h : (semaMachine v).Reachable s) : SemaInv s := by
  refine h.invariant (fun s hs => ?_) fun s a s' _ hs hstep => ?_
  · rw [show s = semaStart v from hs]
    exact semaStart_inv v
  · exact (SemaTurn.of_step hstep).inv hs

/-! ## Counting the completed calls -/

/-- A `sema_down` that completed in this step: its thread left the loop. -/
def isCompletedDown : SemaState T × SemaAction T → Bool
  | (s, .down _) => 0 < s.sema.value
  | _ => false

/-- A successful `sema_try_down`. -/
def isSuccessfulTryDown : SemaState T × SemaAction T → Bool
  | (s, .tryDown _) => 0 < s.sema.value
  | _ => false

/-- A `sema_up`. -/
def isCompletedUp : SemaState T × SemaAction T → Bool
  | (_, .up _) => true
  | _ => false

/-- The step does not overflow the 32-bit counter. -/
def CounterFits (s : SemaState T) : SemaAction T → Prop
  | .up _ => s.sema.value + 1 < 2 ^ 32
  | _ => True

instance (s : SemaState T) (a : SemaAction T) : Decidable (CounterFits s a) := by
  cases a <;> simp only [CounterFits] <;> infer_instance

/-- The runs of the semaphore on which the counter stays below `2 ^ 32`. -/
def boundedSema (v : ℕ) : Machine (SemaState T) (SemaAction T) :=
  (semaMachine v).restrict CounterFits

/-- One section keeps the balance of units. -/
lemma SemaTurn.balance (h : SemaTurn s a s') (hfits : CounterFits s a) :
    s'.sema.value + (isCompletedDown (s, a)).toNat + (isSuccessfulTryDown (s, a)).toNat
      = s.sema.value + (isCompletedUp (s, a)).toNat := by
  cases h with
  | passed t hpc hv => simp [isCompletedDown, isSuccessfulTryDown, isCompletedUp, hv]; omega
  | queued t hpc hv => simp [isCompletedDown, isSuccessfulTryDown, isCompletedUp, hv]
  | taken caller hv => simp [isCompletedDown, isSuccessfulTryDown, isCompletedUp, hv]; omega
  | refused caller hv => simp [isCompletedDown, isSuccessfulTryDown, isCompletedUp, hv]
  | released caller hw =>
    simpa [isCompletedDown, isSuccessfulTryDown, isCompletedUp] using Nat.mod_eq_of_lt hfits
  | woke caller t rest hw =>
    simpa [isCompletedDown, isSuccessfulTryDown, isCompletedUp] using Nat.mod_eq_of_lt hfits

/-- The units on the counter and those taken add up to the initial ones and those given back. -/
lemma boundedSema_balance {v : ℕ} {as : List (SemaAction T)}
    (h : (boundedSema v).run (semaStart v) as = some s) :
    s.sema.value + ((boundedSema v).history (semaStart v) as).countP isCompletedDown
        + ((boundedSema v).history (semaStart v) as).countP isSuccessfulTryDown
      = v + ((boundedSema v).history (semaStart v) as).countP isCompletedUp := by
  refine (boundedSema v).run_induction (by simp [semaStart]) ?_ h
  intro as r a t hrun hbal hstep
  obtain ⟨hfits, hstep'⟩ := Machine.restrict_step.mp hstep
  have hturn := (SemaTurn.of_step hstep').balance hfits
  simp only [Machine.countP_history_snoc _ hrun]
  omega

/-- Semaphores lose no unit and no wakeup: the value is the initial value plus the completed `sema_up`
calls minus the completed `sema_down` and successful `sema_try_down` calls, and while somebody waits
every unit is covered by an awakened thread. -/
theorem semaphore_conserves (v : ℕ) {as : List (SemaAction T)} {s : SemaState T}
    (h : (boundedSema v).run (semaStart v) as = some s) :
    s.sema.value + ((boundedSema v).history (semaStart v) as).countP isCompletedDown
        + ((boundedSema v).history (semaStart v) as).countP isSuccessfulTryDown
      = v + ((boundedSema v).history (semaStart v) as).countP isCompletedUp
    ∧ (s.sema.waiters = [] ∨ s.sema.value ≤ {t | s.pc t = .awakened}.ncard)
    ∧ ¬(0 < s.sema.value ∧ s.sema.waiters ≠ [] ∧ ∀ t, s.pc t ≠ .awakened) := by
  have hinv : SemaInv s := semaMachine_inv ⟨semaStart v, as, rfl, Machine.run_of_restrict h⟩
  refine ⟨boundedSema_balance h, hinv.covered, ?_⟩
  rintro ⟨hpos, hwait, hnone⟩
  -- no awakened thread: the covering set is empty
  have hempty : s.awakened = ∅ := Set.eq_empty_iff_forall_notMem.mpr hnone
  have hle := hinv.covered.resolve_left hwait
  rw [hempty, Set.ncard_empty] at hle
  omega

/-- Thread 0 waits, a handler's `sema_up` wakes it, thread 1 takes the unit first and thread 0 queues
itself again. -/
theorem semaphore_conserves_barging :
    ∃ s : SemaState ℕ,
      (boundedSema 0).run (semaStart 0) [.down 0, .up none, .down 1, .down 0] = some s ∧
      s.sema.value + 1 + 0 = 0 + 1 ∧ s.sema.waiters = [0] := by
  refine ⟨_, rfl, ?_, rfl⟩
  exact (@semaphore_conserves ℕ _ 0 [.down 0, .up none, .down 1, .down 0] _ rfl).1

end OsLabs.Threads
