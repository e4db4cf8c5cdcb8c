import OsLabs.Threads.KernelInvariant

/-!
# The alarm clock: `timer_sleep` and the timer interrupt

A thread that calls `timer_sleep (n)` at tick `t` is followed through an arbitrary run of the thread system.
One step either leaves its record alone or is the timer interrupt that finds it due (`StepResult.sleeping`);
by induction the thread sleeps in every state before tick `t + n` and is woken by the interrupt that makes the
counter `t + n`. After that it is up until it runs again, so nothing unblocks it a second time, and its wakeup
time stays 0 until its next `timer_sleep`.
-/

namespace OsLabs.Threads

open Lib

/-- A signed 64-bit sum that does not overflow. -/
lemma int64_of_bounds {x : ℤ} (hpos : 0 ≤ x) (hmax : x < 2 ^ 63) : int64 x = x := by
  rw [int64, Int.bmod_def, Int.emod_eq_of_lt hpos (by omega), if_pos (by omega)]

variable {k k' k₁ : Kernel} {a : KernelAction} {t : Page} {wakeup : ℤ}

/-- The clock counts the timer interrupts. -/
lemma StepResult.clock (h : StepResult k a k') :
    k'.ticks = k.ticks ∧ a ≠ .timer ∨ k'.ticks = k.ticks + 1 ∧ a = .timer := by
  cases h with
  | switches hne h => exact Or.inl ⟨h.frame.ticks, hne⟩
  | sleeps hstack h => exact Or.inl ⟨h.ticks, by simp⟩
  | ticks h => exact Or.inr ⟨h.ticks, rfl⟩

lemma kernelMachine_step_result (h : KernelInv k) (hstep : kernelMachine.step k a = some k') :
    StepResult k a k' :=
  (kernelExec_spec h a).of_eq_ok (Machine.ofExec_step.mp hstep)

lemma kernelMachine_ticks_nonneg (h : kernelMachine.Reachable k) : 0 ≤ k.ticks := by
  refine h.invariant (fun k hk => ?_) fun k a k' hreach hk hstep => ?_
  · obtain ⟨main, rfl⟩ := hk
    exact Int.le_refl 0
  · have hclock := (kernelMachine_step_result (kernelMachine_inv hreach) hstep).clock
    omega

/-! ## One step -/

/-- A sleeping thread is left alone, or it is due and the timer interrupt wakes it up. -/
lemma StepResult.sleeping (h : StepResult k a k') (hinv : KernelInv k) (hsleep : 0 < (k.threads t).wakeupTime) :
    k'.threads t = k.threads t ∧ (a = .timer → k'.ticks < (k.threads t).wakeupTime) ∨
    a = .timer ∧ (k.threads t).wakeupTime ≤ k'.ticks ∧
      k'.threads t = { k.threads t with wakeupTime := 0, status := .ready } := by
  obtain ⟨hb, _⟩ := (hinv.lists.thread t).sleeping (by omega)
  have hne := hinv.ne_cpu (by rw [hb]; decide)
  cases h with
  | switches hna h => exact Or.inl ⟨h.frame.sleeping t (by omega), fun ha => absurd ha hna⟩
  | sleeps hstack h => exact Or.inl ⟨h.sleeping t hne (by omega), nofun⟩
  | ticks h =>
    have hth := h.threads t hne
    have hticks := h.ticks
    unfold Thread.wake at hth
    by_cases hdue : (k.threads t).due (k.ticks + 1)
    · rw [if_pos hdue] at hth
      exact Or.inr ⟨rfl, by rw [hticks]; exact hdue.2.2, hth⟩
    · rw [if_neg hdue] at hth
      refine Or.inl ⟨hth, fun _ => ?_⟩
      have hnot : ¬(k.threads t).wakeupTime ≤ k.ticks + 1 := fun hle => hdue ⟨hb, hsleep, hle⟩
      omega

/-- A thread that is up and does not run stays up. -/
lemma StepResult.up (h : StepResult k a k') (hne : t ≠ k.cpu) (hup : (k.threads t).isUp) :
    (k'.threads t).isUp := by
  cases h with
  | switches hna h => exact h.frame.up t hne hup
  | sleeps hstack h => exact h.up t hne hup
  | ticks h =>
    have hth := h.threads t hne
    have hdue : ¬(k.threads t).due (k.ticks + 1) := by
      rintro ⟨hb, _⟩
      rcases hup with hup | hup <;> rw [hb] at hup <;> cases hup
    rw [hth, Thread.wake, if_neg hdue]
    exact hup

/-- The running thread is about to execute `timer_sleep`. -/
def callsTimerSleep (t : Page) (p : Kernel × KernelAction) : Bool :=
  match p with
  | (k, .exec) =>
    match k.current.stack with
    | .timerSleep _ :: _ => k.cpu = t
    | _ => false
  | _ => false

/-- A wakeup time is set by `timer_sleep` only. -/
lemma StepResult.awake (h : StepResult k a k') (hawake : (k.threads t).wakeupTime = 0)
    (hno : callsTimerSleep t (k, a) = false) : (k'.threads t).wakeupTime = 0 := by
  cases h with
  | switches hna h => exact h.frame.awake t hawake
  | sleeps hstack h =>
    have hne : t ≠ k.cpu := by
      rintro rfl
      simp only [callsTimerSleep, hstack, decide_true, Bool.true_eq_false] at hno
    exact h.awake t hne hawake
  | ticks h =>
    by_cases htc : t = k.cpu
    · rw [htc, h.current]
      rw [htc] at hawake
      exact hawake
    · rw [h.threads t htc, Thread.wake]
      split
      · rfl
      · exact hawake

/-- The timer interrupt leaves alone a thread that is blocked outside `timer_sleep`. -/
lemma Ticks.keeps (h : Ticks k k') (hinv : KernelInv k) {u : Page} (hb : (k.threads u).status = .blocked)
    (hreason : (k.threads u).reason ≠ .sleep) : k'.threads u = k.threads u := by
  have hdue : ¬(k.threads u).due (k.ticks + 1) := by
    rintro ⟨_, hpos, _⟩
    exact hreason ((hinv.lists.thread u).sleeping (by omega)).2
  rw [h.threads u (hinv.ne_cpu (by rw [hb]; decide)), Thread.wake, if_neg hdue]

/-- What the call of `timer_sleep` does when it goes to sleep. -/
lemma KernelInv.calls_sleep (hinv : KernelInv k) {n : ℤ} {rest : List Code}
    (hcall : k.current.stack = .timerSleep n :: rest) (hn : 0 < n)
    (hstep : kernelMachine.step k .exec = some k') : Sleeps k n rest k' := by
  have hexec : kernelExec k .exec = .ok k' := Machine.ofExec_step.mp hstep
  simp only [kernelExec, hcall] at hexec
  rcases (timerSleep_spec hinv hcall).of_eq_ok hexec with ⟨hle, _⟩ | hsleeps
  · omega
  · exact hsleeps

/-! ## Whole runs -/

/-- The step unblocks `t`: it is blocked before and not after. -/
def unblocks (t : Page) (p : Kernel × KernelAction) : Bool :=
  match kernelMachine.step p.1 p.2 with
  | none => false
  | some k' => (p.1.threads t).status = .blocked && (k'.threads t).status ≠ .blocked

lemma unblocks_eq (h : kernelMachine.step k a = some k') :
    unblocks t (k, a) = (decide ((k.threads t).status = .blocked) &&
      decide ((k'.threads t).status ≠ .blocked)) := by
  simp only [unblocks, h]

/-- The wakeup time stays 0 over a run in which the thread does not call `timer_sleep`. -/
lemma awake_run (hreach : kernelMachine.Reachable k) (hawake : (k.threads t).wakeupTime = 0)
    {as : List KernelAction} (hrun : kernelMachine.run k as = some k')
    (hno : ∀ p ∈ kernelMachine.history k as, callsTimerSleep t p = false) : (k'.threads t).wakeupTime = 0 := by
  revert hno
  refine kernelMachine.run_induction (fun _ => hawake) ?_ hrun
  intro as r a r' hr ih hstep hno
  rw [kernelMachine.history_snoc hr] at hno
  have hbefore := ih fun p hp => hno p (List.mem_append_left _ hp)
  have hresult := kernelMachine_step_result (kernelMachine_inv (hreach.run hr)) hstep
  exact hresult.awake hbefore (hno (r, a) (by simp))

/-- The interrupt that wakes `t` up in a run `mid` from `k₁` to `k₂`. -/
structure WokenBy (k₁ : Kernel) (mid : List KernelAction) (k₂ : Kernel) (t : Page) (wakeup : ℤ)
    (before after : List KernelAction) (r r' : Kernel) : Prop where
  split : mid = before ++ .timer :: after
  run_before : kernelMachine.run k₁ before = some r
  asleep : (r.threads t).status = .blocked ∧ (r.threads t).wakeupTime = wakeup
  interrupt : kernelMachine.step r .timer = some r'
  ticks : r'.ticks = wakeup
  awake : (r'.threads t).status = .ready ∧ t ∈ r'.readyList ∧ (r'.threads t).wakeupTime = 0
  run_after : kernelMachine.run r' after = some k₂

section Sleeping

variable {k₂ : Kernel} {mid : List KernelAction} (hreach : kernelMachine.Reachable k₁) (hpos : 0 < wakeup)
  (hlt : k₁.ticks < wakeup) (ht : (k₁.threads t).wakeupTime = wakeup)
include hreach hpos hlt ht

/-- Before its tick the thread sleeps, from its tick on it has been woken by the interrupt of that tick. -/
lemma sleeping_run (hrun : kernelMachine.run k₁ mid = some k₂) :
    k₂.ticks < wakeup ∧ k₂.threads t = k₁.threads t ∨
    wakeup ≤ k₂.ticks ∧ ∃ before after r r', WokenBy k₁ mid k₂ t wakeup before after r r' := by
  have hstart := (kernelMachine_inv hreach).lists.thread t
  obtain ⟨hb, hreason⟩ := hstart.sleeping (by omega)
  refine kernelMachine.run_induction (Or.inl ⟨hlt, rfl⟩) ?_ hrun
  intro mid k a k' hr ih hstep
  have hinv := kernelMachine_inv (hreach.run hr)
  have hresult := kernelMachine_step_result hinv hstep
  have hclock := hresult.clock
  rcases ih with ⟨hbefore, hsame⟩ | ⟨hpast, before, after, r, r', hw⟩
  · have hwk : (k.threads t).wakeupTime = wakeup := by rw [hsame, ht]
    rcases hresult.sleeping hinv (t := t) (by omega) with ⟨hth, hlate⟩ | ⟨rfl, hdue, hth⟩
    · refine Or.inl ⟨?_, hth.trans hsame⟩
      rcases hclock with ⟨hc, _⟩ | ⟨_, ha⟩
      · omega
      · have := hlate ha
        omega
    · -- the interrupt of the thread's tick
      have htick : k'.ticks = wakeup := by
        rcases hclock with ⟨_, hna⟩ | ⟨hc, _⟩
        · exact absurd rfl hna
        · omega
      have hready : (k'.threads t).status = .ready := by rw [hth]
      -- it resumes in `timer_sleep`, so it is not the idle thread
      have hreason' : (k'.threads t).reason = .sleep := by
        rw [hth, hsame]
        exact hreason
      have hidle : k'.idleThread ≠ some t :=
        hresult.inv.lists.not_idle_of_reason (by rw [hreason']; decide) (by rw [hreason']; decide)
      refine Or.inr ⟨by omega, mid, [], k, k', ?_⟩
      refine ⟨rfl, hr, ⟨by rw [hsame]; exact hb, hwk⟩, hstep, htick, ⟨hready, ?_, by rw [hth]⟩, rfl⟩
      exact (hresult.inv.lists.thread t).ready.mpr ⟨hready, hidle⟩
  · refine Or.inr ⟨by omega, before, after ++ [a], r, r', ?_⟩
    refine ⟨?_, hw.run_before, hw.asleep, hw.interrupt, hw.ticks, hw.awake, ?_⟩
    · rw [hw.split, List.append_assoc]
      rfl
    · exact kernelMachine.run_snoc_eq_some.mpr ⟨k, hw.run_after, hstep⟩

/-- Until the thread runs again it is unblocked once, by the interrupt of its tick. -/
lemma unblocked_once (hrun : kernelMachine.run k₁ mid = some k₂) (hnot : ∀ p ∈ kernelMachine.history k₁ mid, p.1.cpu ≠ t) :
    (kernelMachine.history k₁ mid).countP (unblocks t) = (if wakeup ≤ k₂.ticks then 1 else 0) ∧
      ∀ p ∈ kernelMachine.history k₁ mid, unblocks t p = true →
        p.2 = .timer ∧ p.1.ticks + 1 = wakeup := by
  have hb := ((kernelMachine_inv hreach).lists.thread t).sleeping (by omega)
  have key : (∀ p ∈ kernelMachine.history k₁ mid, p.1.cpu ≠ t) →
      (k₂.ticks < wakeup ∧ k₂.threads t = k₁.threads t ∧
          (kernelMachine.history k₁ mid).countP (unblocks t) = 0 ∨
        wakeup ≤ k₂.ticks ∧ (k₂.threads t).isUp ∧
          (kernelMachine.history k₁ mid).countP (unblocks t) = 1) ∧
      ∀ p ∈ kernelMachine.history k₁ mid, unblocks t p = true →
        p.2 = .timer ∧ p.1.ticks + 1 = wakeup := by
    refine kernelMachine.run_induction (fun _ => ⟨Or.inl ⟨hlt, rfl, rfl⟩, by simp⟩) ?_ hrun
    intro mid k a k' hr ih hstep hnot
    rw [kernelMachine.history_snoc hr] at hnot
    obtain ⟨hphase, honly⟩ := ih fun p hp => hnot p (List.mem_append_left _ hp)
    have hne : t ≠ k.cpu := fun hc => hnot (k, a) (by simp) hc.symm
    have hinv := kernelMachine_inv (hreach.run hr)
    have hresult := kernelMachine_step_result hinv hstep
    have hclock := hresult.clock
    rw [kernelMachine.countP_history_snoc hr, kernelMachine.history_snoc hr]
    -- what the last step adds to the events is decided by the phase
    have hadd : (unblocks t (k, a) = true → a = .timer ∧ k.ticks + 1 = wakeup) →
        ∀ p ∈ kernelMachine.history k₁ mid ++ [(k, a)], unblocks t p = true →
          p.2 = .timer ∧ p.1.ticks + 1 = wakeup := by
      intro hlast p hp hu
      rcases List.mem_append.mp hp with hp | hp
      · exact honly p hp hu
      · rw [List.mem_singleton.mp hp] at hu ⊢
        exact hlast hu
    rcases hphase with ⟨hbefore, hsame, hcount⟩ | ⟨hpast, hup, hcount⟩
    · have hkb : (k.threads t).status = .blocked := by rw [hsame]; exact hb.1
      rcases hresult.sleeping hinv (by rw [hsame]; omega) with ⟨hth, hlate⟩ | ⟨rfl, hdue, hth⟩
      · have hno : unblocks t (k, a) = false := by
          rw [unblocks_eq hstep, hth]
          simp
        refine ⟨Or.inl ⟨?_, hth.trans hsame, by rw [hcount, hno]; rfl⟩, hadd (by simp [hno])⟩
        rcases hclock with ⟨hc, _⟩ | ⟨_, ha⟩
        · omega
        · have hl := hlate ha
          rw [hsame, ht] at hl
          exact hl
      · have hyes : unblocks t (k, .timer) = true := by
          rw [unblocks_eq hstep, hth]
          simp [hkb]
        rw [hsame, ht] at hdue
        refine ⟨Or.inr ⟨hdue, ?_, by rw [hcount, hyes]; rfl⟩, hadd fun _ => ⟨rfl, ?_⟩⟩
        · rw [hth]
          exact Or.inl rfl
        · rcases hclock with ⟨_, hna⟩ | ⟨hc, _⟩
          · exact absurd rfl hna
          · omega
    · have hno : unblocks t (k, a) = false := by
        rw [unblocks_eq hstep]
        rcases hup with hs | hs <;> simp [hs]
      refine ⟨Or.inr ⟨by omega, hresult.up hne hup, by rw [hcount, hno]; rfl⟩, hadd (by simp [hno])⟩
  obtain ⟨hphase, honly⟩ := key hnot
  refine ⟨?_, honly⟩
  rcases hphase with ⟨hbefore, _, hcount⟩ | ⟨hpast, _, hcount⟩
  · rw [hcount, if_neg (by omega)]
  · rw [hcount, if_pos hpast]

/-! ## The contract of `timer_sleep` -/

/-- What holds after the thread `t` has gone to sleep in `k₁` until the tick `wakeup`. -/
structure SleepContract (k₁ : Kernel) (t : Page) (wakeup : ℤ) : Prop where
  /-- It is blocked in every state before its tick. -/
  blocked : ∀ mid k, kernelMachine.run k₁ mid = some k → k.ticks < wakeup →
    (k.threads t).status = .blocked ∧ (k.threads t).wakeupTime = wakeup
  /-- Every run to a state from its tick on contains the timer interrupt that woke it up, and its wakeup time is
  0 as long as it does not call `timer_sleep` again. -/
  woken : ∀ mid k, kernelMachine.run k₁ mid = some k → wakeup ≤ k.ticks →
    ∃ before after r r', WokenBy k₁ mid k t wakeup before after r r' ∧
      ((∀ p ∈ kernelMachine.history r' after, callsTimerSleep t p = false) →
        (k.threads t).wakeupTime = 0)
  /-- Until it runs again, that interrupt is the one step that unblocks it. -/
  once : ∀ mid k, kernelMachine.run k₁ mid = some k →
    (∀ p ∈ kernelMachine.history k₁ mid, p.1.cpu ≠ t) →
    (kernelMachine.history k₁ mid).countP (unblocks t) = (if wakeup ≤ k.ticks then 1 else 0) ∧
      ∀ p ∈ kernelMachine.history k₁ mid, unblocks t p = true →
        p.2 = .timer ∧ p.1.ticks + 1 = wakeup

lemma sleepContract : SleepContract k₁ t wakeup where
  blocked mid k hrun hbefore := by
    rcases sleeping_run hreach hpos hlt ht hrun with ⟨_, hsame⟩ | ⟨hpast, _⟩
    · rw [hsame]
      exact ⟨(((kernelMachine_inv hreach).lists.thread t).sleeping (by omega)).1, ht⟩
    · omega
  woken mid k hrun hpast := by
    rcases sleeping_run hreach hpos hlt ht hrun with ⟨hbefore, _⟩ | ⟨_, before, after, r, r', hw⟩
    · omega
    · refine ⟨before, after, r, r', hw, fun hno => ?_⟩
      have hr' : kernelMachine.Reachable r' := (hreach.run hw.run_before).step hw.interrupt
      exact awake_run hr' hw.awake.2.2 hw.run_after hno
  once mid k hrun hnot := unblocked_once hreach hpos hlt ht hrun hnot

end Sleeping

/-- A thread that calls `timer_sleep (n)` at tick `t` sleeps until tick `t + n` and is woken by the timer interrupt of
that tick; a timer interrupt leaves alone what is blocked anywhere else. -/
theorem timerSleep_contract {k₀ k₁ : Kernel} (hreach : kernelMachine.Reachable k₀) {n : ℤ}
    {rest : List Code} (hcall : k₀.current.stack = .timerSleep n :: rest) (hn : 0 < n)
    (hmax : k₀.ticks + n < 2 ^ 63) (hstep : kernelMachine.step k₀ .exec = some k₁) :
    SleepContract k₁ k₀.cpu (k₀.ticks + n) ∧
    ∀ k k', kernelMachine.Reachable k → kernelMachine.step k .timer = some k' →
      ∀ u, (k.threads u).status = .blocked → (k.threads u).reason ≠ .sleep →
        k'.threads u = k.threads u := by
  have hzero := kernelMachine_ticks_nonneg hreach
  have hint : int64 (k₀.ticks + n) = k₀.ticks + n := int64_of_bounds (by omega) hmax
  refine ⟨?_, fun k k' hk htimer u hb hreason => ?_⟩
  · have hsleeps := (kernelMachine_inv hreach).calls_sleep hcall hn hstep
    apply sleepContract (hreach.step hstep) (by omega)
    · rw [hsleeps.ticks]
      omega
    · rw [hsleeps.sleeper (by omega)]
      exact hint
  · have hinv := kernelMachine_inv hk
    cases kernelMachine_step_result hinv htimer with
    | switches hne _ => exact absurd rfl hne
    | ticks h => exact h.keeps hinv hb hreason

/-- The boot up to the first instruction of the client code of the initial thread, which then calls
`timer_sleep (2)`. -/
def sleepActions : List KernelAction :=
  bootActions ++ List.replicate 4 .exec ++ [.call (.timerSleep 2)]

/-- The idle thread runs while two timer interrupts arrive. -/
def twoTicks : List KernelAction :=
  [.exec, .timer, .exec, .exec, .timer]

/-- The initial thread goes to sleep at tick 0 for two ticks, and the second interrupt is the one that wakes it. -/
theorem timerSleep_contract_two_ticks :
    ∃ k₀ k₁ k₂, kernelMachine.run (kernelStart 0) sleepActions = some k₀ ∧
      kernelMachine.step k₀ .exec = some k₁ ∧ kernelMachine.run k₁ twoTicks = some k₂ ∧
      SleepContract k₁ 0 2 ∧ ∃ before after r r', WokenBy k₁ twoTicks k₂ 0 2 before after r r' := by
  have hsleep : (kernelMachine.run (kernelStart 0) sleepActions).map
      (fun k => (k.cpu, k.ticks, k.current.stack)) =
        some (0, 0, [.timerSleep 2, .client, .threadExit]) := by decide +kernel
  have hticks : (kernelMachine.run (kernelStart 0) (sleepActions ++ .exec :: twoTicks)).map
      Kernel.ticks = some 2 := by decide +kernel
  obtain ⟨k₂, hk₂, htwo⟩ := Option.map_eq_some_iff.mp hticks
  obtain ⟨k₀, hk₀, hrest⟩ := kernelMachine.run_append_eq_some.mp hk₂
  rw [hk₀] at hsleep
  obtain ⟨hcpu, hzero, hstack⟩ : k₀.cpu = 0 ∧ k₀.ticks = 0 ∧
      k₀.current.stack = [.timerSleep 2, .client, .threadExit] := by simpa using hsleep
  rw [kernelMachine.run_cons] at hrest
  obtain ⟨k₁, hstep, hrun⟩ := Option.bind_eq_some_iff.mp hrest
  have hcontract := (timerSleep_contract ⟨kernelStart 0, sleepActions, ⟨0, rfl⟩, hk₀⟩ hstack
    (by decide) (by rw [hzero]; decide) hstep).1
  rw [hcpu, hzero] at hcontract
  obtain ⟨before, after, r, r', hw, _⟩ := hcontract.woken twoTicks k₂ hrun (by rw [htwo]; decide)
  exact ⟨k₀, k₁, k₂, hk₀, hstep, hrun, hcontract, before, after, r, r', hw⟩

end OsLabs.Threads
