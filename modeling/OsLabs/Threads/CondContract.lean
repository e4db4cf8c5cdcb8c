import OsLabs.Threads.CondRuns

/-!
# What a condition variable guarantees over whole runs

The records of `cond_wait` are followed through a run of `condMachine` by four logs: the threads whose
record is registered, popped, raised by a `sema_up`, and let through their `sema_down`, each in the order of
the steps. One step moves them in lockstep with the state (`CondTurn.waiters`, `CondTurn.outstanding`,
`CondTurn.value`); `condLog_balance` adds the steps up, and the contract is read off.
-/

namespace OsLabs.Threads

open Lib Function

variable {T : Type} [DecidableEq T]

/-! ## The records over a whole run -/

/-- The thread whose record a step registers. -/
def registered : CondState T × CondAction T → Option T
  | (_, .wait t) => some t
  | _ => none

/-- The thread whose record a step takes from the front of `waiters`. -/
def popped : CondState T × CondAction T → Option T
  | (s, .signal _) | (s, .test _) => s.waiters.head?
  | _ => none

/-- The thread whose semaphore a step raises. -/
def upped : CondState T × CondAction T → Option T
  | (s, .signalUp t) =>
    match s.pc t with
    | .signalUp w _ => some w
    | _ => none
  | _ => none

/-- The thread that passes the `sema_down` of its `cond_wait` in a step. -/
def passedDown : CondState T × CondAction T → Option T
  | (s, .down t) => if 0 < (s.sema t).value then some t else none
  | _ => none

variable {s s' r : CondState T} {a : CondAction T} {l : List T} {t : T}

/-- One step appends to `waiters` what it registers and takes from its front what it pops. -/
lemma CondTurn.waiters (h : CondTurn s a s') :
    s.waiters ++ (registered (s, a)).toList = (popped (s, a)).toList ++ s'.waiters := by
  cases h with
  | signalPop t hpc hown w rest hw => simp [registered, popped, hw]
  | testPop t hpc w rest hw => simp [registered, popped, hw]
  | signalNone t hpc hown hw => simp [registered, popped, hw]
  | testDone t hpc hw => simp [registered, popped, hw]
  | signalUp t w b hpc =>
    cases hw : (semaUp (s.sema w)).2 <;> simp [registered, popped, CondState.wake]
  | _ => simp [registered, popped]

/-- The records popped whose `sema_up` is outstanding: at most one. -/
def CondState.Outstanding (s : CondState T) : List T → Prop
  | [] => ∀ w, ¬s.Pending w
  | [w] => s.Pending w
  | _ => False

omit [DecidableEq T] in
lemma CondState.outstanding_congr (h : ∀ w, s'.Pending w ↔ s.Pending w) (l : List T) :
    s'.Outstanding l ↔ s.Outstanding l := by
  match l with
  | [] => simp only [Outstanding, h]
  | [w] => exact h w
  | _ :: _ :: _ => exact Iff.rfl

omit [DecidableEq T] in
/-- A record that is not pending is not outstanding. -/
lemma CondState.Outstanding.not_mem (hl : s.Outstanding l) {w : T} (hw : ¬s.Pending w) : w ∉ l := by
  match l, hl with
  | [], _ => exact List.not_mem_nil
  | [v], hv =>
    rw [List.mem_singleton]
    rintro rfl
    exact hw hv

omit [DecidableEq T] in
lemma CondState.Outstanding.eq_nil (hl : s.Outstanding l) (hnone : ∀ w, ¬s.Pending w) : l = [] :=
  List.eq_nil_iff_forall_not_mem.mpr fun w => hl.not_mem (hnone w)

omit [DecidableEq T] in
/-- While the owner of the lock is not at a `sema_up` of `cond_signal`, nothing is outstanding. -/
lemma CondInv.outstanding_nil (hs : CondInv s) (hlock : LockInv s.lock) (hown : s.lock.pc t = .owner)
    (ht : ∀ w b, s.pc t ≠ .signalUp w b) (w : T) : ¬s.Pending w := by
  rintro ⟨u, b, hu⟩
  obtain rfl := hlock.owner_unique (hs.owner u (by rw [hu]; rfl)) hown
  exact ht w b hu

/-- One step adds what it pops to the outstanding records and takes away what it raises. -/
lemma CondTurn.outstanding (h : CondTurn s a s') (hlock : LockInv s.lock) (hs : CondInv s)
    (hl : s.Outstanding l) :
    ∃ l', s'.Outstanding l' ∧ l ++ (popped (s, a)).toList = (upped (s, a)).toList ++ l' := by
  -- a step that leaves the `sema_up` positions alone
  have stay : (∀ w, s'.Pending w ↔ s.Pending w) → popped (s, a) = none → upped (s, a) = none →
      ∃ l', s'.Outstanding l' ∧ l ++ (popped (s, a)).toList = (upped (s, a)).toList ++ l' := by
    intro hpend hp hu
    exact ⟨l, (CondState.outstanding_congr hpend l).mpr hl, by simp [hp, hu]⟩
  -- the pop of a record, by `cond_signal` or by `cond_broadcast`
  have pop : ∀ (t w : T) (rest : List T) (b : Bool), (∀ w b, s.pc t ≠ .signalUp w b) →
      s.lock.pc t = .owner → s' = { s with waiters := rest }.goto t (.signalUp w b) →
      popped (s, a) = some w → upped (s, a) = none →
      ∃ l', s'.Outstanding l' ∧ l ++ (popped (s, a)).toList = (upped (s, a)).toList ++ l' := by
    intro t w rest b ht hown heq hp hu
    have hl' : l = [] := hl.eq_nil (hs.outstanding_nil hlock hown ht)
    refine ⟨[w], ?_, by simp [hp, hu, hl']⟩
    exact ⟨t, b, by simp [heq]⟩
  cases h with
  | lock a lock hmay hexec => exact stay (fun w => Iff.rfl) rfl rfl
  | wait t hpc hown =>
    exact stay (CondState.pending_update rfl (by simp [hpc]) (by simp)) rfl rfl
  | passed t hpc hv | queued t hpc hv =>
    exact stay (CondState.pending_update rfl (CondState.not_signalUp hpc) (by simp)) rfl rfl
  | returned t hpc hown | broadcast t hpc hown =>
    exact stay (CondState.pending_update rfl (by simp [hpc]) (by simp)) rfl rfl
  | signalNone t hpc hown hw =>
    exact stay (CondState.pending_update rfl (by simp [hpc]) (by simp)) (by simp [popped, hw]) rfl
  | testDone t hpc hw =>
    exact stay (CondState.pending_update rfl (by simp [hpc]) (by simp)) (by simp [popped, hw]) rfl
  | signalPop t hpc hown w rest hw =>
    exact pop t w rest false (by simp [hpc]) hown rfl (by simp [popped, hw]) rfl
  | testPop t hpc w rest hw =>
    exact pop t w rest true (by simp [hpc]) (hs.owner t (by rw [hpc]; rfl)) rfl
      (by simp [popped, hw]) rfl
  | signalUp t w b hpc =>
    have hs' := hs.signalUp hlock hpc
    have hown := hs.owner t (by rw [hpc]; rfl)
    have hl' : l = [w] := by
      match l, hl with
      | [], hnone => exact absurd ⟨t, b, hpc⟩ (hnone w)
      | [v], ⟨u, c, hu⟩ => rw [(hs.signalUp_unique hlock hpc hu).2]
    refine ⟨[], ?_, by simp [popped, upped, hpc, hl']⟩
    have hne := hs.signalUp_ne hpc
    rcases (hs.unreleased w (Or.inr ⟨t, b, hpc⟩)).signalUp t (signalReturn b) with
      ⟨_, heq⟩ | ⟨_, heq⟩ <;> rw [heq] at hs' ⊢
    · apply hs'.outstanding_nil hlock hown
      cases b <;> simp [signalReturn]
    · apply hs'.outstanding_nil hlock hown
      cases b <;> simp [signalReturn, hne.symm]

/-- The private semaphore of `t` counts the ups of its records minus its passes. -/
lemma CondTurn.value (h : CondTurn s a s') (hs : CondInv s) (t : T) :
    (s'.sema t).value + (passedDown (s, a)).toList.count t
      = (s.sema t).value + (upped (s, a)).toList.count t := by
  cases h with
  | wait u hpc hown =>
    have hzero := (hs.of_not_waits (by rw [hpc]; rfl)).2.2
    by_cases htu : t = u
    · subst htu
      simp [passedDown, upped, hzero]
    · simp [passedDown, upped, htu]
  | passed u hpc hv =>
    by_cases htu : t = u
    · subst htu
      simp [passedDown, upped, hv]
      omega
    · have hut : u ≠ t := fun h => htu h.symm
      simp [passedDown, upped, htu, hv, hut]
  | queued u hpc hv =>
    by_cases htu : t = u
    · subst htu
      simp [passedDown, upped, hv]
    · simp [passedDown, upped, htu, hv]
  | signalUp u w b hpc =>
    have hun := hs.unreleased w (Or.inr ⟨u, b, hpc⟩)
    have hsema : (((s.setSema w (semaUp (s.sema w)).1).goto u (signalReturn b)).wake
        (semaUp (s.sema w)).2).sema = update s.sema w (semaInit 1) := by
      rcases hun.signalUp u (signalReturn b) with ⟨_, heq⟩ | ⟨_, heq⟩ <;> rw [heq] <;> rfl
    rw [hsema]
    by_cases htw : t = w
    · subst htw
      simp [passedDown, upped, hpc, hun.value]
    · have hwt : w ≠ t := fun h => htw h.symm
      simp [passedDown, upped, hpc, htw, hwt]
  | _ => simp [passedDown, upped]

/-- The threads `f` picks from the steps of a run from `s`, in order. -/
def condLog (f : CondState T × CondAction T → Option T) (s : CondState T) (as : List (CondAction T)) :
    List T :=
  (condMachine.history s as).filterMap f

lemma condLog_snoc {f : CondState T × CondAction T → Option T} {as : List (CondAction T)}
    (h : condMachine.run s as = some r) (a : CondAction T) :
    condLog f s (as ++ [a]) = condLog f s as ++ (f (r, a)).toList :=
  condMachine.filterMap_history_snoc h a f

/-- The accounts of a run that starts in a reachable state: what was in `waiters` and what was
registered went out in the same order, pops and ups alternate, and the private semaphores count. -/
lemma condLog_balance (hs : condMachine.Reachable s) {as : List (CondAction T)}
    (h : condMachine.run s as = some r) (hl : s.Outstanding l) :
    s.waiters ++ condLog registered s as = condLog popped s as ++ r.waiters
    ∧ (∃ l', r.Outstanding l' ∧ l ++ condLog popped s as = condLog upped s as ++ l')
    ∧ ∀ t, (r.sema t).value + (condLog passedDown s as).count t
        = (s.sema t).value + (condLog upped s as).count t := by
  refine condMachine.run_induction ⟨by simp [condLog], ⟨l, hl, by simp [condLog]⟩, fun t => rfl⟩ ?_ h
  rintro as r a r' hrun ⟨hfifo, ⟨l', hl', hups⟩, hvalue⟩ hstep
  have hreach := hs.run hrun
  have hturn := CondTurn.of_exec (Machine.ofExec_step.mp hstep)
  have hinv := condMachine_inv hreach
  have hlock := lockMachine_inv (condMachine_toLock hreach)
  simp only [condLog_snoc hrun]
  refine ⟨?_, ?_, fun t => ?_⟩
  · rw [← List.append_assoc, hfifo, List.append_assoc, hturn.waiters, List.append_assoc]
  · obtain ⟨l'', hl'', heq⟩ := hturn.outstanding hlock hinv hl'
    refine ⟨l'', hl'', ?_⟩
    rw [← List.append_assoc, hups, List.append_assoc, heq, List.append_assoc]
  · have hstep := hturn.value hinv t
    have hbefore := hvalue t
    simp only [List.count_append]
    omega

/-! ## A broadcast from its call to its return -/

/-- While `t` is inside `cond_broadcast` it keeps the lock, nobody registers, and it leaves only when
`waiters` is empty. -/
lemma CondTurn.during_broadcast (h : CondTurn s a s') (hlock : LockInv s.lock) (hsema : SemaInv s.lock.toSema)
    (hs : CondInv s) (ht : s.pc t = .broadcast ∨ ∃ w, s.pc t = .signalUp w true) :
    registered (s, a) = none ∧ s'.lock.pc t = .owner ∧
      ((s'.pc t = .broadcast ∨ ∃ w, s'.pc t = .signalUp w true) ∨
        s'.pc t = .outside ∧ s'.waiters = []) := by
  have hsig : (s.pc t).signals = true := by
    rcases ht with ht | ⟨w, ht⟩ <;> rw [ht] <;> rfl
  have hown := hs.owner t hsig
  have hout : s.pc t ≠ .outside := by
    intro hc
    rw [hc] at hsig
    cases hsig
  -- a step of another thread leaves `t` where it is
  have hstay : ∀ u p, u ≠ t → update s.pc u p t = s.pc t :=
    fun u p hu => update_of_ne (fun h => hu h.symm) _ _
  -- nobody else is at a call that needs the lock
  have hcaller : ∀ u, s.pc u = .outside → s.lock.pc u ≠ .owner := by
    rintro u hu huown
    obtain rfl := hlock.owner_unique huown hown
    exact hout hu
  cases h with
  | lock a lock hmay hexec =>
    refine ⟨rfl, ?_, Or.inl ht⟩
    have hinv' := hs.lock hsema hmay (LockTurn.of_exec hexec)
    exact hinv'.owner t hsig
  | wait u hpc huown | signalNone u hpc huown hw | signalPop u hpc huown w rest hw
  | broadcast u hpc huown =>
    exact absurd huown (hcaller u hpc)
  | passed u hpc hv | queued u hpc hv =>
    have hne : u ≠ t := by
      rintro rfl
      rcases hpc with ⟨hpc, _⟩ | hpc <;> rw [hpc] at hsig <;> cases hsig
    refine ⟨rfl, hown, Or.inl ?_⟩
    simpa only [CondState.goto_pc, CondState.setSema_pc, hstay u _ hne] using ht
  | returned u hpc huown =>
    have hne : u ≠ t := by
      rintro rfl
      rw [hpc] at hsig
      cases hsig
    refine ⟨rfl, hown, Or.inl ?_⟩
    simpa only [CondState.goto_pc, hstay u _ hne] using ht
  | signalUp u w b hpc =>
    -- only the owner of the lock is at a `sema_up`, so this is the `sema_up` of the broadcast
    obtain rfl := hlock.owner_unique (hs.owner u (by rw [hpc]; rfl)) hown
    have hb : b = true := by
      rcases ht with ht | ⟨w', ht⟩ <;> rw [ht] at hpc <;> cases hpc
      rfl
    subst hb
    have hun := hs.unreleased w (Or.inr ⟨u, true, hpc⟩)
    have hne := (hs.signalUp_ne hpc).symm
    rcases hun.signalUp u (signalReturn true) with ⟨_, heq⟩ | ⟨_, heq⟩ <;> rw [heq]
    · exact ⟨rfl, hown, Or.inl (Or.inl (by simp [signalReturn]))⟩
    · exact ⟨rfl, hown, Or.inl (Or.inl (by simp [signalReturn, hne]))⟩
  | testDone u hpc hw =>
    obtain rfl := hlock.owner_unique (hs.owner u (by rw [hpc]; rfl)) hown
    exact ⟨rfl, hown, Or.inr ⟨by simp, hw⟩⟩
  | testPop u hpc w rest hw =>
    obtain rfl := hlock.owner_unique (hs.owner u (by rw [hpc]; rfl)) hown
    exact ⟨rfl, hown, Or.inl (Or.inr ⟨w, by simp⟩)⟩

/-- A broadcast that has not returned has registered nothing and holds the lock; when it returns,
`waiters` is empty. -/
lemma broadcast_run {s₁ : CondState T} (hs : condMachine.Reachable s)
    (hcall : condMachine.step s (.broadcast t) = some s₁) {mid : List (CondAction T)}
    (h : condMachine.run s₁ mid = some r) (hin : ∀ p ∈ condMachine.history s₁ mid, p.1.pc t ≠ .outside) :
    condLog registered s₁ mid = [] ∧ r.lock.pc t = .owner ∧
      ((r.pc t = .broadcast ∨ ∃ w, r.pc t = .signalUp w true) ∨
        r.pc t = .outside ∧ r.waiters = []) := by
  revert hin
  have hs₁ := hs.step hcall
  refine condMachine.run_induction ?_ ?_ h
  · intro _
    have hturn := CondTurn.of_exec (Machine.ofExec_step.mp hcall)
    cases hturn with
    | broadcast t hpc hown => exact ⟨rfl, hown, Or.inl (Or.inl (by simp))⟩
  · intro mid r a r' hrun ih hstep hin
    rw [condMachine.history_snoc hrun] at hin
    obtain ⟨hreg, _, hpos⟩ := ih fun p hp => hin p (List.mem_append_left _ hp)
    have hout : r.pc t ≠ .outside := hin (r, a) (by simp)
    have hreach := hs₁.run hrun
    have hlock := condMachine_toLock hreach
    have hturn := CondTurn.of_exec (Machine.ofExec_step.mp hstep)
    obtain ⟨hnone, hown', hpos'⟩ := hturn.during_broadcast (lockMachine_inv hlock)
      (semaMachine_inv (lockMachine_toSema hlock)) (condMachine_inv hreach)
      (hpos.resolve_right fun hc => hout hc.1)
    refine ⟨?_, hown', hpos'⟩
    rw [condLog_snoc hrun, hreg, hnone]
    rfl

/-- A broadcast pops what was registered at its call and nothing else, and raises all of it before it
returns. -/
lemma broadcast_pops {s₁ s₂ : CondState T} (hreach : condMachine.Reachable s)
    (hcall : condMachine.step s (.broadcast t) = some s₁) {mid : List (CondAction T)}
    (hrun : condMachine.run s₁ mid = some s₂) (hin : ∀ p ∈ condMachine.history s₁ mid, p.1.pc t ≠ .outside) :
    s.waiters = condLog popped s₁ mid ++ s₂.waiters
      ∧ (s₂.pc t = .outside → condLog popped s₁ mid = s.waiters ∧ condLog upped s₁ mid = s.waiters) := by
  obtain ⟨hreg, hown₂, hpos₂⟩ := broadcast_run hreach hcall hrun hin
  have hreach₁ := hreach.step hcall
  have hinv₁ := condMachine_inv hreach₁
  have hlock₁ := lockMachine_inv (condMachine_toLock hreach₁)
  -- at the call nothing is outstanding, since the caller owns the lock
  have hcalled : s₁.waiters = s.waiters ∧ s₁.Outstanding [] := by
    cases CondTurn.of_exec (Machine.ofExec_step.mp hcall) with
    | broadcast t hpc hown => exact ⟨rfl, hinv₁.outstanding_nil hlock₁ hown (by simp)⟩
  obtain ⟨hfifo, ⟨l, hl, hups⟩, -⟩ := condLog_balance hreach₁ hrun hcalled.2
  rw [hreg, List.append_nil, hcalled.1] at hfifo
  refine ⟨hfifo, fun hout => ?_⟩
  have hempty : s₂.waiters = [] := by
    rcases hpos₂ with (hpc | ⟨w, hpc⟩) | hpos₂
    · rw [hpc] at hout
      cases hout
    · rw [hpc] at hout
      cases hout
    · exact hpos₂.2
  have hreach₂ := hreach₁.run hrun
  have hnone := (condMachine_inv hreach₂).outstanding_nil
    (lockMachine_inv (condMachine_toLock hreach₂)) hown₂ (by simp [hout])
  have hl' : l = [] := hl.eq_nil hnone
  rw [hempty, List.append_nil] at hfifo
  rw [hl', List.append_nil] at hups
  exact ⟨hfifo.symm, hups.symm.trans hfifo.symm⟩

/-! ## The contract -/

/-- Only the `sema_up` of a `cond_signal` releases a thread, and only the one whose record it popped. -/
lemma CondTurn.released (h : CondTurn s a s') (hs : CondInv s) (u : T) (hu : s'.Released u) :
    s.Released u ∨ ∃ t b, a = .signalUp t ∧ s.pc t = .signalUp u b := by
  -- a thread whose new position is outside the waiting part is not released
  have hmoved : ∀ (t : T) (p : CondPc T) (r : CondState T), s' = r.goto t p → r.pc = s.pc →
      r.sema = s.sema → p.waits = false → s.Released u := by
    rintro t p r rfl hrpc hrsema hp
    have hne : u ≠ t := by
      rintro rfl
      have hw := hu.waits
      simp only [CondState.goto_pc, update_self] at hw
      rw [hp] at hw
      cases hw
    obtain ⟨hpc, hsema⟩ := hu
    exact ⟨by simpa [hne, hrpc] using hpc, by simpa [hrsema] using hsema⟩
  cases h with
  | lock a lock hmay hexec => exact Or.inl hu
  | wait t hpc hown =>
    have hne : u ≠ t := by
      rintro rfl
      have hsema := hu.2
      simp [semaInit] at hsema
    exact Or.inl ⟨by simpa [hne] using hu.1, by simpa [hne] using hu.2⟩
  | passed t hpc hv | queued t hpc hv =>
    have hne : u ≠ t := by
      rintro rfl
      have hpc' := hu.1
      simp at hpc'
    exact Or.inl ⟨by simpa [hne] using hu.1, by simpa [hne] using hu.2⟩
  | returned t hpc hown => exact Or.inl (hmoved t _ s rfl rfl rfl rfl)
  | signalNone t hpc hown hw => exact Or.inl (hmoved t _ s rfl rfl rfl rfl)
  | signalPop t hpc hown w rest hw =>
    exact Or.inl (hmoved t _ { s with waiters := rest } rfl rfl rfl rfl)
  | broadcast t hpc hown => exact Or.inl (hmoved t _ s rfl rfl rfl rfl)
  | testDone t hpc hw => exact Or.inl (hmoved t _ s rfl rfl rfl rfl)
  | testPop t hpc w rest hw =>
    exact Or.inl (hmoved t _ { s with waiters := rest } rfl rfl rfl rfl)
  | signalUp t w b hpc =>
    by_cases huw : u = w
    · subst huw
      exact Or.inr ⟨t, b, rfl, hpc⟩
    · left
      have hut : u ≠ t := by
        rintro rfl
        have hw := hu.waits
        rcases (hs.unreleased w (Or.inr ⟨u, b, hpc⟩)).signalUp u (signalReturn b) with
          ⟨_, heq⟩ | ⟨_, heq⟩ <;> rw [heq] at hw <;>
          cases b <;> simp [huw, signalReturn, CondPc.waits] at hw
      rcases (hs.unreleased w (Or.inr ⟨t, b, hpc⟩)).signalUp t (signalReturn b) with
        ⟨_, heq⟩ | ⟨_, heq⟩ <;> rw [heq] at hu <;>
        exact ⟨by simpa [huw, hut] using hu.1, by simpa [huw] using hu.2⟩

/-- The `sema_up` of a `cond_signal` is possible and releases the thread whose record was popped and no
other. -/
lemma CondInv.signalUp_releases (hs : CondInv s) {w : T} {b : Bool} (hpc : s.pc t = .signalUp w b) :
    ∃ s', condExec s (.signalUp t) = .ok s' ∧ ¬s.Released w ∧
      ∀ u, s'.Released u ↔ s.Released u ∨ u = w := by
  have hun := hs.unreleased w (Or.inr ⟨t, b, hpc⟩)
  have hexec : condExec s (.signalUp t) = .ok (((s.setSema w (semaUp (s.sema w)).1).goto t
      (signalReturn b)).wake (semaUp (s.sema w)).2) := by
    simp only [condExec, hpc]
  have hne := hs.signalUp_ne hpc
  have hnot : ¬s.Released w := by
    intro hrel
    have hzero := hun.value
    rw [hrel.2] at hzero
    cases hzero
  refine ⟨_, hexec, hnot, fun u => ⟨fun hu => ?_, ?_⟩⟩
  · rcases (CondTurn.of_exec hexec).released hs u hu with hrel | ⟨t', c, hact, hpc'⟩
    · exact Or.inl hrel
    · cases hact
      rw [hpc] at hpc'
      cases hpc'
      exact Or.inr rfl
  · rintro (hrel | rfl)
    · have huw : u ≠ w := by
        rintro rfl
        exact hnot hrel
      have hut : u ≠ t := by
        rintro rfl
        have hw := hrel.waits
        rw [hpc] at hw
        cases hw
      rcases hun.signalUp t (signalReturn b) with ⟨_, heq⟩ | ⟨_, heq⟩ <;> rw [heq] <;>
        exact ⟨by simpa [huw, hut] using hrel.1, by simpa [huw] using hrel.2⟩
    · rcases hun.signalUp t (signalReturn b) with ⟨hw, heq⟩ | ⟨hw, heq⟩ <;> rw [heq]
      · exact ⟨Or.inl (by simp [hne, hw]), by simp⟩
      · exact ⟨Or.inr (by simp), by simp⟩

/-- What a condition variable guarantees in the state `s` that the run `as` from `cond_init` led to. -/
structure CondContract (as : List (CondAction T)) (s : CondState T) : Prop where
  /-- The records registered so far are those popped followed by those in `waiters`, in this order:
  records leave first in, first out, and none is lost or duplicated. -/
  fifo : condLog registered condStart as = condLog popped condStart as ++ s.waiters
  nodup : s.waiters.Nodup
  /-- Every popped record has had its `sema_up`, except one whose signaller is about to do it. -/
  raised : ∃ l, s.Outstanding l ∧ condLog popped condStart as = condLog upped condStart as ++ l
  /-- A `cond_signal` that finds registered records pops the earliest one only. -/
  signal : ∀ t w rest s', s.waiters = w :: rest → condExec s (.signal t) = .ok s' →
    s'.waiters = rest ∧ s'.pc t = .signalUp w false
  /-- Its `sema_up` releases the thread of that record and no other. -/
  signalUp : ∀ t w b, s.pc t = .signalUp w b → ∃ s', condExec s (.signalUp t) = .ok s' ∧
    ¬s.Released w ∧ ∀ u, s'.Released u ↔ s.Released u ∨ u = w
  /-- Nothing else releases a thread. -/
  release : ∀ a s' u, condExec s a = .ok s' → s'.Released u →
    s.Released u ∨ ∃ t b, a = .signalUp t ∧ s.pc t = .signalUp u b
  /-- A `cond_broadcast` called in `s` pops the records registered at the call, in their order and no
  others; when it returns all of them have had their `sema_up`. -/
  broadcast : ∀ t s₁ mid s₂, condExec s (.broadcast t) = .ok s₁ → condMachine.run s₁ mid = some s₂ →
    (∀ p ∈ condMachine.history s₁ mid, p.1.pc t ≠ .outside) →
    s.waiters = condLog popped s₁ mid ++ s₂.waiters
      ∧ (s₂.pc t = .outside → condLog popped s₁ mid = s.waiters ∧ condLog upped s₁ mid = s.waiters)
  /-- Each `sema_up` on the record of `t` lets `t` pass once; the unit not yet used is on the counter. -/
  passes : ∀ t, (condLog upped condStart as).count t
    = (condLog passedDown condStart as).count t + (s.sema t).value
  /-- A thread passes its `sema_down` only when every record it registered, the last one included, was
  popped and raised. -/
  popped_before : ∀ t s', condExec s (.down t) = .ok s' → s'.pc t = .waitAcquire →
    t ∉ s.waiters ∧ (condLog popped condStart as).count t = (condLog registered condStart as).count t
      ∧ (condLog upped condStart as).count t = (condLog registered condStart as).count t
  /-- `cond_wait` returns only while its thread holds the lock. -/
  returns : ∀ t s', condExec s (.returned t) = .ok s' →
    s'.lock.pc t = .owner ∧ s'.lock.lock.holder = some t
  no_fault : ∀ a f, condExec s a ≠ .error (.fault f)

/-- Condition variables lose no signal and wake in the order of registration, under every interleaving. -/
theorem condition_contract {as : List (CondAction T)} {s : CondState T}
    (h : condMachine.run condStart as = some s) : CondContract as s := by
  have hreach : condMachine.Reachable s := ⟨condStart, as, rfl, h⟩
  have hinv := condMachine_inv hreach
  have hlock := lockMachine_inv (condMachine_toLock hreach)
  have hstart : (condStart : CondState T).Outstanding [] := by
    rintro w ⟨t, b, hc⟩
    cases hc
  obtain ⟨hfifo, hraised, hvalue⟩ := condLog_balance (.init rfl) h hstart
  have hfifo' : condLog registered condStart as = condLog popped condStart as ++ s.waiters := hfifo
  refine ⟨hfifo', hinv.nodup, hraised, ?_, ?_, ?_, ?_, ?_, ?_, ?_, condMachine_no_fault hreach⟩
  · intro t w rest s' hw hexec
    cases CondTurn.of_exec hexec with
    | signalNone t hpc hown hnil => simp [hw] at hnil
    | signalPop t hpc hown w' rest' hw' =>
      rw [hw] at hw'
      cases hw'
      exact ⟨rfl, by simp⟩
  · intro t w b hpc
    exact hinv.signalUp_releases hpc
  · intro a s' u hexec hu
    exact (CondTurn.of_exec hexec).released hinv u hu
  · intro t s₁ mid s₂ hexec hrun hin
    exact broadcast_pops hreach (Machine.ofExec_step.mpr hexec) hrun hin
  · intro t
    have hbal := hvalue t
    have hzero : ((condStart : CondState T).sema t).value = 0 := rfl
    omega
  · intro t s' hexec hpc'
    have hpos : 0 < (s.sema t).value := by
      cases CondTurn.of_exec hexec with
      | passed t hpc hv => exact hv
      | queued t hpc hv => simp at hpc'
    obtain ⟨hmem, hpend, _⟩ := hinv.released_of_pos hpos
    obtain ⟨l, hl, hups⟩ := hraised
    have hnot : t ∉ l := hl.not_mem hpend
    have hpop : (condLog popped condStart as).count t = (condLog registered condStart as).count t := by
      rw [hfifo', List.count_append, List.count_eq_zero_of_not_mem hmem, Nat.add_zero]
    refine ⟨hmem, hpop, ?_⟩
    rw [← hpop, ← List.nil_append (condLog popped condStart as), hups, List.count_append,
      List.count_eq_zero_of_not_mem hnot, Nat.add_zero]
  · intro t s' hexec
    cases CondTurn.of_exec hexec with
    | returned t hpc hown => exact ⟨hown, (hlock.holder t).mpr (by rw [hown]; rfl)⟩

/-- Thread 1 registers and gives the lock up; thread 2 signals before thread 1 has blocked, and
thread 1 passes without blocking. -/
theorem condition_contract_early_signal :
    ∃ s : CondState ℕ,
      condMachine.run condStart
        [.lock (.acquire 1), .lock (.down 1), .lock (.setHolder 1), .wait 1, .lock (.release 1),
          .lock (.clearHolder 1), .lock (.up 1), .lock (.acquire 2), .lock (.down 2),
          .lock (.setHolder 2), .signal 2, .signalUp 2, .down 1] = some s ∧
      s.pc 1 = .waitAcquire ∧ [1] = [1] ++ s.waiters := by
  refine ⟨_, rfl, rfl, ?_⟩
  exact (@condition_contract ℕ _ [.lock (.acquire 1), .lock (.down 1), .lock (.setHolder 1), .wait 1,
    .lock (.release 1), .lock (.clearHolder 1), .lock (.up 1), .lock (.acquire 2), .lock (.down 2),
    .lock (.setHolder 2), .signal 2, .signalUp 2, .down 1] _ rfl).fifo

end OsLabs.Threads
