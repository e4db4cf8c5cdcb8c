import OsLabs.Lib.Machine

/-!
# Reaping children

Two pieces of code of the shell reap its children: `sigchld_handler`, which calls `waitpid (-1, NULL,
WNOHANG)` until there is nothing left, and the `waitpid (pid, &status, 0)` of `main` after a foreground
command. The handler interrupts `main` at any point, also in a `waitpid` that blocks and is then restarted,
and `main` does nothing while the handler runs. SIGCHLD is one bit: a signal that arrives while another one is
pending, or several while the handler runs, count once.

The invariant is that a child that has terminated and is not reaped has left a pending signal behind, or the
handler has not yet made its last call of `waitpid`.
-/

namespace OsLabs.Lsh

open Lib Function

/-! ## The model -/

/-- The life of a process forked by the shell. -/
inductive ChildStatus where
  /-- Not yet forked. -/
  | absent
  | running
  /-- Terminated and not yet reaped. -/
  | zombie
  | reaped
deriving DecidableEq

/-- Where `sigchld_handler` is. -/
inductive HandlerPc where
  | idle
  /-- About to call `waitpid (-1, NULL, WNOHANG)`. -/
  | wait
  /-- The last call has found nothing. -/
  | leave
deriving DecidableEq

/-- Where `main` is. -/
inductive MainPc where
  | readline
  /-- At the `waitpid` for the foreground command `pid`. -/
  | waitpid (pid : ℕ)
deriving DecidableEq

/-- The shell and its direct children. -/
structure ShellState where
  status : ℕ → ChildStatus
  /-- The children forked so far. -/
  forked : List ℕ
  pending : Bool
  handler : HandlerPc
  main : MainPc

inductive ShellAction where
  /-- `main` reads a command and forks `pid` for it. -/
  | fork (pid : ℕ) (background : Bool)
  /-- The child `pid` terminates. -/
  | exit (pid : ℕ)
  /-- The child `pid` stops or continues, which raises SIGCHLD as well. -/
  | stop (pid : ℕ)
  /-- SIGCHLD is delivered. -/
  | deliver
  /-- The handler calls `waitpid`, which finds the child `pid`, or none. -/
  | reap (pid : Option ℕ)
  /-- The handler returns. -/
  | handlerReturn
  /-- The `waitpid` of `main` returns. -/
  | waitReturn
deriving DecidableEq

namespace ShellState

/-- Nothing to reap. -/
def noZombie (s : ShellState) : Bool :=
  s.forked.all fun pid => s.status pid ≠ .zombie

@[simps -fullyApplied] def setStatus (s : ShellState) (pid : ℕ) (status : ChildStatus) : ShellState :=
  { s with status := update s.status pid status }

@[grind =] lemma setStatus_apply (s : ShellState) (pid : ℕ) (status : ChildStatus) (pid' : ℕ) :
    (s.setStatus pid status).status pid' = if pid' = pid then status else s.status pid' := by
  simp only [setStatus_status, update_apply]

attribute [grind =] setStatus_pending setStatus_handler setStatus_main setStatus_forked

end ShellState

/-- One step of the shell or of one of its children. -/
def shellStep (s : ShellState) : ShellAction → Option ShellState
  | .fork pid background =>
    if s.handler = .idle ∧ s.main = .readline ∧ s.status pid = .absent then
      some { s.setStatus pid .running with
        forked := pid :: s.forked
        main := if background then .readline else .waitpid pid }
    else none
  | .exit pid =>
    if s.status pid = .running then some { s.setStatus pid .zombie with pending := true } else none
  | .stop pid => if s.status pid = .running then some { s with pending := true } else none
  | .deliver =>
    -- the signal is blocked while its handler runs
    if s.pending = true ∧ s.handler = .idle then some { s with pending := false, handler := .wait } else none
  | .reap (some pid) =>
    if s.handler = .wait ∧ s.status pid = .zombie then some (s.setStatus pid .reaped) else none
  | .reap none =>
    if s.handler = .wait ∧ s.noZombie = true then some { s with handler := .leave } else none
  | .handlerReturn => if s.handler = .leave then some { s with handler := .idle } else none
  | .waitReturn =>
    match s.main with
    | .readline => none
    | .waitpid pid =>
      if s.handler = .idle then
        match s.status pid with
        | .running => none
        | .zombie => some { s.setStatus pid .reaped with main := .readline }
        -- no such child: `waitpid` fails with ECHILD
        | .absent | .reaped => some { s with main := .readline }
      else none

/-- The shell before its first command. -/
def shellStart : ShellState where
  status := fun _ => .absent
  forked := []
  pending := false
  handler := .idle
  main := .readline

/-- The machine of the shell and its children. -/
def shellMachine : Machine ShellState ShellAction where
  Init s := s = shellStart
  step := shellStep

/-! ## What a step does -/

/-- The steps, by what they do to the children. -/
inductive ShellTurn (s : ShellState) : ShellAction → ShellState → Prop
  | fork {pid : ℕ} {background : Bool} (habsent : s.status pid = .absent)
      (hhandler : s.handler = .idle) (hmain : s.main = .readline) :
      ShellTurn s (.fork pid background) { s.setStatus pid .running with
        forked := pid :: s.forked
        main := if background then .readline else .waitpid pid }
  | exit {pid : ℕ} (hrunning : s.status pid = .running) :
      ShellTurn s (.exit pid) { s.setStatus pid .zombie with pending := true }
  | stop {pid : ℕ} (hrunning : s.status pid = .running) :
      ShellTurn s (.stop pid) { s with pending := true }
  | deliver (hpending : s.pending = true) (hhandler : s.handler = .idle) :
      ShellTurn s .deliver { s with pending := false, handler := .wait }
  | reap {pid : ℕ} (hhandler : s.handler = .wait) (hzombie : s.status pid = .zombie) :
      ShellTurn s (.reap (some pid)) (s.setStatus pid .reaped)
  | reapNone (hhandler : s.handler = .wait) (hnone : s.noZombie = true) :
      ShellTurn s (.reap none) { s with handler := .leave }
  | handlerReturn (hhandler : s.handler = .leave) :
      ShellTurn s .handlerReturn { s with handler := .idle }
  | waitReap {pid : ℕ} (hmain : s.main = .waitpid pid) (hhandler : s.handler = .idle)
      (hzombie : s.status pid = .zombie) :
      ShellTurn s .waitReturn { s.setStatus pid .reaped with main := .readline }
  | waitGone {pid : ℕ} (hmain : s.main = .waitpid pid) (hhandler : s.handler = .idle)
      (hgone : s.status pid = .absent ∨ s.status pid = .reaped) :
      ShellTurn s .waitReturn { s with main := .readline }

variable {s s' : ShellState} {a : ShellAction}

lemma ShellTurn.of_step (h : shellMachine.step s a = some s') : ShellTurn s a s' := by
  change shellStep s a = some s' at h
  cases a with
  | fork pid background =>
    obtain ⟨⟨hhandler, hmain, habsent⟩, rfl⟩ := Option.ite_some_none_eq_some.mp h
    exact .fork habsent hhandler hmain
  | exit pid =>
    obtain ⟨hrunning, rfl⟩ := Option.ite_some_none_eq_some.mp h
    exact .exit hrunning
  | stop pid =>
    obtain ⟨hrunning, rfl⟩ := Option.ite_some_none_eq_some.mp h
    exact .stop hrunning
  | deliver =>
    obtain ⟨⟨hpending, hhandler⟩, rfl⟩ := Option.ite_some_none_eq_some.mp h
    exact .deliver hpending hhandler
  | reap pid =>
    cases pid with
    | none =>
      obtain ⟨⟨hhandler, hnone⟩, rfl⟩ := Option.ite_some_none_eq_some.mp h
      exact .reapNone hhandler hnone
    | some pid =>
      obtain ⟨⟨hhandler, hzombie⟩, rfl⟩ := Option.ite_some_none_eq_some.mp h
      exact .reap hhandler hzombie
  | handlerReturn =>
    obtain ⟨hhandler, rfl⟩ := Option.ite_some_none_eq_some.mp h
    exact .handlerReturn hhandler
  | waitReturn =>
    cases hmain : s.main with
    | readline => simp [shellStep, hmain] at h
    | waitpid pid =>
      simp only [shellStep, hmain] at h
      obtain ⟨hhandler, hs'⟩ := Option.ite_none_right_eq_some.mp h
      cases hstatus : s.status pid with
      | running => simp [hstatus] at hs'
      | zombie =>
        simp only [hstatus] at hs'
        obtain rfl := Option.some.inj hs'
        exact .waitReap hmain hhandler hstatus
      | absent =>
        simp only [hstatus] at hs'
        obtain rfl := Option.some.inj hs'
        exact .waitGone hmain hhandler (Or.inl hstatus)
      | reaped =>
        simp only [hstatus] at hs'
        obtain rfl := Option.some.inj hs'
        exact .waitGone hmain hhandler (Or.inr hstatus)

/-! ## The invariant -/

/-- No child is forgotten. -/
structure ReapInv (s : ShellState) : Prop where
  forked : ∀ pid, s.status pid ≠ .absent → pid ∈ s.forked
  /-- A terminated child has raised a signal that is still pending, or the handler goes on looking. -/
  zombie : ∀ pid, s.status pid = .zombie → s.pending = true ∨ s.handler = .wait
  /-- `main` waits for a child it has forked. -/
  waiting : ∀ pid, s.main = .waitpid pid → s.status pid ≠ .absent

lemma ReapInv.noZombie (h : ReapInv s) (hnone : s.noZombie = true) (pid : ℕ) : s.status pid ≠ .zombie := by
  intro hz
  have hmem := h.forked pid (by rw [hz]; decide)
  have hall := List.all_eq_true.mp hnone pid hmem
  exact of_decide_eq_true hall hz

lemma ShellTurn.inv (h : ShellTurn s a s') (hinv : ReapInv s) : ReapInv s' := by
  obtain ⟨hforked, hzombie, hwaiting⟩ := hinv
  cases h with
  | fork habsent hhandler hmain =>
    constructor <;> grind
  | exit hrunning => constructor <;> grind
  | stop hrunning => exact ⟨hforked, fun _ _ => Or.inl rfl, hwaiting⟩
  | deliver hpending hhandler => exact ⟨hforked, fun _ _ => Or.inr rfl, hwaiting⟩
  | reap hhandler hz => constructor <;> grind
  | reapNone hhandler hnone =>
    refine ⟨hforked, fun pid hz => ?_, hwaiting⟩
    exact absurd hz (ReapInv.noZombie ⟨hforked, hzombie, hwaiting⟩ hnone pid)
  | handlerReturn hhandler =>
    refine ⟨hforked, fun pid hz => ?_, hwaiting⟩
    rcases hzombie pid hz with hp | hw
    · exact Or.inl hp
    · rw [hhandler] at hw
      cases hw
  | waitReap hmain hhandler hz => constructor <;> grind
  | waitGone hmain hhandler hgone => exact ⟨hforked, hzombie, fun pid hw => by cases hw⟩

lemma shellMachine_inv (h : shellMachine.Reachable s) : ReapInv s := by
  refine h.invariant (fun s hs => ?_) fun s a t _ hs hstep => ?_
  · rw [show s = shellStart from hs]
    exact ⟨fun pid h => absurd rfl h, fun pid h => (by cases h), fun pid h => (by cases h)⟩
  · exact (ShellTurn.of_step hstep).inv hs

/-! ## Whole runs -/

/-- The step reaps the child `pid`: in the handler, or in the `waitpid` of `main`. -/
def reaps (pid : ℕ) : ShellState × ShellAction → Bool
  | (_, .reap (some pid')) => pid' = pid
  | (s, .waitReturn) => s.main = .waitpid pid && s.status pid = .zombie
  | _ => false

/-- A child is reaped by the step that makes it `reaped`. -/
lemma ShellTurn.reaps (h : ShellTurn s a s') (pid : ℕ) :
    (s.status pid = .reaped → s'.status pid = .reaped ∧ reaps pid (s, a) = false) ∧
    (s.status pid ≠ .reaped → (reaps pid (s, a) = true ↔ s'.status pid = .reaped)) := by
  cases h with
  | waitGone hmain hhandler hgone =>
    refine ⟨fun hr => ⟨hr, ?_⟩, fun hr => ?_⟩
    · simp [Lsh.reaps, hr]
    · simp only [Lsh.reaps]
      grind
  | _ => grind [Lsh.reaps]

/-- A child terminates by `exit` only, and does not come back. -/
lemma ShellTurn.terminated (h : ShellTurn s a s') (pid : ℕ) :
    (s'.status pid = .zombie ∨ s'.status pid = .reaped) ↔
      (s.status pid = .zombie ∨ s.status pid = .reaped) ∨ a = .exit pid := by
  cases h with
  | _ => grind

lemma terminated_run {as : List ShellAction} (hrun : shellMachine.run shellStart as = some s) (pid : ℕ) :
    (s.status pid = .zombie ∨ s.status pid = .reaped) ↔ .exit pid ∈ as := by
  refine shellMachine.run_induction (by simp [shellStart]) ?_ hrun
  intro as r a t _ ih hstep
  rw [(ShellTurn.of_step hstep).terminated pid, ih, List.mem_append, List.mem_singleton, eq_comm]

lemma reaped_run {as : List ShellAction} (hrun : shellMachine.run shellStart as = some s) (pid : ℕ) :
    (shellMachine.history shellStart as).countP (reaps pid) =
      if s.status pid = .reaped then 1 else 0 := by
  refine shellMachine.run_induction rfl ?_ hrun
  intro as r a t hr ih hstep
  obtain ⟨hdone, hnew⟩ := (ShellTurn.of_step hstep).reaps pid
  rw [shellMachine.countP_history_snoc hr, ih]
  by_cases hreaped : r.status pid = .reaped
  · obtain ⟨ht, hno⟩ := hdone hreaped
    rw [if_pos hreaped, if_pos ht, hno]
    rfl
  · have hiff := hnew hreaped
    rw [if_neg hreaped]
    by_cases ht : t.status pid = .reaped
    · rw [if_pos ht, hiff.mpr ht]
      rfl
    · rw [if_neg ht, Bool.eq_false_iff.mpr fun hr => ht (hiff.mp hr)]
      rfl

/-- What holds after the run `as` of the shell, which ends in `s`. -/
structure NoZombies (as : List ShellAction) (s : ShellState) : Prop where
  /-- When no signal is pending and the handler does not run, every child that has terminated is reaped. -/
  reaped : s.pending = false → s.handler = .idle → ∀ pid, .exit pid ∈ as →
    (shellMachine.history shellStart as).countP (reaps pid) = 1
  /-- No child is reaped twice. -/
  once : ∀ pid, (shellMachine.history shellStart as).countP (reaps pid) ≤ 1
  /-- The `waitpid` of `main` returns only after the child has terminated. -/
  waits : ∀ pid s', s.main = .waitpid pid → shellMachine.step s .waitReturn = some s' → .exit pid ∈ as
  /-- It does return then, whoever reaps the child. -/
  returns : ∀ pid, s.main = .waitpid pid → s.handler = .idle → .exit pid ∈ as →
    ∃ s', shellMachine.step s .waitReturn = some s' ∧ s'.main = .readline

/-- The shell leaves no zombies behind. -/
theorem shell_reaps_children {as : List ShellAction} {s : ShellState}
    (hrun : shellMachine.run shellStart as = some s) : NoZombies as s := by
  have hinv := shellMachine_inv ⟨shellStart, as, rfl, hrun⟩
  refine ⟨fun hpending hhandler pid hexit => ?_, fun pid => ?_, fun pid s' hmain hstep => ?_,
    fun pid hmain hhandler hexit => ?_⟩
  · rw [reaped_run hrun pid, if_pos]
    rcases (terminated_run hrun pid).mpr hexit with hz | hr
    · rcases hinv.zombie pid hz with hp | hw
      · rw [hpending] at hp
        cases hp
      · rw [hhandler] at hw
        cases hw
    · exact hr
  · rw [reaped_run hrun pid]
    split <;> omega
  · rw [← terminated_run hrun pid]
    have hforked := hinv.waiting pid hmain
    cases ShellTurn.of_step hstep with
    | waitReap hmain' _ hz =>
      obtain rfl := MainPc.waitpid.inj (hmain.symm.trans hmain')
      exact Or.inl hz
    | waitGone hmain' _ hgone =>
      obtain rfl := MainPc.waitpid.inj (hmain.symm.trans hmain')
      exact Or.inr (hgone.resolve_left hforked)
  · change ∃ s', shellStep s .waitReturn = some s' ∧ _
    rcases (terminated_run hrun pid).mpr hexit with hz | hr
    · exact ⟨{ s.setStatus pid .reaped with main := .readline },
        by simp only [shellStep, hmain, if_pos hhandler, hz], rfl⟩
    · exact ⟨{ s with main := .readline }, by simp only [shellStep, hmain, if_pos hhandler, hr], rfl⟩

/-- A background child and the foreground child terminate before the first signal is delivered, and one run of
the handler reaps both before `main` gets to its `waitpid`. -/
def coalesced : List ShellAction :=
  [.fork 1 true, .fork 2 false, .exit 1, .exit 2, .deliver, .reap (some 2), .reap (some 1), .reap none,
    .handlerReturn]

theorem shell_reaps_children_coalesced :
    ∃ s, shellMachine.run shellStart coalesced = some s ∧ s.main = .waitpid 2 ∧ NoZombies coalesced s := by
  have hrun : (shellMachine.run shellStart coalesced).map ShellState.main = some (.waitpid 2) := by
    decide +kernel
  obtain ⟨s, hs, hmain⟩ := Option.map_eq_some_iff.mp hrun
  exact ⟨s, hs, hmain, shell_reaps_children hs⟩

end OsLabs.Lsh
