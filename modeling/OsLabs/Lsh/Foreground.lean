import Mathlib.Data.List.Perm.Basic
import OsLabs.Lsh.Reaping
import OsLabs.Lsh.Wiring

/-!
# Waiting for a foreground pipeline

The shell forks the leader of a pipeline, which forks the other stages and becomes the leftmost one. The other
stages are no children of the shell, so the `waitpid` of `main` returns when the leader terminates, whatever
the other stages do. The stages of a launched command are followed here together with the shell, its signal
handler and its other children, from the fork of the leader to the next `readline`.
-/

namespace OsLabs.Lsh

open Lib

/-! ## The model -/

/-- The number of processes of a command, when all its programs can be executed. The last one is the leader. -/
def stages (sh : Shell) (cmd : Command) : ℕ :=
  (runCommand cmd (fun _ => false) sh).processes.length

variable {sh : Shell} {cmd : Command} {pid : ℕ} {order : List ℕ}

/-- A builtin has no processes. -/
lemma stages_of_builtin (h : cmd.isBuiltin = true) : stages sh cmd = 0 := by
  simp [stages, runCommand, h]

/-- Every other command has one for each program. -/
lemma stages_of_forked (h : cmd.isBuiltin = false) : stages sh cmd = cmd.pgm.length := by
  simp [stages, runCommand, h, leader_length]

/-- The shell and the stages of its foreground command that have not terminated, among them those that the leader
has not yet forked. -/
structure ForegroundState where
  shell : ShellState
  alive : List ℕ

inductive ForegroundAction where
  /-- A stage terminates. -/
  | terminate (stage : ℕ)
  /-- The shell, or another one of its children. -/
  | shell (a : ShellAction)

/-- The actions of the shell up to its next command, and of its children other than the leader `pid`. -/
def besides (pid : ℕ) : ShellAction → Bool
  | .fork _ _ => false
  | .exit pid' => pid' ≠ pid
  | _ => true

/-- One step of a pipeline of `n` stages whose leader is the child `pid` of the shell. -/
def foregroundStep (n pid : ℕ) (s : ForegroundState) : ForegroundAction → Option ForegroundState
  | .terminate k =>
    if k ∈ s.alive then
      if k + 1 = n then do
        let shell ← shellStep s.shell (.exit pid)
        some ⟨shell, s.alive.erase k⟩
      else some { s with alive := s.alive.erase k }
    else none
  | .shell a =>
    if besides pid a then do
      let shell ← shellStep s.shell a
      some { s with shell }
    else none

/-- What `main` does with a command in the state `s`: a builtin is executed without a fork, for every other command
the child `pid` is forked. -/
def startCommand (cmd : Command) (pid : ℕ) (s : ShellState) : Option ShellState :=
  if cmd.isBuiltin then some s else shellStep s (.fork pid cmd.background)

/-- The machine of a command that the shell has just started. -/
def foregroundMachine (sh : Shell) (cmd : Command) (pid : ℕ) : Machine ForegroundState ForegroundAction where
  Init s := s.alive = List.range (stages sh cmd) ∧
    ∃ s₀, shellMachine.Reachable s₀ ∧ s₀.main = .readline ∧ startCommand cmd pid s₀ = some s.shell
  step := foregroundStep (stages sh cmd) pid

lemma foregroundMachine_step : (foregroundMachine sh cmd pid).step = foregroundStep (stages sh cmd) pid := rfl

/-- The stages that terminate in a run, in order. -/
def terminations (as : List ForegroundAction) : List ℕ :=
  as.filterMap fun
    | .terminate k => some k
    | .shell _ => none

/-- When the stages terminate in this order, the shell is not back at `readline` before all of them have. -/
def WaitedFor (sh : Shell) (cmd : Command) (pid : ℕ) (order : List ℕ) : Prop :=
  ∀ s₀ as s, (foregroundMachine sh cmd pid).Init s₀ → (foregroundMachine sh cmd pid).run s₀ as = some s →
    terminations as <+: order → s.shell.main = .readline → s.alive = []

/-! ## What a run does to the stages -/

lemma terminations_append (as bs : List ForegroundAction) :
    terminations (as ++ bs) = terminations as ++ terminations bs :=
  List.filterMap_append

/-- The steps: a stage other than the leader, the leader, or the shell. -/
inductive ForegroundTurn (n pid : ℕ) (s : ForegroundState) : ForegroundAction → ForegroundState → Prop
  | stage {k : ℕ} (halive : k ∈ s.alive) (hne : k + 1 ≠ n) :
      ForegroundTurn n pid s (.terminate k) { s with alive := s.alive.erase k }
  | leader {k : ℕ} {shell : ShellState} (halive : k ∈ s.alive) (hk : k + 1 = n)
      (hshell : shellStep s.shell (.exit pid) = some shell) :
      ForegroundTurn n pid s (.terminate k) ⟨shell, s.alive.erase k⟩
  | shell {a : ShellAction} {shell : ShellState} (ha : besides pid a = true)
      (hshell : shellStep s.shell a = some shell) : ForegroundTurn n pid s (.shell a) { s with shell }

lemma ForegroundTurn.of_step {n : ℕ} {s s' : ForegroundState} {a : ForegroundAction}
    (h : foregroundStep n pid s a = some s') : ForegroundTurn n pid s a s' := by
  cases a with
  | terminate k =>
    obtain ⟨halive, h⟩ := Option.ite_none_right_eq_some.mp h
    split at h
    · rename_i hk
      obtain ⟨shell, hshell, hs'⟩ := Option.bind_eq_some_iff.mp h
      obtain rfl := Option.some.inj hs'
      exact .leader halive hk hshell
    · rename_i hk
      obtain rfl := Option.some.inj h
      exact .stage halive hk
  | shell a =>
    obtain ⟨ha, h⟩ := Option.ite_none_right_eq_some.mp h
    obtain ⟨shell, hshell, hs'⟩ := Option.bind_eq_some_iff.mp h
    obtain rfl := Option.some.inj hs'
    exact .shell ha hshell

/-- As long as the leader runs, `main` waits for it. -/
structure Waiting (pid : ℕ) (s : ShellState) : Prop where
  main : s.main = .waitpid pid
  leader : s.status pid = .running

/-- Nothing but the termination of the leader ends the wait. -/
lemma Waiting.step {s s' : ShellState} {a : ShellAction} (h : Waiting pid s) (ha : besides pid a = true)
    (hstep : shellStep s a = some s') : Waiting pid s' := by
  obtain ⟨hmain, hleader⟩ := h
  cases ShellTurn.of_step hstep with
  | fork => cases ha
  | exit hrunning =>
    have hne : pid ≠ _ := (of_decide_eq_true ha).symm
    exact ⟨hmain, by rw [ShellState.setStatus_apply, if_neg hne]; exact hleader⟩
  | stop => exact ⟨hmain, hleader⟩
  | deliver => exact ⟨hmain, hleader⟩
  | reap hhandler hz => constructor <;> grind
  | reapNone => exact ⟨hmain, hleader⟩
  | handlerReturn => exact ⟨hmain, hleader⟩
  | waitReap hmain' hhandler hz =>
    obtain rfl := MainPc.waitpid.inj (hmain.symm.trans hmain')
    rw [hleader] at hz
    cases hz
  | waitGone hmain' hhandler hgone =>
    obtain rfl := MainPc.waitpid.inj (hmain.symm.trans hmain')
    rw [hleader] at hgone
    rcases hgone with hgone | hgone <;> cases hgone

section Run

variable {sh : Shell} {cmd : Command} {pid : ℕ} {s₀ s : ForegroundState} {as : List ForegroundAction}

/-- The stages that are left are those that have not terminated. -/
lemma alive_run (hinit : (foregroundMachine sh cmd pid).Init s₀)
    (hrun : (foregroundMachine sh cmd pid).run s₀ as = some s) :
    s.alive.Nodup ∧ ∀ k ∈ s.alive, k < stages sh cmd ∧ k ∉ terminations as := by
  refine (foregroundMachine sh cmd pid).run_induction ?_ ?_ hrun
  · rw [hinit.1]
    refine ⟨List.nodup_range, fun k hk => ⟨List.mem_range.mp hk, ?_⟩⟩
    exact List.not_mem_nil
  · intro as r a t _ ih hstep
    obtain ⟨hnodup, hleft⟩ := ih
    -- a stage that is left is not the one that terminates
    have herase : ∀ k, a = .terminate k → t.alive = r.alive.erase k →
        t.alive.Nodup ∧ ∀ j ∈ t.alive, j < stages sh cmd ∧ j ∉ terminations (as ++ [a]) := by
      intro k ha ht
      rw [ha, ht, terminations_append]
      refine ⟨hnodup.erase k, fun j hj => ?_⟩
      obtain ⟨hne, hmem⟩ := hnodup.mem_erase_iff.mp hj
      obtain ⟨hlt, hnot⟩ := hleft j hmem
      refine ⟨hlt, fun hterm => ?_⟩
      rcases List.mem_append.mp hterm with hterm | hterm
      · exact hnot hterm
      · exact hne (List.mem_singleton.mp hterm)
    cases ForegroundTurn.of_step hstep with
    | stage halive hne => exact herase _ rfl rfl
    | leader halive hk hshell => exact herase _ rfl rfl
    | shell ha hshell =>
      refine ⟨hnodup, fun j hj => ?_⟩
      simpa [terminations] using hleft j hj

/-- The shell waits until the leader has terminated. -/
lemma waiting_run (hfg : cmd.background = false) (hforked : cmd.isBuiltin = false)
    (hinit : (foregroundMachine sh cmd pid).Init s₀)
    (hrun : (foregroundMachine sh cmd pid).run s₀ as = some s) :
    (∃ k ∈ terminations as, k + 1 = stages sh cmd) ∨ Waiting pid s.shell := by
  refine (foregroundMachine sh cmd pid).run_induction ?_ ?_ hrun
  · obtain ⟨_, s', _, _, hfork⟩ := hinit
    rw [startCommand, hforked] at hfork
    have hturn : ShellTurn s' (.fork pid cmd.background) s₀.shell := ShellTurn.of_step hfork
    generalize s₀.shell = shell at hturn
    cases hturn with
    | fork habsent hhandler hmain =>
      refine Or.inr ⟨by rw [hfg]; rfl, ?_⟩
      exact (ShellState.setStatus_apply _ _ _ _).trans (if_pos rfl)
  · intro as r a t _ ih hstep
    rw [terminations_append]
    rcases ih with ⟨k, hmem, hk⟩ | hwaiting
    · exact Or.inl ⟨k, List.mem_append_left _ hmem, hk⟩
    · cases ForegroundTurn.of_step hstep with
      | stage halive hne => exact Or.inr hwaiting
      | leader halive hk hshell =>
        exact Or.inl ⟨_, List.mem_append_right _ (List.mem_singleton_self _), hk⟩
      | shell ha hshell => exact Or.inr (hwaiting.step ha hshell)

end Run

/-! ## The termination orders that are waited for -/

/-- A part of the order that contains its last stage is all of it. -/
lemma eq_of_last_mem {l : List ℕ} {x : ℕ} (hnodup : order.Nodup) (hpart : l <+: order)
    (hlast : order.getLast? = some x) (hx : x ∈ l) : l = order := by
  obtain ⟨rest, rfl⟩ := hpart
  cases hrest : rest with
  | nil => rw [List.append_nil]
  | cons y ys =>
    have hmem : x ∈ rest := by
      rw [List.getLast?_append_of_ne_nil l (by rw [hrest]; simp)] at hlast
      exact List.mem_of_getLast? hlast
    exact absurd rfl ((List.nodup_append.mp hnodup).2.2 x hx x hmem)

/-- A builtin has no stages to wait for. -/
lemma waitedFor_builtin (hb : cmd.isBuiltin = true) : WaitedFor sh cmd pid order := by
  intro s₀ as s hinit hrun _ _
  rw [List.eq_nil_iff_forall_not_mem]
  intro j hj
  have hlt : j < stages sh cmd := ((alive_run hinit hrun).2 j hj).1
  rw [stages_of_builtin hb] at hlt
  omega

/-- When the leader terminates last, the shell waits for all stages. -/
lemma waitedFor_of_last (hfg : cmd.background = false) (hforked : cmd.isBuiltin = false)
    (horder : order.Perm (List.range (stages sh cmd))) (hlast : order.getLast? = some (stages sh cmd - 1)) :
    WaitedFor sh cmd pid order := by
  intro s₀ as s hinit hrun hpart hmain
  have hnodup : order.Nodup := horder.nodup_iff.mpr List.nodup_range
  rcases waiting_run hfg hforked hinit hrun with ⟨k, hk, hleader⟩ | hwaiting
  · have hall : terminations as = order := by
      apply eq_of_last_mem hnodup hpart hlast
      rw [← hleader]
      exact hk
    rw [List.eq_nil_iff_forall_not_mem]
    intro j hj
    obtain ⟨hlt, hnot⟩ := (alive_run hinit hrun).2 j hj
    rw [hall] at hnot
    exact hnot (horder.mem_iff.mpr (List.mem_range.mpr hlt))
  · rw [hwaiting.main] at hmain
    cases hmain

/-- Stages other than the leader terminate one after the other. -/
lemma run_terminate {l : List ℕ} {s : ForegroundState} (hnodup : l.Nodup) (halive : ∀ k ∈ l, k ∈ s.alive)
    (hne : ∀ k ∈ l, k + 1 ≠ stages sh cmd) :
    (foregroundMachine sh cmd pid).run s (l.map .terminate) = some { s with alive := s.alive.diff l } := by
  induction l generalizing s with
  | nil => rfl
  | cons k l ih =>
    obtain ⟨hk, hnodup'⟩ := List.nodup_cons.mp hnodup
    have hstep : (foregroundMachine sh cmd pid).step s (.terminate k) =
        some { s with alive := s.alive.erase k } := by
      rw [foregroundMachine_step, foregroundStep, if_pos (halive k (by simp)), if_neg (hne k (by simp))]
    rw [List.map_cons, Machine.run_cons, hstep, Option.bind_some, ih hnodup']
    · rw [List.diff_cons]
    · intro j hj
      have hjk : j ≠ k := fun h => hk (h ▸ hj)
      exact (List.mem_erase_of_ne hjk).mpr (halive j (by simp [hj]))
    · exact fun j hj => hne j (by simp [hj])

/-- The state right after the fork of the leader, in a shell without other children. -/
def launched (sh : Shell) (cmd : Command) (pid : ℕ) : ForegroundState where
  shell :=
    { shellStart.setStatus pid .running with
      forked := [pid]
      main := if cmd.background then .readline else .waitpid pid }
  alive := List.range (stages sh cmd)

lemma launched_init (sh : Shell) (hforked : cmd.isBuiltin = false) (pid : ℕ) :
    (foregroundMachine sh cmd pid).Init (launched sh cmd pid) := by
  refine ⟨rfl, shellStart, .init rfl, rfl, ?_⟩
  rw [startCommand, hforked]
  rfl

/-- The leader terminates, and the `waitpid` of `main` reaps it. -/
lemma launched_leader_exits (sh : Shell) (hfg : cmd.background = false) (pid : ℕ) :
    ∃ shell, shellStep (launched sh cmd pid).shell (.exit pid) = some shell ∧
      shellStep shell .waitReturn =
        some { shell.setStatus pid .reaped with main := .readline } := by
  refine ⟨{ (launched sh cmd pid).shell.setStatus pid .zombie with pending := true }, ?_, ?_⟩
  · simp [shellStep, launched]
  · simp [shellStep, launched, hfg, shellStart]

/-- When another stage terminates after the leader, the shell can be back at `readline` before it. -/
lemma not_waitedFor {x : ℕ} {l₁ l₂ : List ℕ} (hfg : cmd.background = false) (hforked : cmd.isBuiltin = false)
    (horder : (l₁ ++ x :: l₂).Perm (List.range (stages sh cmd))) (hx : x + 1 = stages sh cmd) (hl₂ : l₂ ≠ []) :
    ¬WaitedFor sh cmd pid (l₁ ++ x :: l₂) := by
  have hnodup : (l₁ ++ x :: l₂).Nodup := horder.nodup_iff.mpr List.nodup_range
  have hmem : ∀ k ∈ l₁ ++ x :: l₂, k ∈ (launched sh cmd pid).alive := fun k hk => horder.mem_iff.mp hk
  obtain ⟨hnodup₁, hnodup₂, hdisj⟩ := List.nodup_append.mp hnodup
  have hx₁ : x ∉ l₁ := fun h => hdisj x h x (by simp) rfl
  have hrun₁ : (foregroundMachine sh cmd pid).run (launched sh cmd pid) (l₁.map .terminate) =
      some { launched sh cmd pid with alive := (launched sh cmd pid).alive.diff l₁ } := by
    apply run_terminate hnodup₁ (fun k hk => hmem k (by simp [hk]))
    intro k hk he
    exact hx₁ (by rwa [show x = k by omega])
  -- then the leader terminates, and `waitpid` returns
  have hxalive : x ∈ (launched sh cmd pid).alive.diff l₁ :=
    List.mem_diff_of_mem (hmem x (by simp)) hx₁
  obtain ⟨shell, hexit, hreturn⟩ := launched_leader_exits sh hfg pid
  have hrun : (foregroundMachine sh cmd pid).run (launched sh cmd pid)
      (l₁.map .terminate ++ [.terminate x, .shell .waitReturn]) =
        some ⟨{ shell.setStatus pid .reaped with main := .readline },
          ((launched sh cmd pid).alive.diff l₁).erase x⟩ := by
    rw [Machine.run_append, hrun₁]
    simp [Machine.run, foregroundMachine_step, foregroundStep, hxalive, hx, hexit, hreturn, besides]
  intro hwaited
  obtain ⟨y, hy⟩ := List.exists_mem_of_ne_nil l₂ hl₂
  have hdone : ((launched sh cmd pid).alive.diff l₁).erase x = [] :=
    hwaited _ _ _ (launched_init sh hforked pid) hrun (by
      exact ⟨l₂, by simp [terminations]⟩) rfl
  have hyx : y ≠ x := fun h => (List.nodup_cons.mp hnodup₂).1 (h ▸ hy)
  have hy₁ : y ∉ l₁ := fun h => hdisj y h y (by simp [hy]) rfl
  have hyalive : y ∈ ((launched sh cmd pid).alive.diff l₁).erase x :=
    (List.mem_erase_of_ne hyx).mpr (List.mem_diff_of_mem (hmem y (by simp [hy])) hy₁)
  rw [hdone] at hyalive
  cases hyalive

/-- The shell waits for a foreground command exactly when its leader, the leftmost stage, terminates last. -/
theorem foreground_waited_iff (sh : Shell) (cmd : Command) (pid : ℕ) (order : List ℕ)
    (hfg : cmd.background = false) (horder : order.Perm (List.range cmd.pgm.length)) :
    WaitedFor sh cmd pid order ↔ order.getLast? = some (cmd.pgm.length - 1) := by
  cases hb : cmd.isBuiltin with
  | true =>
    -- a builtin is a single program
    obtain ⟨pgm, hpgm⟩ := cmd.single_of_isBuiltin hb
    rw [hpgm] at horder ⊢
    obtain rfl : order = [0] := List.perm_singleton.mp horder
    exact iff_of_true (waitedFor_builtin hb) rfl
  | false =>
    have hpos : 0 < cmd.pgm.length := List.length_pos_of_ne_nil cmd.nonempty
    have hmem : cmd.pgm.length - 1 ∈ order := horder.mem_iff.mpr (List.mem_range.mpr (by omega))
    have hstages : stages sh cmd = cmd.pgm.length := stages_of_forked hb
    rw [← hstages] at hpos hmem horder ⊢
    constructor
    · intro hwaited
      by_contra hlast
      obtain ⟨l₁, l₂, rfl⟩ := List.append_of_mem hmem
      refine not_waitedFor hfg hb horder (by omega) (fun hnil => hlast ?_) hwaited
      rw [hnil, List.getLast?_concat]
    · intro hlast
      exact waitedFor_of_last hfg hb horder hlast

/-- `cat tmp.1 | sleep 60`: stage 0 is the `sleep`, stage 1 the leader. -/
def catSleep : Command where
  pgm := [⟨"sleep", ["60"]⟩, ⟨"cat", ["tmp.1"]⟩]
  rstdin := none
  rstdout := none
  background := false
  nonempty := by simp

/-- It is waited for when the `sleep` terminates first. -/
theorem foreground_waited_catSleep : WaitedFor terminalShell catSleep 1 [0, 1] :=
  (foreground_waited_iff terminalShell catSleep 1 [0, 1] rfl (by decide)).mpr rfl

/-- When the `cat` terminates first, the shell reads the next line while the `sleep` is running. -/
theorem catSleep_not_waited :
    [1, 0].Perm (List.range catSleep.pgm.length) ∧ ¬WaitedFor terminalShell catSleep 1 [1, 0] := by
  have hstages : stages terminalShell catSleep = 2 := stages_of_forked rfl
  have hperm : [1, 0].Perm (List.range (stages terminalShell catSleep)) := by
    rw [hstages]
    decide
  have hnot : ¬WaitedFor terminalShell catSleep 1 ([] ++ 1 :: [0]) :=
    not_waitedFor rfl rfl hperm hstages.symm (by simp)
  exact ⟨by decide, hnot⟩

end OsLabs.Lsh
