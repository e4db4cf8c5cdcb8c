import OsLabs.Lsh.Pipeline

/-!
# The wiring of a pipeline

When every `execvp` succeeds, the pipeline is the one the user typed: one process for each program, connected by
pipes of which no process holds more than its own two ends. The loop is followed from stage to stage with the
invariant `Child.Open`: the leader holds the ends of the last pipe and nothing else.

Stages are counted from the right, as they are started, except in the final result.
-/

namespace OsLabs.Lsh

open Lib Function

variable (cmd : Command)

/-! ## One process for each stage -/

/-- Where stage `k` reads from, in a shell with the entries `e`. -/
def stageInput (e : ℕ → Option Desc) (k : ℕ) : Option Desc :=
  if k + 1 = cmd.pgm.length then fileOr cmd.rstdin (e 0) else some (.readEnd k)

/-- Where stage `k` writes to. -/
def stageOutput (e : ℕ → Option Desc) (k : ℕ) : Option Desc :=
  if k = 0 then fileOr cmd.rstdout (e 1) else some (.writeEnd (k - 1))

/-- The process executes stage `k`, with its own two descriptors and those of the shell. -/
def RunsStage (e : ℕ → Option Desc) (k : ℕ) (pgm : Pgm) (p : Process) : Prop :=
  ∃ fds : FdTable Desc, p = ⟨[], .execd k pgm fds⟩ ∧
    fds.entry = update (update e 0 (stageInput cmd e k)) 1 (stageOutput cmd e k)

/-- The processes execute the programs, which are the stages from `k` on. -/
def RunsStages (e : ℕ → Option Desc) : ℕ → List Pgm → List Process → Prop
  | _, [], [] => True
  | k, pgm :: pgms, p :: ps => RunsStage cmd e k pgm p ∧ RunsStages e (k + 1) pgms ps
  | _, _, _ => False

variable {cmd}

variable {e : ℕ → Option Desc} {pgms : List Pgm} {i : ℕ}

lemma RunsStages.length {k : ℕ} {ps : List Process} (h : RunsStages cmd e k pgms ps) :
    ps.length = pgms.length := by
  induction pgms generalizing k ps with
  | nil =>
    cases ps with
    | nil => rfl
    | cons p ps => exact h.elim
  | cons pgm pgms ih =>
    cases ps with
    | nil => exact h.elim
    | cons p ps =>
      have htail := ih h.2
      simp only [List.length_cons, htail]

lemma RunsStages.get {k : ℕ} {ps : List Process} (h : RunsStages cmd e k pgms ps) {j : ℕ} {pgm : Pgm}
    (hj : pgms[j]? = some pgm) : ∃ p, ps[j]? = some p ∧ RunsStage cmd e (k + j) pgm p := by
  induction pgms generalizing k ps j with
  | nil => simp at hj
  | cons pgm' pgms ih =>
    cases ps with
    | nil => exact h.elim
    | cons p ps =>
      cases j with
      | zero =>
        obtain rfl : pgm' = pgm := by simpa using hj
        exact ⟨p, rfl, h.1⟩
      | succ j =>
        obtain ⟨q, hq, hruns⟩ := ih h.2 (by simpa using hj)
        refine ⟨q, by simpa using hq, ?_⟩
        rw [show k + (j + 1) = k + 1 + j by omega]
        exact hruns

lemma Command.stage_drop (h : i ≤ cmd.pgm.length) : cmd.stage (cmd.pgm.drop i) = i := by
  simp only [Command.stage, List.length_drop]
  omega

lemma Command.drop_succ {pgm : Pgm} {next : List Pgm} (h : cmd.pgm.drop i = pgm :: next) :
    cmd.pgm.drop (i + 1) = next := by
  rw [← List.drop_drop, h]
  rfl

/-- From stage `i` on, the loop starts one process for each program. -/
lemma pipelineLoop_wired {slot : Bool → ℕ × ℕ} {b : Bool} {c : Child} {next : List Pgm} (hi : 0 < i)
    (hnext : cmd.pgm.drop i = next) (hne : next ≠ []) (hopen : c.Open e slot b (i - 1))
    (hfailed : c.failed = []) : RunsStages cmd e i next (pipelineLoop cmd (fun _ => false) next c i).1 := by
  induction next generalizing i b c with
  | nil => exact absurd rfl hne
  | cons pgm next ih =>
    have hlen := congrArg List.length hnext
    rw [List.length_drop] at hlen
    have hstage : cmd.stage (pgm :: next) = i := by
      rw [← hnext]
      apply Command.stage_drop
      simp only [List.length_cons] at hlen
      omega
    cases next with
    | nil =>
      -- the leader itself is the last stage
      simp only [List.length_cons, List.length_nil] at hlen
      obtain ⟨t, hentry, hleft⟩ := hopen.leftmost cmd (fun _ => false) [pgm]
      simp only [hstage, hfailed, Bool.false_eq_true, if_false] at hleft
      rw [pipelineLoop]
      · refine ⟨⟨t, by rw [hleft], ?_⟩, trivial⟩
        rw [hentry, stageInput, stageOutput, if_pos (by omega), if_neg (by omega)]
      · intro _ _ _ h
        cases h
    | cons pgm' rest =>
      simp only [List.length_cons] at hlen
      obtain ⟨t, c', hentry, hopen', hfailed', hloop⟩ :=
        hopen.pipelineLoop cmd (fun _ => false) pgm pgm' rest i
      simp only [hstage] at hloop
      rw [hloop]
      refine ⟨⟨t, rfl, ?_⟩, ?_⟩
      · rw [hentry, stageInput, stageOutput, if_neg (by omega), if_neg (by omega)]
        exact update_comm (by decide) _ _ _
      · apply ih (by omega)
        · exact Command.drop_succ hnext
        · simp
        · exact hopen'
        · rw [hfailed', hfailed]

lemma exists_cons_cons (h : 2 ≤ pgms.length) : ∃ pgm pgm' rest, pgms = pgm :: pgm' :: rest := by
  obtain ⟨pgm, tail, rfl⟩ := List.exists_cons_of_length_pos (by omega : 0 < pgms.length)
  simp only [List.length_cons] at h
  obtain ⟨pgm', rest, rfl⟩ := List.exists_cons_of_length_pos (by omega : 0 < tail.length)
  exact ⟨pgm, pgm', rest, rfl⟩

/-- The processes of a command with several programs. -/
lemma leader_wired {sh : Shell} (hlen : 2 ≤ cmd.pgm.length) :
    RunsStages cmd sh.fds.entry 0 cmd.pgm (leader cmd (fun _ => false) sh.fds) := by
  obtain ⟨slot, hslots⟩ := Slots.exists sh.fds (sh.std 0 (by omega)) (sh.std 1 (by omega))
  obtain ⟨pgm, pgm', rest, hpgm⟩ := exists_cons_cons hlen
  have hleader : leader cmd (fun _ => false) sh.fds = pipeline cmd (fun _ => false) sh.fds [] := by
    simp [leader, hpgm]
  obtain ⟨t, c, hentry, hopen, hfailed, hpipeline⟩ :=
    hslots.pipeline cmd (fun _ => false) rfl hpgm []
  rw [hleader, hpipeline]
  have hloop : RunsStages cmd sh.fds.entry 1 (pgm' :: rest)
      (pipelineLoop cmd (fun _ => false) (pgm' :: rest) c 1).1 :=
    pipelineLoop_wired (by omega) (by rw [hpgm]; rfl) (by simp) hopen hfailed
  rw [hpgm]
  refine ⟨⟨t, rfl, ?_⟩, hloop⟩
  have hne : 0 + 1 ≠ cmd.pgm.length := by omega
  rw [hentry, stageInput, stageOutput, if_neg hne, if_pos rfl]

/-- Every command that is forked has one process for each program. -/
lemma leader_length (sh : Shell) : (leader cmd (fun _ => false) sh.fds).length = cmd.pgm.length := by
  match hpgm : cmd.pgm with
  | [] => exact absurd hpgm cmd.nonempty
  | [pgm] =>
    obtain ⟨slot, hslots⟩ := Slots.exists sh.fds (sh.std 0 (by omega)) (sh.std 1 (by omega))
    obtain ⟨t, _, hleader⟩ := hslots.leader_single cmd (fun _ => false) hpgm
    rw [hleader]
    rfl
  | pgm :: pgm' :: rest =>
    rw [← hpgm]
    exact (leader_wired (by simp [hpgm])).length

/-! ## The wiring, from left to right -/

/-- The processes of a launched command are connected as its `n` programs stand, from left to right: `pipe i`
connects stage `i` with stage `i + 1`, and nobody else holds a descriptor of it. -/
structure Wired (sh : Shell) (cmd : Command) (launch : Launch) (pipe : ℕ → ℕ) : Prop where
  /-- There is one process for each program. -/
  one_each : launch.processes.length = cmd.pgm.length
  distinct : ∀ i j, i + 1 < cmd.pgm.length → j + 1 < cmd.pgm.length → pipe i = pipe j → i = j
  /-- Stage `i` is executed, reads from the pipe before it and writes to the pipe after it, and has no other pipe
  descriptor. -/
  stage : ∀ i k, i + k + 1 = cmd.pgm.length → ∃ pgm fds,
    cmd.pgm[k]? = some pgm ∧ launch.processes[k]? = some ⟨[], .execd k pgm fds⟩ ∧
    fds.entry 0 = (if i = 0 then fileOr cmd.rstdin (sh.fds.entry 0) else some (.readEnd (pipe (i - 1)))) ∧
    fds.entry 1 = (if k = 0 then fileOr cmd.rstdout (sh.fds.entry 1) else some (.writeEnd (pipe i))) ∧
    ∀ fd d, fds.entry fd = some d → d.isPipe = true → fd = 0 ∧ i ≠ 0 ∨ fd = 1 ∧ k ≠ 0
  /-- The shell has no descriptor of a pipe. -/
  shell : ∀ fd d, launch.shell.entry fd = some d → d.isPipe = false

/-- The write end of `pipe i` is held by stage `i` only, so that its reader sees the end of the input when that stage
exits. -/
def SoleWriters (cmd : Command) (launch : Launch) (pipe : ℕ → ℕ) : Prop :=
  ∀ i k p stage pgm fds fd, i + 1 < cmd.pgm.length → launch.processes[k]? = some p →
    p.ending = .execd stage pgm fds → fds.entry fd = some (.writeEnd (pipe i)) →
      i + k + 1 = cmd.pgm.length ∧ fd = 1

lemma Wired.soleWriters {sh : Shell} {cmd : Command} {launch : Launch} {pipe : ℕ → ℕ}
    (h : Wired sh cmd launch pipe) : SoleWriters cmd launch pipe := by
  intro i k p stage pgm fds fd hi hp hend hfd
  have hk : k < cmd.pgm.length := by
    rw [← h.one_each]
    exact (List.getElem?_eq_some_iff.mp hp).1
  obtain ⟨j, hj⟩ : ∃ j, j + k + 1 = cmd.pgm.length := ⟨cmd.pgm.length - k - 1, by omega⟩
  obtain ⟨pgm', fds', _, hp', h0, h1, hpipes⟩ := h.stage j k hj
  rw [hp] at hp'
  obtain rfl := Option.some.inj hp'
  obtain ⟨_, _, rfl⟩ := Ending.execd.inj hend
  rcases hpipes fd _ hfd rfl with ⟨rfl, hj0⟩ | ⟨rfl, hk0⟩
  · -- descriptor 0 is a read end
    rw [hfd, if_neg hj0] at h0
    cases h0
  · rw [hfd, if_neg hk0] at h1
    have hij : pipe i = pipe j := Desc.writeEnd.inj (Option.some.inj h1)
    have := h.distinct i j hi (by omega) hij
    exact ⟨by omega, rfl⟩

/-- Neither a file nor what the shell inherits is a pipe of the command. -/
lemma Shell.fileOr_not_pipe (sh : Shell) {file : Option String} {fd : ℕ} {d : Desc}
    (h : fileOr file (sh.fds.entry fd) = some d) : d.isPipe = false := by
  cases file with
  | none =>
    rw [sh.inherited fd d h]
    rfl
  | some name =>
    obtain rfl : Desc.file name = d := Option.some.inj h
    rfl

/-- A pipeline whose programs can all be executed is wired as it stands. -/
theorem pipeline_wiring (sh : Shell) (cmd : Command) (hlen : 2 ≤ cmd.pgm.length) :
    ∃ pipe, Wired sh cmd (runCommand cmd (fun _ => false) sh) pipe ∧
      SoleWriters cmd (runCommand cmd (fun _ => false) sh) pipe := by
  suffices h : ∃ pipe, Wired sh cmd (runCommand cmd (fun _ => false) sh) pipe by
    obtain ⟨pipe, hwired⟩ := h
    exact ⟨pipe, hwired, hwired.soleWriters⟩
  have hnot : cmd.isBuiltin = false := by
    by_contra hb
    obtain ⟨pgm, hpgm⟩ := cmd.single_of_isBuiltin (by simpa using hb)
    simp [hpgm] at hlen
  have hlaunch : runCommand cmd (fun _ => false) sh = ⟨sh.fds, leader cmd (fun _ => false) sh.fds⟩ := by
    simp [runCommand, hnot]
  have hwired : RunsStages cmd sh.fds.entry 0 cmd.pgm (leader cmd (fun _ => false) sh.fds) :=
    leader_wired hlen
  rw [hlaunch]
  -- the pipes are created from right to left
  refine ⟨fun i => cmd.pgm.length - 2 - i, hwired.length, fun i j hi hj h => by omega,
    fun i k hik => ?_, fun fd d hd => ?_⟩
  · obtain ⟨pgm, hpgm⟩ : ∃ pgm, cmd.pgm[k]? = some pgm := ⟨cmd.pgm[k], List.getElem?_eq_getElem (by omega)⟩
    obtain ⟨p, hp, fds, rfl, hentry⟩ := hwired.get hpgm
    rw [Nat.zero_add] at hp hentry
    refine ⟨pgm, fds, hpgm, hp, ?_, ?_, fun fd d hd hpipe => ?_⟩
    · rw [hentry, update_of_ne (by decide), update_self, stageInput]
      by_cases hi : i = 0
      · rw [if_pos (by omega), if_pos hi]
      · rw [if_neg (by omega), if_neg hi, show cmd.pgm.length - 2 - (i - 1) = k by omega]
    · rw [hentry, update_self, stageOutput, show cmd.pgm.length - 2 - i = k - 1 by omega]
    · rw [hentry] at hd
      by_cases h1 : fd = 1
      · refine Or.inr ⟨h1, fun hk => ?_⟩
        rw [h1, update_self, stageOutput, if_pos hk] at hd
        rw [sh.fileOr_not_pipe hd] at hpipe
        cases hpipe
      · rw [update_of_ne h1] at hd
        by_cases h0 : fd = 0
        · refine Or.inl ⟨h0, fun hi => ?_⟩
          rw [h0, update_self, stageInput, if_pos (by omega)] at hd
          rw [sh.fileOr_not_pipe hd] at hpipe
          cases hpipe
        · rw [update_of_ne h0] at hd
          rw [sh.inherited fd d hd] at hpipe
          cases hpipe
  · rw [sh.inherited fd d hd]
    rfl

/-- A shell with nothing but the three standard descriptors. -/
def terminalShell : Shell where
  fds :=
    { entry := fun fd => if fd < 3 then some (.inherited fd) else none
      bound := 3
      closed := fun fd h => if_neg (by omega) }
  std fd h := by simp [h]
  inherited fd d h := by
    dsimp only at h
    split at h
    · exact (Option.some.inj h).symm
    · cases h

/-- `ls < in | grep c | wc > out`. -/
def threeStages : Command where
  pgm := [⟨"wc", []⟩, ⟨"grep", ["c"]⟩, ⟨"ls", []⟩]
  rstdin := some "in"
  rstdout := some "out"
  background := false
  nonempty := by simp

theorem pipeline_wiring_threeStages :
    2 ≤ threeStages.pgm.length ∧
      ∃ pipe, Wired terminalShell threeStages (runCommand threeStages (fun _ => false) terminalShell) pipe ∧
        SoleWriters threeStages (runCommand threeStages (fun _ => false) terminalShell) pipe :=
  ⟨by decide, pipeline_wiring terminalShell threeStages (by decide)⟩

end OsLabs.Lsh
