import Mathlib.Data.List.Nodup
import OsLabs.Lsh.Wiring

/-!
# Programs that cannot be executed

After a failed `execvp` the process goes on with the code that builds the rest of the pipeline. Whether this is
noticed depends on the numbers of the descriptors in `pipefd`, which are closed in that process:

* the pipes of the leader alternate between a lower and an upper pair of descriptors (`Slots`);
* a child whose `pipefd` is the lower pair gets the same numbers for every further pipe, so each process it forks closes
  the pipe before it uses it and exits, and so does the child itself in the end;
* a child whose `pipefd` is the upper pair gets the lower one for its next pipe, and then builds the pipeline a second
  time, unless the leftmost stage comes next.

The leader has nothing to hold it back: it returns to the main loop, or follows a NULL pointer when there is
only one program.
-/

namespace OsLabs.Lsh

open Lib

/-! ## What containment means -/

/-- The stage a process ends as, if any. -/
def Ending.executed : Ending → List ℕ
  | .execd k _ _ => [k]
  | _ => []

/-- The stages a process calls `execvp` for. -/
def Process.attempts (p : Process) : List ℕ :=
  p.failed ++ p.ending.executed

/-- Failures of `execvp` stay in the process they happen in. -/
structure Contained (ps : List Process) : Prop where
  /-- A process whose `execvp` fails exits without running another stage. -/
  terminates : ∀ p ∈ ps, ∀ k ∈ p.failed, p.attempts = [k] ∧ p.ending = .exited
  /-- No stage is attempted by two processes. -/
  once : ∀ k, ps.countP (fun p => k ∈ p.attempts) ≤ 1
  /-- No process follows a NULL `next_pgm`. -/
  no_null : ∀ p ∈ ps, p.ending ≠ .segfault

/-- Counted from the right and from 0, no failing stage is the leftmost one, and none is odd unless it is next to the
leftmost one. -/
def FailsSafely (cmd : Command) (fails : ℕ → Bool) : Prop :=
  ∀ k < cmd.pgm.length, fails k = true →
    k + 1 ≠ cmd.pgm.length ∧ (k % 2 = 0 ∨ k + 2 = cmd.pgm.length)

variable {cmd : Command} {fails : ℕ → Bool} {e : ℕ → Option Desc} {slot : Bool → ℕ × ℕ}

/-! ## Failures that are contained -/

/-- The process either has no failure and no fault, or exits after its only failure. -/
def Process.Tidy (p : Process) : Prop :=
  p.failed = [] ∧ p.ending ≠ .segfault ∨ ∃ k, p = ⟨[k], .exited⟩

/-- The processes are tidy, and `stages` are their attempts together. -/
structure Covers (ps : List Process) (stages : List ℕ) : Prop where
  tidy : ∀ p ∈ ps, p.Tidy
  attempts : ps.flatMap Process.attempts = stages

lemma Covers.append {ps qs : List Process} {ks ls : List ℕ} (hp : Covers ps ks) (hq : Covers qs ls) :
    Covers (ps ++ qs) (ks ++ ls) := by
  refine ⟨fun p hmem => ?_, by rw [List.flatMap_append, hp.attempts, hq.attempts]⟩
  rcases List.mem_append.mp hmem with hmem | hmem
  · exact hp.tidy p hmem
  · exact hq.tidy p hmem

lemma covers_execd (k : ℕ) (pgm : Pgm) (fds : FdTable Desc) : Covers [⟨[], .execd k pgm fds⟩] [k] := by
  refine ⟨fun p hp => ?_, rfl⟩
  rw [List.mem_singleton.mp hp]
  exact Or.inl ⟨rfl, by simp⟩

lemma covers_exited : Covers [⟨[], .exited⟩] [] := by
  refine ⟨fun p hp => ?_, rfl⟩
  rw [List.mem_singleton.mp hp]
  exact Or.inl ⟨rfl, by simp⟩

lemma covers_failed (k : ℕ) : Covers [⟨[k], .exited⟩] [k] := by
  refine ⟨fun p hp => ?_, rfl⟩
  rw [List.mem_singleton.mp hp]
  exact Or.inr ⟨k, rfl⟩

/-- Each process that attempts `k` contributes an occurrence of `k`. -/
lemma countP_attempts_le (ps : List Process) (k : ℕ) :
    ps.countP (fun p => k ∈ p.attempts) ≤ (ps.flatMap Process.attempts).count k := by
  induction ps with
  | nil => simp
  | cons p ps ih =>
    rw [List.countP_cons, List.flatMap_cons, List.count_append]
    by_cases hk : k ∈ p.attempts
    · have hpos : 0 < p.attempts.count k := List.count_pos_iff.mpr hk
      rw [if_pos (decide_eq_true hk)]
      omega
    · rw [if_neg (by simpa using hk)]
      omega

lemma Covers.contained {ps : List Process} {stages : List ℕ} (h : Covers ps stages)
    (hnodup : stages.Nodup) : Contained ps := by
  refine ⟨fun p hp k hk => ?_, fun k => ?_, fun p hp => ?_⟩
  · rcases h.tidy p hp with ⟨hnil, _⟩ | ⟨k', rfl⟩
    · rw [hnil] at hk
      cases hk
    · obtain rfl : k = k' := by simpa using hk
      exact ⟨rfl, rfl⟩
  · have hle := countP_attempts_le ps k
    rw [h.attempts] at hle
    exact Nat.le_trans hle (List.nodup_iff_count_le_one.mp hnodup k)
  · rcases h.tidy p hp with ⟨_, hne⟩ | ⟨k', rfl⟩
    · exact hne
    · simp

variable {nextPgm next : List Pgm} {c : Child} {k i pipe pipes : ℕ}

/-- The loop on the last program, or past it, is the leftmost stage. -/
lemma pipelineLoop_of_length_le (h : nextPgm.length ≤ 1) (c : Child) (pipes : ℕ) :
    pipelineLoop cmd fails nextPgm c pipes = ([leftmost cmd fails nextPgm c], pipes) := by
  match nextPgm with
  | [] | [_] =>
    rw [pipelineLoop]
    intro _ _ _ hcons
    cases hcons

/-- A child with the lower pair in `pipefd`: all processes it forks exit, and so does it. -/
lemma Child.Stale.covers_lower (h : c.Stale e slot false) (hfailed : c.failed = [k]) (pipes : ℕ) :
    Covers (pipelineLoop cmd fails nextPgm c pipes).1 [k] := by
  induction nextPgm generalizing c pipes with
  | nil =>
    rw [pipelineLoop_of_length_le (by simp), h.leftmost, hfailed]
    exact covers_failed k
  | cons pgm nextPgm ih =>
    cases nextPgm with
    | nil =>
      rw [pipelineLoop_of_length_le (by simp), h.leftmost, hfailed]
      exact covers_failed k
    | cons pgm' rest =>
      obtain ⟨c', hstale, hfailed', hloop⟩ := h.pipelineLoop_lower cmd fails pgm pgm' rest pipes
      rw [hloop]
      exact covers_exited.append (ih hstale (by rw [hfailed', hfailed]) (pipes + 1))

/-- A child next to the leftmost stage exits at once, whatever its `pipefd`. -/
lemma Child.Stale.covers_last {b : Bool} (h : c.Stale e slot b) (hlen : nextPgm.length ≤ 1)
    (hfailed : c.failed = [k]) (pipes : ℕ) : Covers (pipelineLoop cmd fails nextPgm c pipes).1 [k] := by
  rw [pipelineLoop_of_length_le hlen, h.leftmost, hfailed]
  exact covers_failed k

/-- The pipes of consecutive stages are on different pairs. -/
lemma not_parity (i : ℕ) : (!(i % 2 == 0)) = ((i + 1) % 2 == 0) := by
  rcases Nat.mod_two_eq_zero_or_one i with hi | hi <;> simp [hi, Nat.add_mod]

/-- The loop from stage `i` on, when the failures are safe: each remaining stage is attempted once. -/
lemma Child.Open.covers (hsafe : FailsSafely cmd fails) (hnext : cmd.pgm.drop i = next) (hne : next ≠ [])
    (h : c.Open e slot (i % 2 == 0) pipe) (hfailed : c.failed = []) :
    Covers (Lsh.pipelineLoop cmd fails next c pipes).1 (List.range' i next.length) := by
  induction next generalizing i pipe pipes c with
  | nil => exact absurd rfl hne
  | cons pgm next ih =>
    have hlen := congrArg List.length hnext
    simp only [List.length_drop, List.length_cons] at hlen
    have hstage : cmd.stage (pgm :: next) = i := by
      rw [← hnext]
      exact Command.stage_drop (by omega)
    cases next with
    | nil =>
      simp only [List.length_nil] at hlen
      have hok : fails i = false := by
        by_contra hf
        exact (hsafe i (by omega) (by simpa using hf)).1 (by omega)
      obtain ⟨t, _, hleft⟩ := h.leftmost cmd fails [pgm]
      simp only [hstage, hfailed, hok] at hleft
      rw [pipelineLoop_of_length_le (by simp), hleft]
      exact covers_execd i pgm t
    | cons pgm' rest =>
      simp only [List.length_cons] at hlen
      have hnext' : cmd.pgm.drop (i + 1) = pgm' :: rest := Command.drop_succ hnext
      obtain ⟨t, c', hentry, hopen, hfailed', hloop⟩ := h.pipelineLoop cmd fails pgm pgm' rest pipes
      simp only [hstage] at hloop
      rw [hloop]
      rw [not_parity] at hopen
      change Covers _ ([i] ++ List.range' (i + 1) (pgm' :: rest).length)
      refine Covers.append ?_ (ih hnext' (by simp) hopen (by rw [hfailed', hfailed]))
      by_cases hf : fails i = true
      · rw [if_pos hf]
        have hslots := h.slots
        have hstale : (⟨t, slot !(i % 2 == 0), [i]⟩ : Child).Stale t.entry slot !(i % 2 == 0) := by
          refine ⟨?_, rfl, rfl⟩
          rw [hentry]
          exact (hslots.update hslots.stdout (by simp)).update
            (hslots.update hslots.stdout (by simp)).stdin (by simp)
        rcases (hsafe i (by omega) hf).2 with heven | hlast
        · simp only [heven] at hstale ⊢
          exact hstale.covers_lower rfl _
        · exact hstale.covers_last (by simp only [List.length_cons]; omega) rfl _
      · rw [if_neg hf]
        exact covers_execd i pgm t

/-! ## Failures that are not contained -/

/-- A process that holds its pipe reaches the leftmost stage, and does not exit there. -/
lemma Child.Open.reaches_leftmost {b : Bool} (hnext : cmd.pgm.drop i = next) (hne : next ≠ [])
    (h : c.Open e slot b pipe) :
    ∃ p ∈ (Lsh.pipelineLoop cmd fails next c pipes).1, p.ending ≠ .exited ∧
      (∀ k ∈ c.failed, k ∈ p.failed) ∧
      (fails (cmd.pgm.length - 1) = true → cmd.pgm.length - 1 ∈ p.failed) := by
  induction next generalizing i pipe pipes b c with
  | nil => exact absurd rfl hne
  | cons pgm next ih =>
    cases next with
    | nil =>
      have hstage : cmd.stage [pgm] = cmd.pgm.length - 1 := by simp [Command.stage]
      obtain ⟨t, _, hleft⟩ := h.leftmost cmd fails [pgm]
      refine ⟨_, List.mem_singleton_self _, ?_⟩
      rw [hleft]
      simp only [hstage]
      split
      · refine ⟨by simp, fun k hk => List.mem_append_left _ hk, fun _ => by simp⟩
      · rename_i hf
        exact ⟨by simp, fun k hk => hk, fun hf' => absurd hf' hf⟩
    | cons pgm' rest =>
      have hnext' : cmd.pgm.drop (i + 1) = pgm' :: rest := Command.drop_succ hnext
      obtain ⟨t, c', _, hopen, hfailed', hloop⟩ := h.pipelineLoop cmd fails pgm pgm' rest pipes
      rw [hloop]
      obtain ⟨p, hp, hend, hk, hlast⟩ := ih hnext' (by simp) hopen
      refine ⟨p, List.mem_append_right _ hp, hend, ?_, hlast⟩
      rw [← hfailed']
      exact hk

/-- A failing inner stage is a child with a closed `pipefd`, whose processes are among those of the loop. -/
lemma Child.Open.child_of_failure (hnext : cmd.pgm.drop i = next) (h : c.Open e slot (i % 2 == 0) pipe)
    (hik : i ≤ k) (hk : k + 1 < cmd.pgm.length) (hf : fails k = true) :
    ∃ (c' : Child) (pipes' : ℕ), c'.Stale c'.fds.entry slot (!(k % 2 == 0)) ∧ c'.failed = [k] ∧
      ∀ p ∈ (Lsh.pipelineLoop cmd fails (cmd.pgm.drop (k + 1)) c' pipes').1,
        p ∈ (Lsh.pipelineLoop cmd fails next c pipes).1 := by
  induction next generalizing i pipe pipes c with
  | nil =>
    rw [List.drop_eq_nil_iff] at hnext
    omega
  | cons pgm next ih =>
    have hnext' : cmd.pgm.drop (i + 1) = next := Command.drop_succ hnext
    cases next with
    | nil =>
      rw [List.drop_eq_nil_iff] at hnext'
      omega
    | cons pgm' rest =>
      have hstage : cmd.stage (pgm :: pgm' :: rest) = i := by
        rw [← hnext]
        exact Command.stage_drop (by omega)
      obtain ⟨t, c', hentry, hopen, _, hloop⟩ := h.pipelineLoop cmd fails pgm pgm' rest pipes
      simp only [hstage] at hloop
      rw [hloop]
      by_cases hi : i = k
      · -- the child of this turn
        rw [hi] at hnext' ⊢
        refine ⟨⟨t, slot !(k % 2 == 0), [k]⟩, pipes + 1, ⟨?_, rfl, rfl⟩, rfl, ?_⟩
        · rw [hentry]
          have hslots := h.slots.update h.slots.stdout (d := some (.writeEnd pipe)) (by simp)
          exact hslots.update hslots.stdin (by simp)
        · rw [if_pos hf, hnext']
          exact fun p hp => List.mem_append_left _ hp
      · rw [not_parity] at hopen
        obtain ⟨c'', pipes'', hstale, hfailed, hsub⟩ := ih hnext' hopen (by omega)
        exact ⟨c'', pipes'', hstale, hfailed, fun p hp => List.mem_append_right _ (hsub p hp)⟩

/-- An odd failing stage with another stage between it and the leftmost one ends as the leftmost stage, or in the
main loop. -/
lemma Child.Stale.not_exited (h : c.Stale e slot true) (hfailed : c.failed = [k])
    (hk : k + 2 < cmd.pgm.length) :
    ∃ p ∈ (Lsh.pipelineLoop cmd fails (cmd.pgm.drop (k + 1)) c pipes).1, k ∈ p.failed ∧
      p.ending ≠ .exited := by
  have hlen : 2 ≤ (cmd.pgm.drop (k + 1)).length := by
    rw [List.length_drop]
    omega
  obtain ⟨pgm, pgm', rest, hnext⟩ := exists_cons_cons hlen
  have hnext' : cmd.pgm.drop (k + 1 + 1) = pgm' :: rest := Command.drop_succ hnext
  obtain ⟨c', hopen, hfailed', hloop⟩ := h.pipelineLoop_upper cmd fails pgm pgm' rest pipes
  rw [hnext, hloop]
  obtain ⟨p, hp, hend, hmem, _⟩ := hopen.reaches_leftmost hnext' (by simp)
  exact ⟨p, List.mem_cons_of_mem _ hp, hmem k (by rw [hfailed', hfailed]; simp), hend⟩

/-! ## The exact condition -/

/-- A single program. -/
lemma leader_contained_single {pgm : Pgm} (hpgm : cmd.pgm = [pgm]) {fds : FdTable Desc}
    (hslots : Slots fds.entry slot) : Contained (leader cmd fails fds) ↔ FailsSafely cmd fails := by
  obtain ⟨t₂, hslots₂, hleader⟩ := hslots.leader_single cmd fails hpgm
  rw [hleader]
  by_cases hf : fails 0 = true
  · rw [if_pos hf]
    obtain ⟨t, c, _, hopen, hfailed, hpipeline⟩ := hslots₂.pipeline cmd fails rfl hpgm [0]
    -- there is no next program to become
    have hnull : ∀ pipes, pipelineLoop cmd fails [] c pipes = ([⟨c.failed, .segfault⟩], pipes) := by
      intro pipes
      obtain ⟨_, _, hleft⟩ := hopen.leftmost cmd fails []
      rw [pipelineLoop_of_length_le (by simp), hleft]
    constructor
    · intro h
      refine absurd (h.no_null ⟨c.failed, .segfault⟩ ?_) (by simp)
      rw [hpipeline]
      dsimp only
      rw [hnull]
      exact List.mem_append_right _ (List.mem_singleton_self _)
    · intro hsafe
      exact absurd (by simp [hpgm]) (hsafe 0 (by simp [hpgm]) hf).1
  · rw [if_neg hf]
    refine ⟨fun _ k hk hfk => ?_, fun _ => (covers_execd 0 pgm t₂).contained (List.nodup_singleton 0)⟩
    obtain rfl : k = 0 := by simpa [hpgm] using hk
    exact absurd hfk hf

/-- Several programs. -/
lemma leader_contained_several {pgm pgm' : Pgm} {rest : List Pgm} (hpgm : cmd.pgm = pgm :: pgm' :: rest)
    {fds : FdTable Desc} (hslots : Slots fds.entry slot) :
    Contained (leader cmd fails fds) ↔ FailsSafely cmd fails := by
  have hleader : leader cmd fails fds = pipeline cmd fails fds [] := by simp [leader, hpgm]
  obtain ⟨t, c, hentry, hopen, hfailed, hpipeline⟩ := hslots.pipeline cmd fails rfl hpgm []
  have hdrop : cmd.pgm.drop 1 = pgm' :: rest := by rw [hpgm]; rfl
  rw [hleader, hpipeline]
  constructor
  · intro h k hk hf
    have hcontra : ∀ p ∈ (pipelineLoop cmd fails (pgm' :: rest) c
        (if fails 0 then pipelineLoop cmd fails (pgm' :: rest) ⟨t, slot false, [0]⟩ 1
          else ([⟨[], .execd 0 pgm t⟩], 1)).2).1, k ∈ p.failed → p.ending = .exited := fun p hp hkp =>
      (h.terminates p (List.mem_append_right _ hp) k hkp).2
    have hinner : k + 1 ≠ cmd.pgm.length := by
      intro hlast
      obtain ⟨p, hp, hend, _, hmem⟩ := hopen.reaches_leftmost hdrop (by simp)
      obtain rfl : k = cmd.pgm.length - 1 := by omega
      exact hend (hcontra p hp (hmem hf))
    refine ⟨hinner, ?_⟩
    · by_contra hodd
      have hk1 : 1 ≤ k := by omega
      obtain ⟨c', pipes', hstale, hfailed', hsub⟩ :=
        hopen.child_of_failure hdrop hk1 (by omega) hf
      have hk2 : k % 2 = 1 := by omega
      simp only [hk2] at hstale
      have hexits : ∃ p ∈ (pipelineLoop cmd fails (cmd.pgm.drop (k + 1)) c' pipes').1,
          k ∈ p.failed ∧ p.ending ≠ .exited := hstale.not_exited hfailed' (by omega)
      obtain ⟨p, hp, hkp, hend⟩ := hexits
      exact hend (hcontra p (hsub p hp) hkp)
  · intro hsafe
    have hrest : ∀ pipes, Covers (pipelineLoop cmd fails (pgm' :: rest) c pipes).1
        (List.range' 1 (pgm' :: rest).length) := fun pipes => hopen.covers hsafe hdrop (by simp) hfailed
    refine Covers.contained (Covers.append (?_ : Covers _ [0]) (hrest _)) ?_
    · by_cases hf : fails 0 = true
      · rw [if_pos hf]
        refine Child.Stale.covers_lower ⟨?_, hentry, rfl⟩ rfl 1
        have hslots' := hslots.update hslots.stdin (d := some (.readEnd 0)) (by simp)
        exact hslots'.update hslots'.stdout (fileOr_ne_none cmd.rstdout hslots.stdout)
      · rw [if_neg hf]
        exact covers_execd 0 pgm t
    · exact (List.nodup_range' : (List.range' 0 ((pgm' :: rest).length + 1)).Nodup)

/-- Failures of `execvp` are contained exactly when the command is a builtin or the failing stages are safe. -/
theorem exec_failure_contained_iff (sh : Shell) (cmd : Command) (fails : ℕ → Bool) :
    Contained (runCommand cmd fails sh).processes ↔ cmd.isBuiltin = true ∨ FailsSafely cmd fails := by
  obtain ⟨slot, hslots⟩ := Slots.exists sh.fds (sh.std 0 (by omega)) (sh.std 1 (by omega))
  by_cases hb : cmd.isBuiltin = true
  · have hnil : (runCommand cmd fails sh).processes = [] := by simp [runCommand, hb]
    rw [hnil]
    exact ⟨fun _ => Or.inl hb, fun _ => ⟨by simp, by simp, by simp⟩⟩
  · have hleader : (runCommand cmd fails sh).processes = leader cmd fails sh.fds := by
      simp [runCommand, hb]
    rw [hleader, or_iff_right hb]
    cases hpgm : cmd.pgm with
    | nil => exact absurd hpgm cmd.nonempty
    | cons pgm next =>
      cases next with
      | nil => exact leader_contained_single hpgm hslots
      | cons pgm' rest => exact leader_contained_several hpgm hslots

/-- A program that does not exist. -/
def missing : Command where
  pgm := [⟨"abf", []⟩]
  rstdin := none
  rstdout := none
  background := false
  nonempty := by simp

/-- The leader forks a second process for the same program, and then follows a NULL pointer. -/
theorem missing_not_contained :
    (runCommand missing (fun _ => true) terminalShell).processes =
      [⟨[0], .exited⟩, ⟨[0], .segfault⟩] ∧
    ¬Contained (runCommand missing (fun _ => true) terminalShell).processes := by
  have hps : (runCommand missing (fun _ => true) terminalShell).processes =
      [⟨[0], .exited⟩, ⟨[0], .segfault⟩] := rfl
  refine ⟨hps, fun h => ?_⟩
  rw [hps] at h
  exact h.no_null ⟨[0], .segfault⟩ (by simp) rfl

end OsLabs.Lsh
