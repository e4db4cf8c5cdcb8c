import OsLabs.Lib.FdTable

/-!
# Starting a pipeline

The child branch of `main` in `lsh.c`. The shell forks one process, the leader, which starts the stages from
right to left and becomes the leftmost one itself. Processes do not share descriptor tables, so the processes
of a pipeline can be listed without interleaving them: each function below returns the processes that come out
of the process that executes it, with what each of them did.

An `execvp` that fails returns, and the code after it is executed by the same process: this is why `pipelineLoop`
continues in the child as well as in the parent.
-/

namespace OsLabs.Lsh

open Lib Function

/-! ## Commands and processes -/

/-- One program of a command, with `pgmlist[0]` and the arguments after it. -/
structure Pgm where
  command : String
  args : List String
deriving DecidableEq

/-- A parsed command. The programs are in the order of the linked list, the rightmost one first. -/
structure Command where
  pgm : List Pgm
  rstdin : Option String
  rstdout : Option String
  background : Bool
  nonempty : pgm ≠ []

/-- The position of `next_pgm` in the list of programs, counted from the right. -/
def Command.stage (cmd : Command) (nextPgm : List Pgm) : ℕ :=
  cmd.pgm.length - nextPgm.length

/-- What a descriptor refers to. Pipes are numbered in the order of their creation. -/
inductive Desc where
  /-- What the shell's descriptor `fd` refers to. -/
  | inherited (fd : ℕ)
  | file (name : String)
  | readEnd (pipe : ℕ)
  | writeEnd (pipe : ℕ)
deriving DecidableEq

def Desc.isPipe : Desc → Bool
  | .readEnd _ | .writeEnd _ => true
  | _ => false

/-- The descriptors of the shell, among them the three standard ones. -/
structure Shell where
  fds : FdTable Desc
  std : ∀ fd < 3, fds.entry fd ≠ none
  inherited : ∀ fd d, fds.entry fd = some d → d = .inherited fd

/-- How a process that runs the code of the shell ends. -/
inductive Ending where
  /-- It executes the program of a stage, with these descriptors. -/
  | execd (stage : ℕ) (pgm : Pgm) (fds : FdTable Desc)
  /-- `exit (EXIT_FAILURE)`. -/
  | exited
  /-- It follows a NULL `next_pgm`. -/
  | segfault
  /-- It goes on with the main loop of the shell. -/
  | mainLoop

/-- A process of a pipeline: the stages whose `execvp` failed in it, in order, and its end. -/
structure Process where
  failed : List ℕ
  ending : Ending

/-- The state of a process between two statements. -/
structure Child where
  fds : FdTable Desc
  pipefd : ℕ × ℕ
  failed : List ℕ

/-! ## Redirections -/

/-- `redirect_stdout`; it exits when `dup2` fails. A negative `fd[0]` is `none`. -/
def redirectStdout (t : FdTable Desc) (fd : Option ℕ × ℕ) : Option (FdTable Desc) := do
  let t ← t.dup2 fd.2 1
  let t := t.close fd.2
  match fd.1 with
  | none => return t
  | some fd0 => return t.close fd0

/-- `redirect_stdin`. -/
def redirectStdin (t : FdTable Desc) (fd : ℕ × Option ℕ) : Option (FdTable Desc) := do
  let t ← t.dup2 fd.1 0
  let t := t.close fd.1
  match fd.2 with
  | none => return t
  | some fd1 => return t.close fd1

/-- `redirect_stdout_to_file`, when the command has an output file. -/
def redirectStdoutToFile (t : FdTable Desc) : Option String → Option (FdTable Desc)
  | none => some t
  | some file =>
    let (t, outFd) := t.openFd (.file file)
    redirectStdout t (none, outFd)

/-- `redirect_stdin_to_file`, when the command has an input file. -/
def redirectStdinToFile (t : FdTable Desc) : Option String → Option (FdTable Desc)
  | none => some t
  | some file =>
    let (t, inFd) := t.openFd (.file file)
    redirectStdin t (inFd, none)

/-! ## The child branch -/

variable (cmd : Command) (fails : ℕ → Bool)

/-- The statements after the loop: the process becomes the leftmost stage. -/
def leftmost (nextPgm : List Pgm) (c : Child) : Process :=
  let fds := do
    let t ← redirectStdinToFile c.fds cmd.rstdin
    redirectStdout t (some c.pipefd.1, c.pipefd.2)
  match fds with
  | none => ⟨c.failed, .exited⟩
  | some t =>
    match nextPgm with
    | [] => ⟨c.failed, .segfault⟩
    | pgm :: _ =>
      let stage := cmd.stage nextPgm
      if fails stage then ⟨c.failed ++ [stage], .mainLoop⟩ else ⟨c.failed, .execd stage pgm t⟩

/-- The loop over the inner stages and what follows it. `pipes` is the number of pipes so far, and `fails` tells
for which stages `execvp` fails. -/
def pipelineLoop : List Pgm → Child → ℕ → List Process × ℕ
  | pgm :: next :: rest, c, pipes =>
    let stage := cmd.stage (pgm :: next :: rest)
    let previous := c.pipefd
    let (fds, pipefd) := c.fds.pipe (.readEnd pipes) (.writeEnd pipes)
    let redirected := do
      let t ← redirectStdout fds (some previous.1, previous.2)
      redirectStdin t (pipefd.1, some pipefd.2)
    let (child, pipes') :=
      match redirected with
      | none => ([⟨[], .exited⟩], pipes + 1)
      | some t =>
        if fails stage then pipelineLoop (next :: rest) ⟨t, pipefd, [stage]⟩ (pipes + 1)
        else ([⟨[], .execd stage pgm t⟩], pipes + 1)
    let (parent, pipes'') :=
      pipelineLoop (next :: rest) ⟨(fds.close previous.1).close previous.2, pipefd, c.failed⟩ pipes'
    (child ++ parent, pipes'')
  | nextPgm, c, pipes => ([leftmost cmd fails nextPgm c], pipes)

/-- The statements from the first `pipe` on: the rightmost stage is started, and the process enters the loop. -/
def pipeline (fds : FdTable Desc) (failed : List ℕ) : List Process :=
  let stage := cmd.stage cmd.pgm
  let (fds, pipefd) := fds.pipe (.readEnd 0) (.writeEnd 0)
  let redirected := do
    let t ← redirectStdin fds (pipefd.1, some pipefd.2)
    redirectStdoutToFile t cmd.rstdout
  let (child, pipes) :=
    match redirected with
    | none => ([⟨[], .exited⟩], 1)
    | some t =>
      match cmd.pgm with
      | [] => ([⟨[], .segfault⟩], 1)
      | pgm :: rest =>
        if fails stage then pipelineLoop cmd fails rest ⟨t, pipefd, [stage]⟩ 1
        else ([⟨[], .execd stage pgm t⟩], 1)
  child ++ (pipelineLoop cmd fails cmd.pgm.tail ⟨fds, pipefd, failed⟩ pipes).1

/-- The leader: a single program is executed at once. -/
def leader (fds : FdTable Desc) : List Process :=
  match cmd.pgm with
  | [pgm] =>
    let redirected := do
      let t ← redirectStdoutToFile fds cmd.rstdout
      redirectStdinToFile t cmd.rstdin
    match redirected with
    | none => [⟨[], .exited⟩]
    | some t =>
      let stage := cmd.stage [pgm]
      if fails stage then pipeline cmd fails t [stage] else [⟨[], .execd stage pgm t⟩]
  | _ => pipeline cmd fails fds []

/-- `is_builtin_command`. -/
def isBuiltinCommand (command : String) : Bool :=
  command = "cd" || command = "exit"

/-- The command is executed by the shell itself. -/
def Command.isBuiltin (cmd : Command) : Bool :=
  match cmd.pgm with
  | [pgm] => isBuiltinCommand pgm.command
  | _ => false

lemma Command.single_of_isBuiltin (cmd : Command) (h : cmd.isBuiltin = true) : ∃ pgm, cmd.pgm = [pgm] := by
  unfold Command.isBuiltin at h
  split at h
  · rename_i pgm hpgm
    exact ⟨pgm, hpgm⟩
  · cases h

/-- What a command leaves: the descriptors of the shell, and the processes of the command. -/
structure Launch where
  shell : FdTable Desc
  processes : List Process

/-- One command line: a builtin runs in the shell, everything else is forked. -/
def runCommand (sh : Shell) : Launch :=
  if cmd.isBuiltin then ⟨sh.fds, []⟩ else ⟨sh.fds, leader cmd fails sh.fds⟩

/-! ## What the redirections do -/

/-- The file if there is one, and what was there before otherwise. -/
def fileOr (file : Option String) (d : Option Desc) : Option Desc :=
  match file with
  | none => d
  | some name => some (.file name)

lemma fileOr_ne_none (file : Option String) {d : Option Desc} (h : d ≠ none) : fileOr file d ≠ none := by
  cases file with
  | none => exact h
  | some name => simp [fileOr]

variable {t : FdTable Desc} {e : ℕ → Option Desc} {slot : Bool → ℕ × ℕ} {b : Bool} {c : Child}

/-- The ends of a pipe that was installed on free descriptors are moved: one to the standard descriptor, both closed. -/
lemma redirectStdout_pipe {p : ℕ × ℕ} {r w : Desc} (ht : t.entry = FdTable.withPipe e p r w)
    (hfree : e p.1 = none ∧ e p.2 = none) (hstd : e 1 ≠ none) :
    ∃ t', redirectStdout t (some p.1, p.2) = some t' ∧ t'.entry = update e 1 (some w) := by
  have hw : t.entry p.2 = some w := by simp [ht, FdTable.withPipe]
  refine ⟨((t.set 1 w).close p.2).close p.1, by simp [redirectStdout, FdTable.dup2, hw], ?_⟩
  funext fd
  simp only [FdTable.close_entry, FdTable.set_entry, ht]
  grind

lemma redirectStdin_pipe {p : ℕ × ℕ} {r w : Desc} (ht : t.entry = FdTable.withPipe e p r w) (hp : p.1 ≠ p.2)
    (hfree : e p.1 = none ∧ e p.2 = none) (hstd : e 0 ≠ none) :
    ∃ t', redirectStdin t (p.1, some p.2) = some t' ∧ t'.entry = update e 0 (some r) := by
  have hr : t.entry p.1 = some r := by simp [ht, FdTable.withPipe, hp]
  refine ⟨((t.set 0 r).close p.1).close p.2, by simp [redirectStdin, FdTable.dup2, hr], ?_⟩
  funext fd
  simp only [FdTable.close_entry, FdTable.set_entry, ht]
  grind

/-- `dup2` from a closed descriptor fails, and the process exits. -/
lemma redirectStdout_closed {fd : Option ℕ × ℕ} (h : t.entry fd.2 = none) : redirectStdout t fd = none := by
  simp [redirectStdout, FdTable.dup2, h]

lemma redirectStdin_closed {fd : ℕ × Option ℕ} (h : t.entry fd.1 = none) : redirectStdin t fd = none := by
  simp [redirectStdin, FdTable.dup2, h]

/-- The file is opened, put at `k` and closed. -/
lemma entry_open_dup_close {k : ℕ} (h : t.entry k ≠ none) (d : Desc) :
    (((t.set t.lowestFree d).set k d).close t.lowestFree).entry = update t.entry k (some d) := by
  have hfree := t.lowestFree_spec.1
  funext fd
  simp only [FdTable.close_entry, FdTable.set_entry]
  grind

lemma redirectStdoutToFile_eq (h : t.entry 1 ≠ none) (file : Option String) :
    ∃ t', redirectStdoutToFile t file = some t' ∧
      t'.entry = update t.entry 1 (fileOr file (t.entry 1)) := by
  cases file with
  | none => exact ⟨t, rfl, by simp [fileOr]⟩
  | some name =>
    exact ⟨_, by simp [redirectStdoutToFile, FdTable.openFd, redirectStdout, FdTable.dup2], entry_open_dup_close h _⟩

lemma redirectStdinToFile_eq (h : t.entry 0 ≠ none) (file : Option String) :
    ∃ t', redirectStdinToFile t file = some t' ∧
      t'.entry = update t.entry 0 (fileOr file (t.entry 0)) := by
  cases file with
  | none => exact ⟨t, rfl, by simp [fileOr]⟩
  | some name =>
    exact ⟨_, by simp [redirectStdinToFile, FdTable.openFd, redirectStdin, FdTable.dup2], entry_open_dup_close h _⟩

/-! ## The descriptors of the pipes -/

/-- The four lowest free descriptors of the entries `e`, in two pairs: the pipes of a pipeline alternate
between them. -/
structure Slots (e : ℕ → Option Desc) (slot : Bool → ℕ × ℕ) : Prop where
  stdin : e 0 ≠ none
  stdout : e 1 ≠ none
  free : ∀ b, e (slot b).1 = none ∧ e (slot b).2 = none
  lt : ∀ b, (slot b).1 < (slot b).2
  order : (slot false).2 < (slot true).1
  lowest : ∀ fd < (slot true).2, e fd = none →
    fd = (slot false).1 ∨ fd = (slot false).2 ∨ fd = (slot true).1

/-- The slots of any table in which the standard descriptors are open. -/
lemma Slots.exists (t : FdTable Desc) (h0 : t.entry 0 ≠ none) (h1 : t.entry 1 ≠ none) :
    ∃ slot, Slots t.entry slot := by
  obtain ⟨a, ha⟩ : ∃ a, a = t.lowestFree := ⟨_, rfl⟩
  obtain ⟨b, hb⟩ : ∃ b, b = (t.set a (.inherited 0)).lowestFree := ⟨_, rfl⟩
  obtain ⟨c, hc⟩ : ∃ c, c = ((t.set a (.inherited 0)).set b (.inherited 0)).lowestFree := ⟨_, rfl⟩
  obtain ⟨d, hd⟩ : ∃ d, d = (((t.set a (.inherited 0)).set b (.inherited 0)).set c
    (.inherited 0)).lowestFree := ⟨_, rfl⟩
  have hspec1 := t.lowestFree_spec
  have hspec2 := (t.set a (.inherited 0)).lowestFree_spec
  have hspec3 := ((t.set a (.inherited 0)).set b (.inherited 0)).lowestFree_spec
  have hspec4 := (((t.set a (.inherited 0)).set b (.inherited 0)).set c (.inherited 0)).lowestFree_spec
  rw [← hc] at hspec3
  rw [← hd] at hspec4
  simp only [FdTable.set_entry] at hspec2 hspec3 hspec4
  refine ⟨fun s => if s then (c, d) else (a, b), h0, h1, ?_, ?_, ?_, ?_⟩
  · grind
  · grind
  · grind
  · grind

/-- Redirecting an open descriptor does not change which are free. -/
lemma Slots.update (h : Slots e slot) {fd : ℕ} (hfd : e fd ≠ none) {d : Option Desc} (hd : d ≠ none) :
    Slots (Function.update e fd d) slot := by
  have hsame : ∀ x, Function.update e fd d x = none ↔ e x = none := by
    intro x
    by_cases hx : x = fd
    · simp [hx, hfd, hd]
    · simp [hx]
  obtain ⟨hin, hout, hfree, hlt, horder, hlowest⟩ := h
  refine ⟨by simpa [hsame] using hin, by simpa [hsame] using hout, ?_, hlt, horder, ?_⟩
  · simpa only [hsame] using hfree
  · simpa only [hsame] using hlowest

/-- The first pipe. -/
lemma Slots.pipe (h : Slots t.entry slot) (r w : Desc) :
    ∃ t', t.pipe r w = (t', slot false) ∧ t'.entry = FdTable.withPipe t.entry (slot false) r w := by
  obtain ⟨_, _, hfree, hlt, horder, hlowest⟩ := h
  have htrue := hlt true
  obtain ⟨h2, h1⟩ := FdTable.pipe_eq (hlt false) (hfree false).1 (hfree false).2
    (fun fd hfd hne hnone => by
      rcases hlowest fd (by omega) hnone with rfl | rfl | rfl <;> omega) r w
  exact ⟨_, Prod.ext rfl h2, h1⟩

/-- While one pair is taken, a new pipe gets the other one. -/
lemma Slots.pipe_other (h : Slots e slot) {r₀ w₀ : Desc} (ht : t.entry = FdTable.withPipe e (slot b) r₀ w₀)
    (r w : Desc) :
    ∃ t', t.pipe r w = (t', slot !b) ∧
      t'.entry = FdTable.withPipe t.entry (slot !b) r w := by
  obtain ⟨_, _, hfree, hlt, horder, hlowest⟩ := h
  have hpipe : (t.pipe r w).2 = ((slot !b).1, (slot !b).2) ∧
      (t.pipe r w).1.entry = FdTable.withPipe t.entry ((slot !b).1, (slot !b).2) r w := by
    apply FdTable.pipe_eq (hlt !b)
    · rw [ht]
      cases b <;> grind [update]
    · rw [ht]
      cases b <;> grind [update]
    · intro fd hfd hne hnone
      rw [ht] at hnone
      cases b <;> grind [update]
  exact ⟨_, Prod.ext rfl hpipe.1, hpipe.2⟩

/-- The process holds both ends of the pipe in `pipefd`, and otherwise the entries `e`. -/
structure Child.Open (c : Child) (e : ℕ → Option Desc) (slot : Bool → ℕ × ℕ) (b : Bool) (pipe : ℕ) :
    Prop where
  slots : Slots e slot
  fds : c.fds.entry = FdTable.withPipe e (slot b) (.readEnd pipe) (.writeEnd pipe)
  pipefd : c.pipefd = slot b

/-- The descriptors in `pipefd` are closed. -/
structure Child.Stale (c : Child) (e : ℕ → Option Desc) (slot : Bool → ℕ × ℕ) (b : Bool) : Prop where
  slots : Slots e slot
  fds : c.fds.entry = e
  pipefd : c.pipefd = slot b

/-- The leftmost stage writes to the pipe. -/
lemma Child.Open.leftmost {pipe : ℕ} (h : c.Open e slot b pipe) (nextPgm : List Pgm) :
    ∃ t : FdTable Desc, t.entry = update (update e 0 (fileOr cmd.rstdin (e 0))) 1
        (some (.writeEnd pipe)) ∧
      Lsh.leftmost cmd fails nextPgm c =
        match nextPgm with
        | [] => ⟨c.failed, .segfault⟩
        | pgm :: _ =>
          if fails (cmd.stage nextPgm) then ⟨c.failed ++ [cmd.stage nextPgm], .mainLoop⟩
          else ⟨c.failed, .execd (cmd.stage nextPgm) pgm t⟩ := by
  obtain ⟨hslots, hfds, hpipefd⟩ := h
  have hfree := hslots.free b
  have h0 : c.fds.entry 0 = e 0 := by
    have hin := hslots.stdin
    rw [hfds]
    grind
  obtain ⟨t, ht, hentry⟩ := redirectStdinToFile_eq (by rw [h0]; exact hslots.stdin) cmd.rstdin
  have hentry' : t.entry = FdTable.withPipe (update e 0 (fileOr cmd.rstdin (e 0))) (slot b)
      (.readEnd pipe) (.writeEnd pipe) := by
    have hin := hslots.stdin
    rw [hentry, hfds]
    funext fd
    grind
  have hslots' := hslots.update hslots.stdin (fileOr_ne_none cmd.rstdin hslots.stdin)
  obtain ⟨t', ht', hentry''⟩ := redirectStdout_pipe hentry' (hslots'.free b) hslots'.stdout
  refine ⟨t', hentry'', ?_⟩
  simp only [Lsh.leftmost, ht, hpipefd]
  simp only [Option.bind_eq_bind, Option.bind_some, ht']

/-- The leftmost stage cannot be reached when `pipefd` is closed. -/
lemma Child.Stale.leftmost (h : c.Stale e slot b) (nextPgm : List Pgm) :
    Lsh.leftmost cmd fails nextPgm c = ⟨c.failed, .exited⟩ := by
  obtain ⟨hslots, hfds, hpipefd⟩ := h
  obtain ⟨t, ht, hentry⟩ := redirectStdinToFile_eq (by rw [hfds]; exact hslots.stdin) cmd.rstdin
  have hclosed : t.entry (slot b).2 = none := by
    have hfree := (hslots.free b).2
    have hin := hslots.stdin
    rw [hentry]
    grind
  have hexit : redirectStdout t (some (slot b).1, (slot b).2) = none := redirectStdout_closed hclosed
  simp only [Lsh.leftmost, ht, hpipefd, Option.bind_eq_bind, Option.bind_some, hexit]

/-- One turn of the loop with the previous pipe open: the child is the stage between the two pipes, and the
parent goes on with the new one. -/
lemma Child.Open.pipelineLoop {pipe : ℕ} (h : c.Open e slot b pipe) (pgm next : Pgm) (rest : List Pgm)
    (pipes : ℕ) :
    ∃ (t : FdTable Desc) (c' : Child),
      t.entry = update (update e 1 (some (.writeEnd pipe))) 0
        (some (.readEnd pipes)) ∧
      c'.Open e slot (!b) pipes ∧ c'.failed = c.failed ∧
      Lsh.pipelineLoop cmd fails (pgm :: next :: rest) c pipes =
        let stage := cmd.stage (pgm :: next :: rest)
        let child :=
          if fails stage then Lsh.pipelineLoop cmd fails (next :: rest) ⟨t, slot !b, [stage]⟩ (pipes + 1)
          else ([⟨[], .execd stage pgm t⟩], pipes + 1)
        let parent := Lsh.pipelineLoop cmd fails (next :: rest) c' child.2
        (child.1 ++ parent.1, parent.2) := by
  obtain ⟨hslots, hfds, hpipefd⟩ := h
  have hfree := hslots.free b
  have hfree' := hslots.free !b
  have hlt := hslots.lt b
  have hlt' := hslots.lt !b
  have horder := hslots.order
  obtain ⟨fds, hpipe, hentry⟩ := hslots.pipe_other hfds (.readEnd pipes) (.writeEnd pipes)
  rw [hfds] at hentry
  -- the two pipes are on different descriptors
  have hswap : fds.entry = FdTable.withPipe (FdTable.withPipe e (slot !b) (.readEnd pipes)
      (.writeEnd pipes)) (slot b) (.readEnd pipe) (.writeEnd pipe) := by
    rw [hentry]
    funext fd
    cases b <;> grind
  have hslots1 := hslots.update hslots.stdout (d := some (.writeEnd pipe)) (by simp)
  have hout := hslots.stdout
  obtain ⟨t₁, ht₁, hentry₁⟩ := redirectStdout_pipe hswap (by cases b <;> grind) (by grind)
  have hentry₁' : t₁.entry = FdTable.withPipe (update e 1 (some (.writeEnd pipe))) (slot !b)
      (.readEnd pipes) (.writeEnd pipes) := by
    rw [hentry₁]
    funext fd
    grind
  obtain ⟨t₂, ht₂, hentry₂⟩ := redirectStdin_pipe hentry₁' (by omega) (hslots1.free !b) hslots1.stdin
  refine ⟨t₂, ⟨(fds.close (slot b).1).close (slot b).2, slot !b, c.failed⟩, hentry₂,
    ⟨hslots, ?_, rfl⟩, rfl, ?_⟩
  · simp only [FdTable.close_entry, hswap]
    funext fd
    cases b <;> grind [update]
  · rw [Lsh.pipelineLoop]
    simp only [hpipe, hpipefd, Option.bind_eq_bind, ht₁, Option.bind_some, ht₂]

/-- One turn of the loop after a failed `execvp`, when `pipefd` is the lower pair: the new pipe gets the same
descriptors, and the child closes them before it reads from them. -/
lemma Child.Stale.pipelineLoop_lower (h : c.Stale e slot false) (pgm next : Pgm) (rest : List Pgm) (pipes : ℕ) :
    ∃ c' : Child, c'.Stale e slot false ∧ c'.failed = c.failed ∧
      (Lsh.pipelineLoop cmd fails (pgm :: next :: rest) c pipes).1 =
        ⟨[], .exited⟩ :: (Lsh.pipelineLoop cmd fails (next :: rest) c' (pipes + 1)).1 := by
  obtain ⟨hslots, hfds, hpipefd⟩ := h
  have hfree := hslots.free false
  have hslots' : Slots c.fds.entry slot := by
    rw [hfds]
    exact hslots
  obtain ⟨fds, hpipe, hentry⟩ := hslots'.pipe (.readEnd pipes) (.writeEnd pipes)
  rw [hfds] at hentry
  obtain ⟨t₁, ht₁, hentry₁⟩ := redirectStdout_pipe hentry hfree hslots.stdout
  have hclosed : t₁.entry (slot false).1 = none := by
    have hout := hslots.stdout
    rw [hentry₁]
    grind
  have hexit : redirectStdin t₁ ((slot false).1, some (slot false).2) = none := redirectStdin_closed hclosed
  refine ⟨⟨(fds.close (slot false).1).close (slot false).2, slot false, c.failed⟩,
    ⟨hslots, ?_, rfl⟩, rfl, ?_⟩
  · simp only [FdTable.close_entry, hentry]
    funext fd
    grind
  · rw [Lsh.pipelineLoop]
    simp only [hpipe, hpipefd, Option.bind_eq_bind, ht₁, Option.bind_some, hexit, List.cons_append,
      List.nil_append]

/-- The same when `pipefd` is the upper pair: the new pipe gets the lower one, and from then on the process
builds the rest of the pipeline a second time. -/
lemma Child.Stale.pipelineLoop_upper (h : c.Stale e slot true) (pgm next : Pgm) (rest : List Pgm) (pipes : ℕ) :
    ∃ c' : Child, c'.Open e slot false pipes ∧ c'.failed = c.failed ∧
      (Lsh.pipelineLoop cmd fails (pgm :: next :: rest) c pipes).1 =
        ⟨[], .exited⟩ :: (Lsh.pipelineLoop cmd fails (next :: rest) c' (pipes + 1)).1 := by
  obtain ⟨hslots, hfds, hpipefd⟩ := h
  have hfree' := hslots.free true
  have hlt := hslots.lt false
  have hlt' := hslots.lt true
  have horder := hslots.order
  have hslots' : Slots c.fds.entry slot := by
    rw [hfds]
    exact hslots
  obtain ⟨fds, hpipe, hentry⟩ := hslots'.pipe (.readEnd pipes) (.writeEnd pipes)
  have hclosed : fds.entry (slot true).2 = none := by
    rw [hentry]
    grind
  have hexit : redirectStdout fds (some (slot true).1, (slot true).2) = none :=
    redirectStdout_closed hclosed
  refine ⟨⟨(fds.close (slot true).1).close (slot true).2, slot false, c.failed⟩,
    ⟨hslots, ?_, rfl⟩, rfl, ?_⟩
  · simp only [FdTable.close_entry, hentry]
    funext fd
    grind
  · rw [Lsh.pipelineLoop]
    simp only [hpipe, hpipefd, Option.bind_eq_bind, Option.bind_none, hexit, List.cons_append,
      List.nil_append]

/-- The rightmost stage reads from the first pipe, and the leader enters the loop with it. -/
lemma Slots.pipeline (hslots : Slots e slot) {fds : FdTable Desc} (hfds : fds.entry = e) {pgm : Pgm}
    {rest : List Pgm} (hpgm : cmd.pgm = pgm :: rest) (failed : List ℕ) :
    ∃ (t : FdTable Desc) (c : Child),
      t.entry = Function.update (Function.update e 0 (some (.readEnd 0))) 1
        (fileOr cmd.rstdout (e 1)) ∧
      c.Open e slot false 0 ∧ c.failed = failed ∧
      Lsh.pipeline cmd fails fds failed =
        let child :=
          if fails 0 then pipelineLoop cmd fails rest ⟨t, slot false, [0]⟩ 1
          else ([⟨[], .execd 0 pgm t⟩], 1)
        child.1 ++ (pipelineLoop cmd fails rest c child.2).1 := by
  have hslots' : Slots fds.entry slot := by
    rw [hfds]
    exact hslots
  have hstage : cmd.stage (pgm :: rest) = 0 := by simp [Command.stage, hpgm]
  obtain ⟨fds', hpipe, hentry⟩ := hslots'.pipe (.readEnd 0) (.writeEnd 0)
  rw [hfds] at hentry
  have hlt := hslots.lt false
  obtain ⟨t₁, ht₁, hentry₁⟩ := redirectStdin_pipe hentry (by omega) (hslots.free false) hslots.stdin
  have h1 : t₁.entry 1 = e 1 := by simp [hentry₁]
  obtain ⟨t₂, ht₂, hentry₂⟩ := redirectStdoutToFile_eq (by rw [h1]; exact hslots.stdout) cmd.rstdout
  refine ⟨t₂, ⟨fds', slot false, failed⟩, ?_, ⟨hslots, hentry, rfl⟩, rfl, ?_⟩
  · rw [hentry₂, h1, hentry₁]
  · simp only [Lsh.pipeline, hpipe, hstage, Option.bind_eq_bind, ht₁, Option.bind_some, ht₂, hpgm,
      List.tail_cons]

/-- A single program: the leader executes it or falls through to the code for pipelines. -/
lemma Slots.leader_single {fds : FdTable Desc} (hslots : Slots fds.entry slot) {pgm : Pgm}
    (hpgm : cmd.pgm = [pgm]) :
    ∃ t : FdTable Desc, Slots t.entry slot ∧ leader cmd fails fds =
      if fails 0 then Lsh.pipeline cmd fails t [0] else [⟨[], .execd 0 pgm t⟩] := by
  obtain ⟨t₁, ht₁, hentry₁⟩ := redirectStdoutToFile_eq hslots.stdout cmd.rstdout
  have hslots₁ : Slots t₁.entry slot := by
    rw [hentry₁]
    exact hslots.update hslots.stdout (fileOr_ne_none cmd.rstdout hslots.stdout)
  obtain ⟨t₂, ht₂, hentry₂⟩ := redirectStdinToFile_eq hslots₁.stdin cmd.rstdin
  refine ⟨t₂, ?_, ?_⟩
  · rw [hentry₂]
    exact hslots₁.update hslots₁.stdin (fileOr_ne_none cmd.rstdin hslots₁.stdin)
  · have hstage : cmd.stage [pgm] = 0 := by simp [Command.stage, hpgm]
    simp only [leader, hpgm, Option.bind_eq_bind, ht₁, Option.bind_some, ht₂, hstage]

end OsLabs.Lsh
