import OsLabs.Devices.Intq

/-!
# Interrupt queues deliver bytes in order

A thread can be blocked in `intq_getc` or `intq_putc` while others make any number of calls. In each step one call returns
at most, and the buffer changes exactly in the steps in which one does (`Intq.step_ring`): a thread that goes on after it was
blocked tests the buffer again.

So over a whole run, the bytes that were returned followed by those in the buffer are the bytes that were put
(`intq_fifo`). The runs are those in which no assertion fails; nothing is assumed about who waits.
-/

namespace OsLabs.Devices

open Lib Threads

variable {T : Type} [DecidableEq T]

/-! ## The calls that return -/

/-- The call that a step goes on with: by a thread, or by an interrupt handler. -/
def Intq.callOf (q : Intq T) : IntqAction T → Option (Option T × QueueOp)
  | .call t op => some (some t, op)
  | .resume t =>
    match q.pc t with
    | .awakened op | .woken op => some (some t, op)
    | _ => none
  | .handler op => some (none, op)

/-- The call that returns in a step. A handler's call returns in the step in which it is made. -/
def Intq.returning (q : Intq T) (a : IntqAction T) : Option QueueOp :=
  match q.callOf a, intqExec q a with
  | some (some t, op), .ok q' => if q'.pc t = .outside then some op else none
  | some (none, op), .ok _ => some op
  | _, _ => none

/-- The byte that `intq_getc` returns in a step, the one at the tail. -/
def byteReturned (p : Intq T × IntqAction T) : Option UInt8 :=
  match p.1.returning p.2 with
  | some .getc => some p.1.ring.front
  | _ => none

/-- The byte of the call of `intq_putc` that is completed in a step. -/
def bytePut (p : Intq T × IntqAction T) : Option UInt8 :=
  match p.1.returning p.2 with
  | some (.putc byte) => some byte
  | _ => none

/-! ## One step -/

/-- What a step does to the buffer. -/
lemma Intq.step_ring {q q' : Intq T} {a : IntqAction T} (h : intqExec q a = .ok q') :
    q.returning a = none ∧ q'.ring = q.ring ∨
      ∃ op, q.returning a = some op ∧ q.Holds op.needs ∧ q'.ring = op.apply q.ring := by
  -- a thread that goes on with a call
  have hthread (t : T) (op : QueueOp) (hcall : q.callOf a = some (some t, op)) (hmoves : Moves q t op q') :
      q.returning a = none ∧ q'.ring = q.ring ∨
        ∃ op, q.returning a = some op ∧ q.Holds op.needs ∧ q'.ring = op.apply q.ring := by
    have hreturning : q.returning a = if q'.pc t = .outside then some op else none := by
      rw [Intq.returning, hcall, h]
    rcases hmoves with ⟨hholds, hring, hpc⟩ | ⟨hring, hpc⟩
    · exact Or.inr ⟨op, by rw [hreturning, if_pos hpc], hholds, hring⟩
    · exact Or.inl ⟨by rw [hreturning, if_neg hpc], hring⟩
  cases a with
  | call t op => exact hthread t op rfl ((call_moves q t op).of_eq_ok h)
  | resume t =>
    cases hpc : q.pc t with
    | awakened op => exact hthread t op (by rw [Intq.callOf, hpc]) ((resume_moves (Or.inl hpc)).of_eq_ok h)
    | woken op => exact hthread t op (by rw [Intq.callOf, hpc]) ((resume_moves (Or.inr hpc)).of_eq_ok h)
    | outside | queued | waiting =>
      rw [intqExec, hpc] at h
      cases h
  | handler op =>
    obtain ⟨hholds, hring⟩ := (handler_ring q op).of_eq_ok h
    exact Or.inr ⟨op, by rw [Intq.returning, Intq.callOf, h], hholds, hring⟩

/-- In one step, a byte that is returned leaves the buffer at its front and one that is put enters it at its end. -/
lemma Intq.step_fifo {q q' : Intq T} {a : IntqAction T} (h : intqExec q a = .ok q') :
    q.ring.contents ++ (bytePut (q, a)).toList = (byteReturned (q, a)).toList ++ q'.ring.contents := by
  unfold bytePut byteReturned
  dsimp only
  rcases Intq.step_ring h with ⟨hreturning, hring⟩ | ⟨op, hreturning, hholds, hring⟩
  · rw [hreturning, hring]
    exact List.append_nil _
  · rw [hreturning, hring]
    cases op with
    | getc =>
      show q.ring.contents ++ [] = q.ring.front :: q.ring.pop.contents
      rw [List.append_nil, Ring.contents_pop hholds]
    | putc byte =>
      show q.ring.contents ++ [byte] = (q.ring.push byte).contents
      rw [Ring.contents_push hholds]

/-! ## Runs -/

/-- In every run, the bytes returned by `intq_getc` followed by the bytes in the buffer are the bytes passed to completed calls
of `intq_putc`. The buffer holds 63 bytes at most, and its positions stay below 64. -/
theorem intq_fifo {buf : ℕ → UInt8} {actions : List (IntqAction T)} {q : Intq T}
    (h : intqMachine.run (intqInit buf) actions = some q) :
    (intqMachine.history (intqInit buf) actions).filterMap byteReturned ++ q.ring.contents =
        (intqMachine.history (intqInit buf) actions).filterMap bytePut ∧
      q.ring.contents.length ≤ 63 ∧ q.ring.head < 64 ∧ q.ring.tail < 64 := by
  refine ⟨?_, ?_, q.ring.head_lt, q.ring.tail_lt⟩
  · refine intqMachine.run_induction ?_ ?_ h
    · exact intqInit_contents buf
    · intro actions r a q hrun hfifo hstep
      rw [intqMachine.filterMap_history_snoc hrun, intqMachine.filterMap_history_snoc hrun, ← hfifo, List.append_assoc,
        List.append_assoc, Intq.step_fifo (Machine.ofExec_step.mp hstep)]
  · rw [Ring.length_contents]
    have := q.ring.length_lt
    omega

/-- A thread that waits for a byte and gets it, while an interrupt handler puts two. -/
def twoBytes : List (IntqAction Bool) :=
  [.call false .getc, .handler (.putc 65), .handler (.putc 66), .resume false]

theorem intq_fifo_twoBytes :
    ∃ q : Intq Bool, intqMachine.run (intqInit fun _ => 0) twoBytes = some q ∧ [65] ++ q.ring.contents = [65, 66] := by
  obtain ⟨q, hrun⟩ : ∃ q : Intq Bool, intqMachine.run (intqInit fun _ => 0) twoBytes = some q := ⟨_, rfl⟩
  exact ⟨q, hrun, (intq_fifo hrun).1⟩

end OsLabs.Devices
