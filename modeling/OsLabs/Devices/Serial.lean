import OsLabs.Devices.Intq

/-!
# The serial port

`devices/serial.c` and `devices/input.c` on the queues of `intq.c`. A byte that `serial_putc` accepts goes to the transmit
register by polling, or into `txq` and from there to the register: by the interrupt handler, by `serial_flush`, or by a
`serial_putc` with interrupts off that finds the queue full.

The code runs with interrupts off, so again a step goes up to the point where a thread blocks or returns. How often the
port is ready and what it has received is in the action.

Two facts are kept by every step. What was sent followed by what is queued is what was accepted (`SerialInv.fifo`). And
whenever interrupts can be on, the interrupts that the queues need are enabled (`Enabled`), once `serial_init_queue` has
returned.
-/

namespace OsLabs.Devices

open Lib Threads

/-! ## The code -/

/-- The modes of the port. -/
inductive Mode where
  | uninit
  | poll
  | queue
deriving DecidableEq

/-- The port, with the two bits of the interrupt enable register and the bytes written to the transmit register. -/
structure Serial (T : Type) where
  mode : Mode
  txq : Intq T
  /-- The input buffer. -/
  buffer : Intq T
  ierXmit : Bool
  ierRecv : Bool
  thr : List UInt8
  /-- The bytes that calls of `serial_putc` have polled out or queued, in this order. -/
  accepted : List UInt8
  /-- `serial_init_queue` has returned. -/
  initialized : Bool

variable {T : Type} [DecidableEq T]

/-- `init_poll`. -/
def initPoll (s : Serial T) : Serial T :=
  { s with
    mode := .poll, ierXmit := false, ierRecv := false,
    txq := { intqInit s.txq.ring.buf with pc := s.txq.pc } }

/-- `write_ier`. -/
def writeIer (s : Serial T) : Serial T :=
  { s with ierXmit := ¬s.txq.ring.Empty, ierRecv := ¬s.buffer.ring.Full }

/-- `serial_notify`. -/
def serialNotify (s : Serial T) : Serial T :=
  if s.mode = .queue then writeIer s else s

/-- `putc_poll`, once the port is ready. -/
def putcPoll (s : Serial T) (byte : UInt8) : Serial T :=
  { s with thr := s.thr ++ [byte] }

/-- `putc_poll (intq_getc (&txq))`, for a queue that is not empty. -/
def sendNext (s : Serial T) : Except (Halt IntqAssert) (Serial T) := do
  let byte := s.txq.ring.front
  let txq ← intqExec s.txq (.handler .getc)
  return putcPoll { s with txq } byte

/-- The end of `serial_putc`, after `intq_putc`. -/
def putcDone (s : Serial T) (byte : UInt8) : Serial T :=
  writeIer { s with accepted := s.accepted ++ [byte] }

/-- With interrupts off, `serial_putc` sends a byte of a full queue by polling. -/
def makeRoom (s : Serial T) : Except (Halt IntqAssert) (Serial T) :=
  if s.txq.ring.Full then sendNext s else .ok s

/-- `serial_putc` in queued mode with interrupts off, where it never waits. -/
def putcOff (s : Serial T) (byte : UInt8) : Except (Halt IntqAssert) (Serial T) := do
  let s ← makeRoom s
  let txq ← intqExec s.txq (.handler (.putc byte))
  return putcDone { s with txq } byte

/-- `intq_putc` on `txq` by a thread, and the end of `serial_putc` if it has returned. -/
def putcStep (s : Serial T) (t : T) (byte : UInt8) (a : IntqAction T) : Except (Halt IntqAssert) (Serial T) := do
  let txq ← intqExec s.txq a
  return if txq.pc t = .outside then putcDone { s with txq } byte else { s with txq }

/-- `serial_putc`, by a thread with interrupts on or by anyone with interrupts off. -/
def serialPutc (s : Serial T) (caller : Option T) (byte : UInt8) : Except (Halt IntqAssert) (Serial T) :=
  if s.mode ≠ .queue then
    let s := if s.mode = .uninit then initPoll s else s
    .ok { putcPoll s byte with accepted := s.accepted ++ [byte] }
  else
    match caller with
    | none => putcOff s byte
    | some t => putcStep s t byte (.call t (.putc byte))

/-- The loop of `serial_flush`, and that of `serial_interrupt` while the port is ready for `n` bytes. -/
def drain : ℕ → Serial T → Except (Halt IntqAssert) (Serial T)
  | 0, s => .ok s
  | n + 1, s =>
    if s.txq.ring.Empty then .ok s
    else do
      let s ← sendNext s
      drain n s

/-- `serial_flush`: the queue bounds the number of rounds. -/
def serialFlush (s : Serial T) : Except (Halt IntqAssert) (Serial T) :=
  drain s.txq.ring.length s

/-- `input_putc`, for a buffer that is not full. -/
def inputPutc (s : Serial T) (key : UInt8) : Except (Halt IntqAssert) (Serial T) := do
  let buffer ← intqExec s.buffer (.handler (.putc key))
  return serialNotify { s with buffer }

/-- The first loop of `serial_interrupt`, for the bytes that the port has received. -/
def receive : List UInt8 → Serial T → Except (Halt IntqAssert) (Serial T)
  | [], s => .ok s
  | byte :: bytes, s =>
    if s.buffer.ring.Full then .ok s
    else do
      let s ← inputPutc s byte
      receive bytes s

/-- `serial_interrupt`. -/
def serialInterrupt (s : Serial T) (received : List UInt8) (ready : ℕ) : Except (Halt IntqAssert) (Serial T) := do
  let s ← receive received s
  let s ← drain ready s
  return writeIer s

/-- `intq_getc` on the input buffer by a thread, and the end of `input_getc` if it has returned. -/
def getcStep (s : Serial T) (t : T) (a : IntqAction T) : Except (Halt IntqAssert) (Serial T) := do
  let buffer ← intqExec s.buffer a
  return if buffer.pc t = .outside then serialNotify { s with buffer } else { s with buffer }

/-- The steps of the system. -/
inductive SerialAction (T : Type) where
  /-- A call of `serial_putc`: `none` stands for one with interrupts off. -/
  | putc (caller : Option T) (byte : UInt8)
  /-- A thread that was blocked in `serial_putc` goes on. -/
  | resumePutc (t : T)
  | flush
  /-- `serial_init_queue` up to `mode = QUEUE`. -/
  | initQueue
  /-- The rest of `serial_init_queue`. -/
  | initDone
  | interrupt (received : List UInt8) (ready : ℕ)
  /-- A keyboard interrupt, which calls `input_putc` only if the buffer is not full. -/
  | key (key : UInt8)
  | getc (t : T)
  /-- A thread that was blocked in `input_getc` goes on. -/
  | resumeGetc (t : T)

def serialExec (s : Serial T) : SerialAction T → Except (Halt IntqAssert) (Serial T)
  | .putc caller byte => serialPutc s caller byte
  | .resumePutc t =>
    match s.txq.pc t with
    | .awakened (.putc byte) | .woken (.putc byte) => putcStep s t byte (.resume t)
    | _ => .error .disabled
  | .flush => serialFlush s
  | .initQueue =>
    -- a second call fails its assertion
    if s.mode = .queue then .error .disabled
    else
      let s := if s.mode = .uninit then initPoll s else s
      .ok { s with mode := .queue }
  | .initDone =>
    if s.mode ≠ .queue ∨ s.initialized then .error .disabled
    else .ok { writeIer s with initialized := true }
  | .interrupt received ready => serialInterrupt s received ready
  | .key key => inputPutc s key
  | .getc t => getcStep s t (.call t .getc)
  | .resumeGetc t =>
    match s.buffer.pc t with
    | .awakened .getc | .woken .getc => getcStep s t (.resume t)
    | _ => .error .disabled

/-- The state at the start of the kernel, with whatever the buffers hold. -/
def serialStart (buf buf' : ℕ → UInt8) : Serial T where
  mode := .uninit
  txq := intqInit buf
  buffer := intqInit buf'
  ierXmit := false
  ierRecv := false
  thr := []
  accepted := []
  initialized := false

def serialMachine : Machine (Serial T) (SerialAction T) :=
  .ofExec (fun s => ∃ buf buf', s = serialStart buf buf') serialExec

/-! ## The invariant -/

/-- The interrupts that the queues need are enabled. -/
def Enabled (s : Serial T) : Prop :=
  (¬s.txq.ring.Empty → s.ierXmit = true) ∧ (¬s.buffer.ring.Full → s.ierRecv = true)

/-- What was sent and what is queued is what was accepted, and the queue is not used before queued mode. -/
structure Fifo (s : Serial T) : Prop where
  order : s.thr ++ s.txq.ring.contents = s.accepted
  empty : s.mode ≠ .queue → s.txq.ring.Empty
  outside : s.mode ≠ .queue → ∀ t, s.txq.pc t = .outside

/-- What every reachable state satisfies. -/
structure SerialInv (s : Serial T) : Prop where
  fifo : Fifo s
  enabled : s.initialized = true → s.mode = .queue ∧ Enabled s

/-- What the output functions leave alone. -/
structure SameInput (s s' : Serial T) : Prop where
  mode : s'.mode = s.mode
  initialized : s'.initialized = s.initialized
  buffer : s'.buffer = s.buffer
  ierRecv : s'.ierRecv = s.ierRecv

omit [DecidableEq T] in
lemma writeIer_enabled (s : Serial T) : Enabled (writeIer s) :=
  ⟨fun h => decide_eq_true h, fun h => decide_eq_true h⟩

variable {s : Serial T}

omit [DecidableEq T] in
lemma Fifo.writeIer (h : Fifo s) : Fifo (writeIer s) :=
  ⟨h.order, h.empty, h.outside⟩

omit [DecidableEq T] in
/-- A step that ends with `write_ier` and does not leave queued mode keeps the invariant. -/
lemma SerialInv.of_writeIer {r : Serial T} (hs : SerialInv s) (hfifo : Fifo r) (hmode : r.mode = s.mode)
    (hinit : r.initialized = s.initialized) : SerialInv (writeIer r) := by
  refine ⟨hfifo.writeIer, fun h => ⟨?_, writeIer_enabled r⟩⟩
  show r.mode = .queue
  rw [hmode]
  exact (hs.enabled (hinit.symm.trans h)).1

/-! ## Output -/

/-- Sending the next byte moves it from the queue to what was sent. -/
lemma sendNext_spec (hs : Fifo s) :
    Ensures (fun _ => True)
      (fun s' => Fifo s' ∧ SameInput s s' ∧ s'.txq.ring = s.txq.ring.pop ∧ ¬s.txq.ring.Empty) (sendNext s) := by
  refine (handler_ring s.txq .getc).bind fun txq htxq => ?_
  obtain ⟨hne, hring⟩ := htxq
  have hring : txq.ring = s.txq.ring.pop := hring
  refine ⟨⟨?_, fun hmode => absurd (hs.empty hmode) hne, fun hmode => absurd (hs.empty hmode) hne⟩,
    ⟨rfl, rfl, rfl, rfl⟩, hring, hne⟩
  show s.thr ++ [s.txq.ring.front] ++ txq.ring.contents = s.accepted
  rw [hring, List.append_assoc, List.singleton_append, ← Ring.contents_pop hne]
  exact hs.order

lemma drain_spec (n : ℕ) (hs : Fifo s) :
    Ensures (fun _ => True)
      (fun s' => Fifo s' ∧ SameInput s s' ∧ (s.txq.ring.length ≤ n → s'.txq.ring.Empty)) (drain n s) := by
  induction n generalizing s with
  | zero =>
    refine ⟨hs, ⟨rfl, rfl, rfl, rfl⟩, fun hlength => ?_⟩
    exact (Ring.length_eq_zero_iff _).mp (Nat.le_zero.mp hlength)
  | succ n ih =>
    refine Ensures.ite (fun hempty => ⟨hs, ⟨rfl, rfl, rfl, rfl⟩, fun _ => hempty⟩) fun _ => ?_
    refine (sendNext_spec hs).bind fun r hr => ?_
    obtain ⟨hr, hsame, hring, hne⟩ := hr
    refine (ih hr).mono fun s' hs' => ?_
    obtain ⟨hs', hsame', hempty⟩ := hs'
    refine ⟨hs', ⟨?_, ?_, ?_, ?_⟩, fun hlength => hempty ?_⟩
    · rw [hsame'.mode, hsame.mode]
    · rw [hsame'.initialized, hsame.initialized]
    · rw [hsame'.buffer, hsame.buffer]
    · rw [hsame'.ierRecv, hsame.ierRecv]
    · have hpop := Ring.length_pop hne
      rw [hring]
      omega

omit [DecidableEq T] in
/-- A byte that was queued was accepted. -/
lemma Fifo.queued (hs : Fifo s) (hmode : s.mode = .queue) {txq : Intq T} {byte : UInt8}
    (hfull : ¬s.txq.ring.Full) (hring : txq.ring = s.txq.ring.push byte) :
    Fifo { s with txq, accepted := s.accepted ++ [byte] } := by
  refine ⟨?_, fun h => absurd hmode h, fun h => absurd hmode h⟩
  show s.thr ++ txq.ring.contents = s.accepted ++ [byte]
  rw [hring, Ring.contents_push hfull, ← List.append_assoc, hs.order]

section SerialInv

variable (hs : SerialInv s)
include hs

lemma putcOff_spec (hmode : s.mode = .queue) (byte : UInt8) :
    Ensures (fun _ => True) SerialInv (putcOff s byte) := by
  have hroom : Ensures (fun _ => True) (fun r => Fifo r ∧ SameInput s r) (makeRoom s) := by
    refine Ensures.ite (fun _ => ?_) fun _ => ⟨hs.fifo, rfl, rfl, rfl, rfl⟩
    exact (sendNext_spec hs.fifo).mono fun r hr => ⟨hr.1, hr.2.1⟩
  refine hroom.bind fun r hr => (handler_ring r.txq (.putc byte)).bind fun txq htxq => ?_
  have hqueue : r.mode = .queue := hr.2.mode.trans hmode
  exact hs.of_writeIer (hr.1.queued hqueue htxq.1 htxq.2) hr.2.mode hr.2.initialized

/-- A thread in `serial_putc` has queued its byte and is done, or has left the queue as it was. -/
lemma putcStep_spec (hmode : s.mode = .queue) {t : T} {byte : UInt8} {a : IntqAction T}
    (ha : Ensures (fun _ => True) (Moves s.txq t (.putc byte)) (intqExec s.txq a)) :
    Ensures (fun _ => True) SerialInv (putcStep s t byte a) := by
  refine ha.bind fun txq hmoves => ?_
  rcases hmoves with ⟨hfull, hring, hpc⟩ | ⟨hring, hpc⟩
  · rw [if_pos hpc]
    exact hs.of_writeIer (hs.fifo.queued hmode hfull hring) rfl rfl
  · rw [if_neg hpc]
    refine ⟨⟨?_, fun h => absurd hmode h, fun h => absurd hmode h⟩, fun hinit => ⟨hmode, ?_⟩⟩
    · show s.thr ++ txq.ring.contents = s.accepted
      rw [hring]
      exact hs.fifo.order
    · obtain ⟨-, hxmit, hrecv⟩ := hs.enabled hinit
      refine ⟨fun hne => hxmit ?_, hrecv⟩
      rw [← hring]
      exact hne

omit [DecidableEq T] in
/-- Setting up polling changes nothing but the registers. -/
lemma SerialInv.initPoll (hmode : s.mode = .uninit) : SerialInv (initPoll s) := by
  have hne : s.mode ≠ .queue := by
    rw [hmode]
    decide
  have horder := hs.fifo.order
  rw [(Ring.contents_eq_nil_iff _).mpr (hs.fifo.empty hne)] at horder
  refine ⟨⟨?_, fun _ => rfl, fun _ => hs.fifo.outside hne⟩, fun hinit => absurd (hs.enabled hinit).1 hne⟩
  show s.thr ++ (intqInit s.txq.ring.buf : Intq T).ring.contents = s.accepted
  rw [intqInit_contents]
  exact horder

omit [DecidableEq T] in
lemma SerialInv.polling (hmode : s.mode ≠ .queue) :
    SerialInv (if s.mode = .uninit then OsLabs.Devices.initPoll s else s) ∧
      (if s.mode = .uninit then OsLabs.Devices.initPoll s else s).mode ≠ .queue := by
  split
  · rename_i huninit
    exact ⟨hs.initPoll huninit, by show Mode.poll ≠ .queue; decide⟩
  · exact ⟨hs, hmode⟩

lemma serialPutc_spec (caller : Option T) (byte : UInt8) :
    Ensures (fun _ => True) SerialInv (serialPutc s caller byte) := by
  refine Ensures.ite (fun hmode => ?_) fun hmode => ?_
  · obtain ⟨hr, hpoll⟩ := hs.polling hmode
    generalize (if s.mode = .uninit then OsLabs.Devices.initPoll s else s) = r at hr hpoll
    -- nothing is queued, so the byte follows what was sent
    have hempty := hr.fifo.empty hpoll
    have horder := hr.fifo.order
    rw [(Ring.contents_eq_nil_iff _).mpr hempty, List.append_nil] at horder
    refine ⟨⟨?_, fun _ => hempty, hr.fifo.outside⟩, fun hinit => absurd (hr.enabled hinit).1 hpoll⟩
    show r.thr ++ [byte] ++ r.txq.ring.contents = r.accepted ++ [byte]
    rw [(Ring.contents_eq_nil_iff _).mpr hempty, List.append_nil, horder]
  · have hmode : s.mode = .queue := not_not.mp hmode
    cases caller with
    | none => exact putcOff_spec hs hmode byte
    | some t => exact putcStep_spec hs hmode (call_moves ..)

/-! ## Input -/

omit [DecidableEq T] in
/-- The input buffer changes and `serial_notify` is called. -/
lemma SerialInv.notify (buffer : Intq T) : SerialInv (serialNotify { s with buffer }) := by
  have hfifo : Fifo { s with buffer } := ⟨hs.fifo.order, hs.fifo.empty, hs.fifo.outside⟩
  unfold serialNotify
  split
  · exact hs.of_writeIer hfifo rfl rfl
  · rename_i hmode
    exact ⟨hfifo, fun hinit => absurd (hs.enabled hinit).1 hmode⟩

lemma inputPutc_spec (key : UInt8) :
    Ensures (fun _ => True) SerialInv (inputPutc s key) := by
  exact (handler_ring s.buffer (.putc key)).bind fun buffer _ => hs.notify buffer

omit hs in
lemma receive_spec (bytes : List UInt8) (hs : SerialInv s) :
    Ensures (fun _ => True) SerialInv (receive bytes s) := by
  induction bytes generalizing s with
  | nil => exact hs
  | cons byte bytes ih =>
    refine Ensures.ite (fun _ => hs) fun _ => ?_
    exact (inputPutc_spec hs byte).bind fun r hr => ih hr

lemma getcStep_spec {t : T} {a : IntqAction T}
    (ha : Ensures (fun _ => True) (Moves s.buffer t .getc) (intqExec s.buffer a)) :
    Ensures (fun _ => True) SerialInv (getcStep s t a) := by
  refine ha.bind fun buffer hmoves => ?_
  rcases hmoves with ⟨_, _, hpc⟩ | ⟨hring, hpc⟩
  · rw [if_pos hpc]
    exact hs.notify buffer
  · rw [if_neg hpc]
    refine ⟨⟨hs.fifo.order, hs.fifo.empty, hs.fifo.outside⟩, fun hinit => ?_⟩
    obtain ⟨hmode, hxmit, hrecv⟩ := hs.enabled hinit
    refine ⟨hmode, hxmit, fun hfull => hrecv ?_⟩
    rw [← hring]
    exact hfull

/-! ## Every step -/

lemma serialFlush_spec : Ensures (fun _ => True) SerialInv (serialFlush s) := by
  refine (drain_spec _ hs.fifo).mono fun s' h => ?_
  obtain ⟨hfifo, hsame, hempty⟩ := h
  refine ⟨hfifo, fun hinit => ?_⟩
  obtain ⟨hmode, -, hrecv⟩ := hs.enabled (hsame.initialized.symm.trans hinit)
  -- nothing is left to transmit, and the receive side is as before
  refine ⟨hsame.mode.trans hmode, fun hne => absurd (hempty (Nat.le_refl _)) hne, ?_⟩
  rw [hsame.buffer, hsame.ierRecv]
  exact hrecv

lemma serialInterrupt_spec (received : List UInt8) (ready : ℕ) :
    Ensures (fun _ => True) SerialInv (serialInterrupt s received ready) := by
  refine (receive_spec received hs).bind fun r hr => (drain_spec ready hr.fifo).bind fun r' hr' => ?_
  exact hr.of_writeIer hr'.1 hr'.2.1.mode hr'.2.1.initialized

lemma serialExec_spec (a : SerialAction T) :
    Ensures (fun _ => True) SerialInv (serialExec s a) := by
  cases a with
  | putc caller byte => exact serialPutc_spec hs caller byte
  | resumePutc t =>
    rw [serialExec]
    -- a thread is in `txq` in queued mode only
    have hmode (hpc : s.txq.pc t ≠ .outside) : s.mode = .queue := by
      by_contra hne
      exact hpc (hs.fifo.outside hne t)
    split
    · rename_i byte hpc
      exact putcStep_spec hs (hmode (by rw [hpc]; simp)) (resume_moves (Or.inl hpc))
    · rename_i byte hpc
      exact putcStep_spec hs (hmode (by rw [hpc]; simp)) (resume_moves (Or.inr hpc))
    · exact .disabled
  | flush => exact serialFlush_spec hs
  | initQueue =>
    refine Ensures.ite (fun _ => .disabled) fun hmode => ?_
    obtain ⟨hr, hpoll⟩ := hs.polling hmode
    exact ⟨⟨hr.fifo.order, fun h => absurd rfl h, fun h => absurd rfl h⟩,
      fun hinit => absurd (hr.enabled hinit).1 hpoll⟩
  | initDone =>
    refine Ensures.ite (fun _ => .disabled) fun hready => ?_
    have hmode : s.mode = .queue := by
      by_contra hne
      exact hready (Or.inl hne)
    refine ⟨⟨hs.fifo.order, hs.fifo.empty, hs.fifo.outside⟩, fun _ => ⟨hmode, writeIer_enabled s⟩⟩
  | interrupt received ready => exact serialInterrupt_spec hs received ready
  | key key => exact inputPutc_spec hs key
  | getc t => exact getcStep_spec hs (call_moves ..)
  | resumeGetc t =>
    rw [serialExec]
    split
    · rename_i hpc
      exact getcStep_spec hs (resume_moves (Or.inl hpc))
    · rename_i hpc
      exact getcStep_spec hs (resume_moves (Or.inr hpc))
    · exact .disabled

end SerialInv

omit [DecidableEq T] in
lemma serialStart_inv (buf buf' : ℕ → UInt8) : SerialInv (serialStart buf buf' : Serial T) := by
  exact ⟨⟨intqInit_contents buf, fun _ => rfl, fun _ _ => rfl⟩, nofun⟩

lemma serialMachine_inv (h : serialMachine.Reachable s) : SerialInv s := by
  refine h.invariant (fun s hs => ?_) fun s a s' _ hs hstep => ?_
  · obtain ⟨buf, buf', rfl⟩ := hs
    exact serialStart_inv buf buf'
  · exact (serialExec_spec hs a).of_eq_ok (Machine.ofExec_step.mp hstep)

/-- In every reachable state, what was written to the transmit register and then what is queued are the bytes that were
accepted; and after `serial_init_queue` the interrupts that the queues need are enabled. -/
theorem serial_output_fifo {s : Serial T} (h : serialMachine.Reachable s) :
    s.thr ++ s.txq.ring.contents = s.accepted ∧
      (s.initialized = true →
        (¬s.txq.ring.Empty → s.ierXmit = true) ∧ (¬s.buffer.ring.Full → s.ierRecv = true)) := by
  have hs := serialMachine_inv h
  exact ⟨hs.fifo.order, fun hinit => (hs.enabled hinit).2⟩

/-- A byte is polled out, two are queued, and an interrupt sends one of them. -/
theorem serial_output_fifo_mixed :
    ∃ s : Serial Unit, serialMachine.run (serialStart (fun _ => 0) fun _ => 0)
        [.putc none 65, .initQueue, .initDone, .putc (some ()) 66, .putc none 67, .interrupt [] 1] = some s ∧
      s.accepted = [65, 66, 67] ∧ s.thr ++ s.txq.ring.contents = [65, 66, 67] := by
  obtain ⟨s, hrun, haccepted⟩ : ∃ s : Serial Unit, serialMachine.run (serialStart (fun _ => 0) fun _ => 0)
      [.putc none 65, .initQueue, .initDone, .putc (some ()) 66, .putc none 67, .interrupt [] 1] = some s ∧
      s.accepted = [65, 66, 67] := ⟨_, rfl, rfl⟩
  have hfifo := serial_output_fifo (s := s) ⟨_, _, ⟨_, _, rfl⟩, hrun⟩
  exact ⟨s, hrun, haccepted, hfifo.1.trans haccepted⟩

end OsLabs.Devices
