import Mathlib.Data.List.Nodup
import OsLabs.Threads.KernelLists

/-!
# What the functions of the thread system do to the invariant

One lemma per function of the source. The running thread is the only one with status running (`Running`) except inside
`schedule`, which is entered without a running thread and finds the next one.

`Frame` is the part of the specification the alarm clock rests on: a step other than a timer interrupt or a
`timer_sleep` does not touch a sleeping thread, sets nobody's wakeup time, and blocks nobody but the running thread.
-/

namespace OsLabs.Threads

open Lib

/-- The thread the CPU is on is the only running thread. -/
structure Running (k : Kernel) : Prop where
  current : k.current.status = .running
  only : ∀ t, (k.threads t).status = .running → t = k.cpu

/-- The thread is ready or running. -/
def Thread.isUp (th : Thread) : Prop :=
  th.status = .ready ∨ th.status = .running

/-- What a step does not do to the other threads. -/
structure Frame (k k' : Kernel) : Prop where
  ticks : k'.ticks = k.ticks
  sleeping : ∀ u, (k.threads u).wakeupTime ≠ 0 → k'.threads u = k.threads u
  awake : ∀ u, (k.threads u).wakeupTime = 0 → (k'.threads u).wakeupTime = 0
  up : ∀ u, u ≠ k.cpu → (k.threads u).isUp → (k'.threads u).isUp

lemma Frame.refl (k : Kernel) : Frame k k :=
  ⟨rfl, fun _ _ => rfl, fun _ h => h, fun _ _ h => h⟩

variable {k k₁ k' : Kernel} {t next : Page} {c : Code} {code rest : List Code}

lemma Frame.trans {k₂ : Kernel} (h₁ : Frame k k₁) (hcpu : k₁.cpu = k.cpu) (h₂ : Frame k₁ k₂) :
    Frame k k₂ where
  ticks := h₂.ticks.trans h₁.ticks
  sleeping u hu := by
    have hsame := h₁.sleeping u hu
    rw [← hsame]
    apply h₂.sleeping u
    rwa [hsame]
  awake u hu := h₂.awake u (h₁.awake u hu)
  up u hne hu := by
    apply h₂.up u _ (h₁.up u hne hu)
    rwa [hcpu]

/-- A step that leaves the threads and the clock alone. -/
lemma Frame.of_threads (hth : k'.threads = k.threads) (hticks : k'.ticks = k.ticks) : Frame k k' := by
  refine ⟨hticks, fun u _ => ?_, fun u hu => ?_, fun u _ hu => ?_⟩ <;> rw [hth]
  · exact hu
  · exact hu

lemma Running.of_threads (h : Running k) (hth : k'.threads = k.threads) (hcpu : k'.cpu = k.cpu) :
    Running k' where
  current := by
    unfold Kernel.current
    rw [hth, hcpu]
    exact h.current
  only t ht := by
    rw [hth] at ht
    rw [hcpu]
    exact h.only t ht

/-- A change to one thread that is awake, and that stays up unless it is the running one. -/
lemma Frame.of_update (t : Page) (hticks : k'.ticks = k.ticks)
    (hother : ∀ u, u ≠ t → k'.threads u = k.threads u) (hbefore : (k.threads t).wakeupTime = 0)
    (hafter : (k'.threads t).wakeupTime = 0) (hup : t = k.cpu ∨ ((k.threads t).isUp → (k'.threads t).isUp)) :
    Frame k k' where
  ticks := hticks
  sleeping u hu := by
    apply hother u
    rintro rfl
    exact hu hbefore
  awake u hu := by
    by_cases h : u = t
    · rw [h]
      exact hafter
    · rw [hother u h]
      exact hu
  up u hne hu := by
    by_cases h : u = t
    · subst h
      exact (hup.resolve_left hne) hu
    · rw [hother u h]
      exact hu

/-- The assertions that do not fail: all but those of `thread_current` and `thread_unblock` may, when a client
misuses the interface or the boot runs out of memory. -/
@[simp] def Tolerated (f : KernelAssert) : Prop :=
  f ≠ .threadCurrent ∧ f ≠ .threadUnblock

/-! ## Threads that are in no list -/

/-- A thread that is not blocked waits for nothing. -/
lemma Lists.of_not_blocked (h : Lists k) (ht : (k.threads t).status ≠ .blocked) :
    (∀ s, t ∉ (k.semas s).waiters) ∧ (∀ q, k.waiter q ≠ some t) ∧ (k.threads t).wakeupTime = 0 := by
  refine ⟨fun s hs => ht ((h.thread t).waiting s hs).1, fun q hq => ht ((h.thread t).waiter q hq).1, ?_⟩
  by_contra hne
  exact ht ((h.thread t).sleeping hne).1

/-- The thread waits for nothing, and nobody is creating it. -/
structure Unlisted (k : Kernel) (t : Page) : Prop where
  waiters : ∀ s, t ∉ (k.semas s).waiters
  waiter : ∀ q, k.waiter q ≠ some t
  awake : (k.threads t).wakeupTime = 0
  created : ∀ u, .page t ∉ k.resources u

lemma Lists.unlisted (h : Lists k) (ht : (k.threads t).isUp) : Unlisted k t := by
  have hb : (k.threads t).status ≠ .blocked := by
    rcases ht with ht | ht <;> rw [ht] <;> decide
  obtain ⟨hwaiters, hwaiter, hawake⟩ := h.of_not_blocked hb
  refine ⟨hwaiters, hwaiter, hawake, fun u hu => ?_⟩
  rcases h.being_created hu with ⟨hs, _⟩ | ⟨hs, _⟩ <;> rcases ht with ht | ht <;> simp [hs] at ht

/-- Nobody is creating a thread that waits for something. -/
lemma Lists.not_created_of_reason (h : Lists k) (hs : (k.threads t).status = .blocked)
    (hr : (k.threads t).reason ≠ .created) (u : Page) : .page t ∉ k.resources u := by
  intro hc
  rcases h.being_created hc with ⟨hd, _⟩ | ⟨_, hcr, _⟩
  · rw [hs] at hd
    cases hd
  · exact hr hcr

/-- The idle thread waits for nothing but an interrupt. -/
lemma idleShape_reason {th : Thread} (h : idleShape th.stack = true) :
    th.reason = .created ∨ th.reason = .idle := by
  unfold Thread.reason
  cases hs : th.stack with
  | nil => exact Or.inl rfl
  | cons c rest =>
    cases c <;> simp_all

/-- A thread that waits for nothing moves between the run queue and the CPU, or blocks. -/
lemma Lists.move (h : Lists k) (ht : Unlisted k t) (hlive : (k.threads t).status ≠ .dying) {ready : List Page}
    {status : ThreadStatus} (hstatus : status ≠ .dying) (hnodup : ready.Nodup)
    (hother : ∀ u, u ≠ t → (u ∈ ready ↔ u ∈ k.readyList))
    (hready : t ∈ ready ↔ status = .ready ∧ k.idleThread ≠ some t) : Lists ((k.setReady ready).setStatus t status) := by
  refine h.relist ⟨?_, hother, fun _ _ _ hu => hu, fun _ _ _ hu => hu, fun _ _ => Iff.rfl,
      fun _ _ => rfl, rfl, hnodup, h.waiters_nodup, h.all_nodup⟩ ht.created ?_ ?_ Iff.rfl rfl hlive ?_ ?_
    (fun s hs => absurd hs (ht.waiters s)) (fun q hq => absurd hq (ht.waiter q)) ?_
  · intro u hu
    simp [hu]
  · simp
  · simp
  · simpa using hstatus
  · simpa using hready
  · intro hne
    simp [ht.awake] at hne

/-! ## The running thread goes on -/

/-- What holds before and after every step. -/
structure KernelInv (k : Kernel) : Prop where
  lists : Lists k
  running : Running k

/-- The result of a step that leaves the CPU with the running thread. -/
structure Stays (k k' : Kernel) : Prop where
  inv : KernelInv k'
  frame : Frame k k'
  cpu : k'.cpu = k.cpu

lemma Stays.trans {k₂ : Kernel} (h₁ : Stays k k₁) (h₂ : Stays k₁ k₂) : Stays k k₂ :=
  ⟨h₂.inv, h₁.frame.trans h₁.cpu h₂.frame, h₂.cpu.trans h₁.cpu⟩

namespace KernelInv

section KernelInv

variable (h : KernelInv k)
include h

/-- A step that leaves the threads alone and keeps the lists consistent. -/
lemma stays (hl : Lists k') (hth : k'.threads = k.threads)
    (hticks : k'.ticks = k.ticks) (hcpu : k'.cpu = k.cpu) : Stays k k' :=
  ⟨⟨hl, h.running.of_threads hth hcpu⟩, Frame.of_threads hth hticks, hcpu⟩

/-- A thread that is not running is not the one the CPU is on. -/
lemma ne_cpu (ht : (k.threads t).status ≠ .running) : t ≠ k.cpu := by
  rintro rfl
  exact ht h.running.current

lemma status : (k.threads k.cpu).status = .running :=
  h.running.current

lemma unlisted : Unlisted k k.cpu :=
  h.lists.unlisted (Or.inr h.status)

lemma magic : (k.threads k.cpu).magic = true := by
  apply (h.lists.thread k.cpu).live
  rw [h.status]
  decide

lemma not_ready : k.cpu ∉ k.readyList :=
  h.lists.not_ready (by rw [h.status]; decide)

/-- The frame of a step of the running thread up to `schedule`. -/
lemma frame (hticks : k₁.ticks = k.ticks)
    (hother : ∀ u, u ≠ k.cpu → k₁.threads u = k.threads u) (hawake : (k₁.threads k.cpu).wakeupTime = 0) :
    Frame k k₁ :=
  Frame.of_update k.cpu hticks hother h.unlisted.awake hawake (Or.inl rfl)

lemma pageOk_continueWith (hc : c.PageOk k) (code : List Code) : c.PageOk (k.continueWith code) := by
  refine hc.congr fun t ht => ?_
  have hne : t ≠ k.cpu := by
    apply h.ne_cpu
    rcases hc.status ht with ⟨hd, _⟩ | ⟨hb, _⟩
    · rw [hd]
      decide
    · rw [hb]
      decide
  exact ⟨by simp [hne], fun hu => hu⟩

lemma continueWith (hpages : ∀ c ∈ code, c.PageOk k)
    (hnodup : (resources code).Nodup) (hres : ∀ r ∈ resources code, ∀ u, u ≠ k.cpu → r ∉ k.resources u)
    (htoken : k.idleThread ≠ none → .idle ∉ resources code)
    (hidle : k.idleThread = some k.cpu → idleShape code = true) : Stays k (k.continueWith code) := by
  have hst := h.status
  have hok := h.lists.thread k.cpu
  have hcode : (k.continueWith code).resources k.cpu = resources code := by
    simp [Kernel.resources]
  refine ⟨⟨h.lists.update (h.lists.setThread_changesOnly k.cpu _) (fun u _ => h.unlisted.created u) ?_ ?_ ?_, ⟨?_, ?_⟩⟩,
    h.frame rfl ?_ ?_, rfl⟩
  · rw [hcode]
    exact hres
  · rw [hcode]
    exact htoken
  · refine ⟨?_, fun s hs => absurd hs (h.unlisted.waiters s), fun q hq => absurd hq (h.unlisted.waiter q), ?_, ?_, ?_, ?_, ?_,
      ?_, by rw [hcode]; exact hnodup⟩
    · simpa using hok.ready
    · intro hne
      simp at hne
      exact absurd h.unlisted.awake hne
    · simpa using hok.live
    · simpa using hok.all
    · simpa using hok.used
    · intro hi
      refine ⟨?_, ?_⟩
      · simp [hst]
      · simpa using hidle hi
    · intro c hc
      have hc' : c ∈ code := by simpa using hc
      exact h.pageOk_continueWith (hpages c hc') code
  · simpa using hst
  · intro t ht
    by_cases hne : t = k.cpu
    · exact hne
    · exact h.running.only t (by simpa [hne] using ht)
  · intro u hu
    simp [hu]
  · simpa using h.unlisted.awake

/-- The usual case: the new code holds at most the resources of the old one. -/
lemma continueWith_sublist (hpages : ∀ c ∈ code, c.PageOk k)
    (hsub : (resources code).Sublist (k.resources k.cpu))
    (hidle : idleShape k.current.stack = true → idleShape code = true) : Stays k (k.continueWith code) := by
  refine h.continueWith hpages ((h.lists.thread k.cpu).nodup.sublist hsub) ?_ ?_ ?_
  · intro r hr u hu hc
    exact hu (h.lists.unique u k.cpu r hc (hsub.subset hr))
  · intro hne hc
    exact h.lists.token hne k.cpu (hsub.subset hc)
  · intro hi
    exact hidle ((h.lists.thread k.cpu).idle hi).2

omit h in
lemma resources_of_stack (hstack : k.current.stack = c :: rest) :
    k.resources k.cpu = c.resources ++ Threads.resources rest := by
  rw [← resources_cons, ← hstack]
  rfl

/-- The running thread executes the entry `c` and goes on with `new` in its place. -/
lemma replace (hstack : k.current.stack = c :: rest) (new : List Code)
    (hsub : (resources new).Sublist c.resources) (hpages : ∀ c' ∈ new, c'.PageOk k)
    (hidle : idleShape (c :: rest) = true → idleShape (new ++ rest) = true) : Stays k (k.continueWith (new ++ rest)) := by
  refine h.continueWith_sublist ?_ ?_ (by rw [hstack]; exact hidle)
  · intro c' hc'
    rcases List.mem_append.mp hc' with hc' | hc'
    · exact hpages c' hc'
    · apply (h.lists.thread k.cpu).pages c'
      have hstack' : (k.threads k.cpu).stack = c :: rest := hstack
      rw [hstack']
      exact List.mem_cons_of_mem c hc'
  · rw [resources_of_stack hstack, resources_append]
    exact hsub.append (List.Sublist.refl _)

/-- The common case: `new` creates nothing. -/
lemma replace_plain (hstack : k.current.stack = c :: rest) (new : List Code)
    (hnew : ∀ c' ∈ new, c'.resources = [])
    (hidle : idleShape (c :: rest) = true → idleShape (new ++ rest) = true) :
    Stays k (k.continueWith (new ++ rest)) := by
  refine h.replace hstack new ?_ (fun c' hc' => .of_resources (hnew c' hc') k) hidle
  have hempty : resources new = [] := by
    rw [resources, List.flatMap_eq_nil_iff]
    exact hnew
  rw [hempty]
  exact List.nil_sublist _

/-- A function returns. -/
lemma pop (hstack : k.current.stack = c :: rest) (hidle : idleShape (c :: rest) = true → idleShape rest = true) :
    Stays k (k.continueWith rest) :=
  h.replace_plain hstack [] (by simp) hidle

lemma setLevel (level : IntrLevel) : Stays k (k.setLevel level) :=
  h.stays (h.lists.congr rfl rfl rfl rfl rfl rfl rfl) rfl rfl rfl

end KernelInv

end KernelInv

/-! ## Switching threads -/

/-- The thread `next_thread_to_run` chooses: the front of the run queue, or the idle thread. -/
lemma nextThreadToRun_eq {rest : List Page} (h : nextThreadToRun k = (some next, rest)) :
    k.readyList = next :: rest ∨ k.readyList = [] ∧ rest = [] ∧ k.idleThread = some next := by
  unfold nextThreadToRun at h
  cases hr : k.readyList with
  | nil =>
    rw [hr] at h
    simp only [Prod.mk.injEq] at h
    exact Or.inr ⟨rfl, h.2.symm, h.1⟩
  | cons t tail =>
    rw [hr] at h
    simp only [Prod.mk.injEq, Option.some.injEq] at h
    rw [h.1, h.2]
    exact Or.inl rfl

section Lists

variable (h : Lists k)
include h

/-- Destroying a thread that has left every list. -/
lemma Lists.free (hd : (k.threads t).status = .dying) (hm : (k.threads t).magic = true) :
    Lists (pallocFreePage k t) := by
  have hok := h.thread t
  obtain ⟨hwaiters, hwaiter, _⟩ := h.of_not_blocked (by rw [hd]; decide)
  have hfree : (pallocFreePage k t).threads t = .free := by simp
  have hempty : (pallocFreePage k t).resources t = [] := by
    unfold Kernel.resources
    rw [hfree]
    rfl
  refine h.update (t := t) ⟨?_, fun _ _ => Iff.rfl, fun _ _ _ hu => hu, fun _ _ _ hu => hu,
    fun _ _ => Iff.rfl, ?_, rfl, h.ready_nodup, h.waiters_nodup, h.all_nodup⟩ ?_ ?_ ?_ ?_
  · intro u hu
    simp [hu]
  · intro u hu
    simp [hu]
  · -- a page whose creation is under way holds no thread yet, or a blocked one
    intro u _ hc
    rcases h.being_created hc with ⟨_, hm', _⟩ | ⟨hb, _⟩
    · rw [hm] at hm'
      cases hm'
    · rw [hd] at hb
      cases hb
  · rw [hempty]
    simp
  · rw [hempty]
    simp
  · exact .of_free hfree (h.not_ready (by rw [hd]; decide)) hwaiters hwaiter (fun hc => (hok.all.mp hc) hd)
      fun hi => (hok.idle hi).1 hd

omit h in
/-- A thread switch changes the next thread and, if it is freed, the thread that left. -/
lemma Frame.of_switch (hawake : (k.threads next).wakeupTime = 0)
    (hticks : k₁.ticks = k.ticks) (hth : k₁.threads next = { k.threads next with status := .running })
    (hother : ∀ u, u ≠ next → k₁.threads u = k.threads u ∨
      u = k.cpu ∧ (k.threads u).wakeupTime = 0 ∧ (k₁.threads u).wakeupTime = 0) : Frame k k₁ := by
  refine ⟨hticks, fun u hu => ?_, fun u hu => ?_, fun u hne hu => ?_⟩
  · have hun : u ≠ next := by
      rintro rfl
      exact hu hawake
    exact (hother u hun).resolve_right fun hc => hu hc.2.1
  · by_cases hun : u = next
    · rw [hun, hth]
      exact hawake
    · rcases hother u hun with hsame | ⟨_, _, hzero⟩
      · rw [hsame]
        exact hu
      · exact hzero
  · by_cases hun : u = next
    · rw [hun, hth]
      exact Or.inr rfl
    · rw [(hother u hun).resolve_right fun hc => hne hc.1]
      exact hu

section Next

variable {rest : List Page}
  (hnext : k.readyList = next :: rest ∨ k.readyList = [] ∧ rest = [] ∧ k.idleThread = some next)
include hnext

/-- The next thread waits for nothing. -/
lemma Lists.next_thread :
    Unlisted k next ∧ (k.threads next).status ≠ .dying := by
  have hok := h.thread next
  rcases hnext with hr | ⟨_, _, hi⟩
  · have hready : (k.threads next).status = .ready := by
      have hmem : next ∈ k.readyList := by simp [hr]
      exact (hok.ready.mp hmem).1
    exact ⟨h.unlisted (Or.inl hready), by rw [hready]; decide⟩
  · -- nothing the idle thread executes waits
    obtain ⟨hlive, hshape⟩ := hok.idle hi
    have hreason := idleShape_reason hshape
    refine ⟨⟨fun s => h.not_waiting ?_, fun q => h.not_waiter ?_, h.not_sleeping ?_, fun u hu => ?_⟩, hlive⟩
    · rcases hreason with hr | hr <;> simp [hr]
    · rcases hreason with hr | hr <;> simp [hr]
    · rcases hreason with hr | hr <;> simp [hr]
    · rcases h.being_created hu with ⟨hd, _⟩ | ⟨_, _, hns⟩
      · exact hlive hd
      · rw [hshape] at hns
        cases hns

/-- Taking the next thread off the run queue and marking it running. -/
lemma Lists.dispatch :
    Lists (startSlice ((k.setReady rest).switchTo next)) := by
  obtain ⟨hunlisted, hlive⟩ := h.next_thread hnext
  have hnd := h.ready_nodup
  have hmoved : Lists ((k.setReady rest).setStatus next .running) := by
    rcases hnext with hr | ⟨hr, hrest, _⟩
    · rw [hr, List.nodup_cons] at hnd
      refine h.move hunlisted hlive (by decide) hnd.2 (fun u hu => ?_) ?_
      · simp [hr, hu]
      · simp [hnd.1]
    · exact h.move hunlisted hlive (by decide) (by simp [hrest]) (fun u _ => by simp [hr, hrest]) (by simp [hrest])
  exact hmoved.congr rfl rfl rfl rfl rfl rfl rfl

/-- A thread switch that frees nothing. -/
lemma switch_spec (hnone : ∀ t, (k.threads t).status ≠ .running) :
    Lists (startSlice ((k.setReady rest).switchTo next)) ∧
      Running (startSlice ((k.setReady rest).switchTo next)) ∧
      Frame k (startSlice ((k.setReady rest).switchTo next)) := by
  have hawake := (h.next_thread hnext).1.awake
  refine ⟨h.dispatch hnext, ⟨by simp, fun t ht => ?_⟩, Frame.of_switch hawake rfl (by simp) ?_⟩
  · by_contra hne
    have hne' : t ≠ next := hne
    exact hnone t (by simpa [hne'] using ht)
  · intro u hu
    exact Or.inl (by simp [hu])

/-- A thread switch that frees the page of the thread that left. -/
lemma switch_free_spec (hnone : ∀ t, (k.threads t).status ≠ .running)
    (hne : k.cpu ≠ next) (hdying : k.current.status = .dying) (hmagic : k.current.magic = true) :
    Lists (pallocFreePage (startSlice ((k.setReady rest).switchTo next)) k.cpu) ∧
      Running (pallocFreePage (startSlice ((k.setReady rest).switchTo next)) k.cpu) ∧
      Frame k (pallocFreePage (startSlice ((k.setReady rest).switchTo next)) k.cpu) := by
  have hawake := (h.next_thread hnext).1.awake
  have hne' : next ≠ k.cpu := fun hc => hne hc.symm
  have hd : (k.threads k.cpu).status = .dying := hdying
  have hm : (k.threads k.cpu).magic = true := hmagic
  have hcurAwake := (h.of_not_blocked (by rw [hd]; decide)).2.2
  refine ⟨(h.dispatch hnext).free ?_ ?_, ⟨by simp [hne'], fun t ht => ?_⟩,
    Frame.of_switch hawake rfl (by simp [hne']) ?_⟩
  · simpa [hne] using hd
  · simpa [hne] using hm
  · by_contra hnt
    have hnt' : t ≠ next := hnt
    by_cases htc : t = k.cpu
    · subst htc
      simp [Thread.free] at ht
    · exact hnone t (by simpa [htc, hnt'] using ht)
  · intro u hu
    by_cases huc : u = k.cpu
    · right
      exact ⟨huc, by rw [huc]; exact hcurAwake, by simp [huc, Thread.free]⟩
    · left
      simp [hu, huc]

end Next

/-- `schedule`, entered after the running thread gave up its status: the lists stay consistent, the next thread
is the only one running, and sleeping threads are untouched. -/
lemma schedule_spec (hnone : ∀ t, (k.threads t).status ≠ .running)
    (hmagic : k.current.magic = true) :
    Ensures Tolerated (fun k' => Lists k' ∧ Running k' ∧ Frame k k') (schedule k) := by
  unfold schedule
  split
  · simp
  · rename_i next rest hnext
    replace hnext := nextThreadToRun_eq hnext
    refine Ensures.ite (fun _ => by simp) fun _ => Ensures.ite (fun hne => ?_) fun heq => ?_
    · refine Ensures.ite (fun hdying => Ensures.ite (fun _ => by simp) fun _ => ?_) fun _ => ?_
      · have hcur : (k.threads k.cpu).status = .dying := by simpa [hne] using hdying.1
        exact switch_free_spec h hnext hnone hne hcur hmagic
      · exact switch_spec h hnext hnone
    · obtain rfl : k.cpu = next := not_not.mp heq
      exact switch_spec h hnext hnone

/-! ## Changing the wait lists -/

/-- A semaphore may get any wait list of threads that block on it. -/
lemma Lists.setSema (s : SemaId) {sema : Semaphore Page}
    (hmem : ∀ t ∈ sema.waiters, (k.threads t).status = .blocked ∧ (k.threads t).reason = .sema s)
    (hnodup : sema.waiters.Nodup) : Lists (k.setSema s sema) := by
  have hwaiting : ∀ t s', t ∈ ((k.setSema s sema).semas s').waiters →
      (k.threads t).status = .blocked ∧ (k.threads t).reason = .sema s' := by
    intro t s' hs'
    by_cases hss : s' = s
    · subst hss
      exact hmem t (by simpa using hs')
    · exact (h.thread t).waiting s' (by simpa [hss] using hs')
  refine { h with thread := fun t => { h.thread t with waiting := hwaiting t }, waiters_nodup := ?_ }
  intro s'
  by_cases hss : s' = s
  · subst hss
    simpa using hnodup
  · simpa [hss] using h.waiters_nodup s'

/-- A change of the counter only, or a shorter wait list. -/
lemma Lists.setSema_sublist (s : SemaId) {sema : Semaphore Page}
    (hsub : sema.waiters.Sublist (k.semas s).waiters) : Lists (k.setSema s sema) :=
  h.setSema s (fun t ht => (h.thread t).waiting s (hsub.subset ht)) ((h.waiters_nodup s).sublist hsub)

/-- A waiter field may name a thread that blocks on it. -/
lemma Lists.setWaiter (q : ℕ) {w : Option Page}
    (hmem : ∀ t, w = some t → (k.threads t).status = .blocked ∧ (k.threads t).reason = .intq q) :
    Lists (k.setWaiter q w) := by
  have hwaiter : ∀ t q', (k.setWaiter q w).waiter q' = some t →
      (k.threads t).status = .blocked ∧ (k.threads t).reason = .intq q' := by
    intro t q' hq'
    by_cases hqq : q' = q
    · subst hqq
      exact hmem t (by simpa using hq')
    · exact (h.thread t).waiter q' (by simpa [hqq] using hq')
  exact { h with thread := fun t => { h.thread t with waiter := hwaiter t } }

/-! ## Unblocking a thread -/

omit h in
lemma threadUnblock_eq (hl : Lists k) (hb : (k.threads t).status = .blocked) :
    threadUnblock k t = .ok ((k.setReady (k.readyList ++ [t])).setStatus t .ready) := by
  have hm := (hl.thread t).live (by rw [hb]; decide)
  unfold threadUnblock
  rw [if_neg (by simp [hm, hb])]

/-- The idle thread does not wait for a semaphore, a queue or the clock. -/
lemma Lists.not_idle_of_reason (hr : (k.threads t).reason ≠ .created)
    (hr' : (k.threads t).reason ≠ .idle) : k.idleThread ≠ some t := by
  intro hi
  rcases idleShape_reason ((h.thread t).idle hi).2 with hc | hc
  · exact hr hc
  · exact hr' hc

/-- A blocked thread that waits for nothing can be put on the run queue. -/
lemma Lists.unblock (hb : (k.threads t).status = .blocked) (ht : Unlisted k t)
    (hidle : k.idleThread ≠ some t) : Lists ((k.setReady (k.readyList ++ [t])).setStatus t .ready) := by
  have hnot : t ∉ k.readyList := h.not_ready (by rw [hb]; decide)
  refine h.move ht (by rw [hb]; decide) (by decide) ?_ (fun u hu => ?_) ?_
  · simpa using List.Nodup.concat hnot h.ready_nodup
  · simp [hu]
  · simp [hidle]

end Lists

lemma Running.unblock (h : Running k) (hb : (k.threads t).status = .blocked) :
    Running ((k.setReady (k.readyList ++ [t])).setStatus t .ready) := by
  have hst : (k.threads k.cpu).status = .running := h.current
  have hne : k.cpu ≠ t := by
    rintro rfl
    rw [hb] at hst
    cases hst
  refine ⟨?_, fun u hu => ?_⟩
  · simpa [hne] using hst
  · by_cases hut : u = t
    · subst hut
      simp at hu
    · exact h.only u (by simpa [hut] using hu)

section KernelInv

variable (h : KernelInv k)
include h

/-- A step that changes one thread, which is neither up nor asleep, and keeps the lists consistent. -/
lemma KernelInv.stays_of_update (hl : Lists k') (t : Page)
    (hother : ∀ u, u ≠ t → k'.threads u = k.threads u) (hdown : ¬(k.threads t).isUp)
    (hst : (k'.threads t).status ≠ .running) (hbefore : (k.threads t).wakeupTime = 0)
    (hafter : (k'.threads t).wakeupTime = 0) (hticks : k'.ticks = k.ticks) (hcpu : k'.cpu = k.cpu) :
    Stays k k' := by
  have hne : k.cpu ≠ t := by
    rintro rfl
    exact hdown (Or.inr h.running.current)
  refine ⟨⟨hl, ⟨?_, fun u hu => ?_⟩⟩,
    Frame.of_update t hticks hother hbefore hafter (Or.inr fun hup => absurd hup hdown), hcpu⟩
  · unfold Kernel.current
    rw [hcpu, hother k.cpu hne]
    exact h.running.current
  · rw [hcpu]
    by_cases hut : u = t
    · rw [hut] at hu
      exact absurd hu hst
    · rw [hother u hut] at hu
      exact h.running.only u hu

/-- `thread_unblock` on a thread that waits for nothing any more. -/
lemma threadUnblock_spec (hb : (k.threads t).status = .blocked) (ht : Unlisted k t)
    (hidle : k.idleThread ≠ some t) : Ensures Tolerated (Stays k) (threadUnblock k t) := by
  rw [threadUnblock_eq h.lists hb]
  refine ⟨⟨h.lists.unblock hb ht hidle, h.running.unblock hb⟩,
    Frame.of_update t rfl (fun u hu => ?_) ht.awake ?_ (Or.inr fun _ => ?_), rfl⟩
  · simp [hu]
  · simpa using ht.awake
  · simp [Thread.isUp]

/-- `sema_up`: the thread at the front of the wait list, if any, becomes ready. -/
lemma semaUpTurn_spec (s : SemaId) : Ensures Tolerated (Stays k) (semaUpTurn k s) := by
  unfold semaUpTurn
  cases hw : (k.semas s).waiters with
  | nil =>
    rw [semaUp_of_nil hw]
    exact h.stays (h.lists.setSema_sublist s (List.Sublist.refl _)) rfl rfl rfl
  | cons t rest =>
    rw [semaUp_of_cons hw]
    have hnd := h.lists.waiters_nodup s
    rw [hw, List.nodup_cons] at hnd
    obtain ⟨hb, hreason⟩ := (h.lists.thread t).waiting s (by simp [hw])
    have hl : Lists (k.setSema s { value := ((k.semas s).value + 1) % 2 ^ 32, waiters := rest }) := by
      apply h.lists.setSema_sublist
      rw [hw]
      exact List.sublist_cons_self t rest
    have hstays := h.stays hl rfl rfl rfl
    refine (threadUnblock_spec hstays.inv hb ⟨?_, ?_, ?_, ?_⟩ ?_).mono fun k' => hstays.trans
    · -- the thread popped is in no other list: what it waits for is this semaphore
      intro s' hs'
      have hr : (k.threads t).reason = .sema s' := ((hl.thread t).waiting s' hs').2
      rw [hreason] at hr
      cases hr
      simp [hnd.1] at hs'
    · exact fun q => h.lists.not_waiter (by simp [hreason])
    · exact h.lists.not_sleeping (by simp [hreason])
    · exact hl.not_created_of_reason hb (by simp [hreason])
    · exact h.lists.not_idle_of_reason (by simp [hreason]) (by simp [hreason])

omit h in
lemma intqSignal_eq {q : ℕ} (h : k.waiter q = some t) :
    intqSignal k q = threadUnblock (k.setWaiter q none) t := by
  unfold intqSignal threadUnblock
  rw [h]
  simp only [Kernel.setWaiter_threads]
  split <;> rfl

/-- `signal` of an interrupt queue: the thread in the waiter field, if any, becomes ready. -/
lemma intqSignal_spec (q : ℕ) : Ensures Tolerated (Stays k) (intqSignal k q) := by
  cases hq : k.waiter q with
  | none =>
    unfold intqSignal
    rw [hq]
    exact ⟨h, Frame.refl k, rfl⟩
  | some t =>
    rw [intqSignal_eq hq]
    obtain ⟨hb, hreason⟩ := (h.lists.thread t).waiter q hq
    have hl : Lists (k.setWaiter q none) := h.lists.setWaiter q (by simp)
    have hstays := h.stays hl rfl rfl rfl
    refine (threadUnblock_spec hstays.inv hb ⟨?_, ?_, ?_, ?_⟩ ?_).mono fun k' => hstays.trans
    · exact fun s => h.lists.not_waiting (by simp [hreason])
    · intro q' hq'
      have hr : (k.threads t).reason = .intq q' := ((hl.thread t).waiter q' hq').2
      rw [hreason] at hr
      cases hr
      simp at hq'
    · exact h.lists.not_sleeping (by simp [hreason])
    · exact hl.not_created_of_reason hb (by simp [hreason])
    · exact h.lists.not_idle_of_reason (by simp [hreason]) (by simp [hreason])

/-! ## Giving up the CPU -/

lemma KernelInv.threadCurrent : threadCurrent k = .ok k.cpu := by
  unfold Threads.threadCurrent
  rw [if_neg (by simp [h.magic, h.status])]

/-- The result of a step after which another thread may have the CPU. -/
structure Switches (k k' : Kernel) : Prop where
  inv : KernelInv k'
  frame : Frame k k'

omit h in
lemma Stays.switches (h : Stays k k') : Switches k k' := ⟨h.inv, h.frame⟩

/-- `schedule` after the running thread got the record `th`. -/
lemma schedule_after (hl : Lists k₁) (hcpu : k₁.cpu = k.cpu)
    (hother : ∀ u, u ≠ k.cpu → k₁.threads u = k.threads u) (hst : (k₁.threads k.cpu).status ≠ .running)
    (hm : (k₁.threads k.cpu).magic = true) :
    Ensures Tolerated (fun k' => KernelInv k' ∧ Frame k₁ k') (schedule k₁) := by
  refine (schedule_spec hl (fun t ht => ?_) ?_).mono fun k' hk' => ⟨⟨hk'.1, hk'.2.1⟩, hk'.2.2⟩
  · by_cases htc : t = k.cpu
    · rw [htc] at ht
      exact hst ht
    · rw [hother t htc] at ht
      exact htc (h.running.only t ht)
  · unfold Kernel.current
    rw [hcpu]
    exact hm

/-- The running thread blocks: it leaves no list, and enters none by this alone. -/
lemma KernelInv.block : Lists (k.setStatus k.cpu .blocked) :=
  h.lists.move h.unlisted (by rw [h.status]; decide) (by decide) h.lists.ready_nodup (fun _ _ => Iff.rfl)
    (by simp [h.not_ready])

/-- `thread_block` in a state that differs from `k` in the record of the running thread and in the lists: what has to be
consistent are the lists with the thread marked as blocked. -/
lemma threadBlock_spec (hcpu : k₁.cpu = k.cpu)
    (hother : ∀ u, u ≠ k.cpu → k₁.threads u = k.threads u) (hst : (k₁.threads k.cpu).status = .running)
    (hm : (k₁.threads k.cpu).magic = true) (hl : Lists (k₁.setStatus k.cpu .blocked)) :
    Ensures Tolerated (fun k' => KernelInv k' ∧ Frame (k₁.setStatus k.cpu .blocked) k')
      (threadBlock k₁) := by
  refine Ensures.ite (fun _ => by simp) fun _ => ?_
  have hcurrent : threadCurrent k₁ = .ok k.cpu := by
    unfold Threads.threadCurrent Kernel.current
    rw [hcpu, if_neg (by simp [hm, hst])]
  rw [hcurrent]
  refine schedule_after h hl hcpu (fun u hu => ?_) ?_ ?_
  · simp [hu, hother u hu]
  · simp
  · simpa using hm

/-- Blocking with the code `code` left to do, after the lists `k₁` has and `k` has not were adapted. -/
lemma block_with_spec (hgo : Stays k (k.continueWith code)) (hcpu : k₁.cpu = k.cpu)
    (hticks : k₁.ticks = k.ticks) (hth : k₁.threads = (k.continueWith code).threads)
    (hblocked : Lists ((k.continueWith code).setStatus k.cpu .blocked) →
      Lists (k₁.setStatus k.cpu .blocked)) :
    Ensures Tolerated (Switches k) (threadBlock k₁) := by
  have hother : ∀ u, u ≠ k.cpu → k₁.threads u = k.threads u := by
    intro u hu
    rw [hth]
    simp [hu]
  refine (threadBlock_spec h hcpu hother ?_ ?_ (hblocked hgo.inv.block)).mono fun k' hk' => ?_
  · rw [hth]
    exact hgo.inv.status
  · rw [hth]
    exact hgo.inv.magic
  · refine ⟨hk'.1, Frame.trans (h.frame ?_ ?_ ?_) ?_ hk'.2⟩
    · exact hticks
    · intro u hu
      simp [hu, hother u hu]
    · simp only [Kernel.setStatus_threads, Function.update_self, hth]
      exact hgo.inv.unlisted.awake
    · exact hcpu

/-- One turn of `sema_down`: the thread passes, or blocks at the end of the wait list. -/
lemma semaDownTurn_spec (s : SemaId) (old : IntrLevel)
    (hstack : k.current.stack = c :: rest) (hidle : idleShape (c :: rest) = false) :
    Ensures Tolerated (Switches k) (semaDownTurn k s old rest) := by
  unfold semaDownTurn
  rcases Nat.eq_zero_or_pos (k.semas s).value with hv | hv
  · rw [semaDown_of_zero hv]
    rw [h.threadCurrent]
    refine block_with_spec h (h.replace_plain hstack [.semaDownLoop s old] (by simp) (by simp [hidle])) rfl rfl rfl
      fun hblocked => hblocked.setSema s (fun t ht => ?_) ?_
    · rcases List.mem_append.mp ht with ht | ht
      · exact (hblocked.thread t).waiting s ht
      · rw [List.mem_singleton] at ht
        subst ht
        simp [Thread.reason]
    · simpa using List.Nodup.concat (h.unlisted.waiters s) (h.lists.waiters_nodup s)
  · rw [semaDown_of_pos hv]
    have hgo := h.pop hstack (by simp [hidle])
    have hsema : Lists ((k.continueWith rest).setSema s { k.semas s with value := (k.semas s).value - 1 }) :=
      hgo.inv.lists.setSema_sublist s (List.Sublist.refl _)
    have hpassed := hgo.trans (hgo.inv.stays hsema rfl rfl rfl)
    exact (hpassed.trans (hpassed.inv.setLevel old)).switches

/-- The running thread becomes ready, at the end of the run queue unless it is the idle thread. -/
lemma KernelInv.yield :
    Lists ((if k.idleThread ≠ some k.cpu then k.setReady (k.readyList ++ [k.cpu]) else k).setStatus
      k.cpu .ready) := by
  have hlive : (k.threads k.cpu).status ≠ .dying := by
    rw [h.status]
    decide
  by_cases hi : k.idleThread = some k.cpu
  · rw [if_neg (not_not.mpr hi)]
    exact h.lists.move h.unlisted hlive (by decide) h.lists.ready_nodup (fun _ _ => Iff.rfl) (by simp [h.not_ready, hi])
  · rw [if_pos hi]
    refine h.lists.move h.unlisted hlive (by decide) ?_ (fun u hu => by simp [hu]) (by simp [hi])
    simpa using List.Nodup.concat h.not_ready h.lists.ready_nodup

/-- `thread_yield`. -/
lemma threadYield_spec (hstack : k.current.stack = .threadYield :: rest) :
    Ensures Tolerated (Switches k) (threadYield k rest) := by
  have hlevel := h.setLevel .off
  unfold threadYield
  rw [h.threadCurrent]
  -- the state with the return address saved
  have hgo := hlevel.inv.replace_plain hstack [.intrSetLevel k.intrLevel] (by simp) (by simp)
  refine (schedule_after h hgo.inv.yield ?_ (fun u hu => ?_) ?_ ?_).mono fun k' hk' =>
    ⟨hk'.1, Frame.trans (h.frame ?_ ?_ ?_) ?_ hk'.2⟩
  · split <;> rfl
  · split <;> simp [hu]
  · split <;> simp
  · have hm := h.magic
    split <;> simpa using hm
  · split <;> rfl
  · intro u hu
    split <;> simp [hu]
  · have hawake := h.unlisted.awake
    split <;> simpa using hawake
  · split <;> rfl

/-- The running thread leaves the list of all threads for good. -/
lemma KernelInv.exit (hstack : (k.threads k.cpu).stack = []) :
    Lists ((k.setAll (k.allList.erase k.cpu)).setStatus k.cpu .dying) := by
  have hok := h.lists.thread k.cpu
  have hready := hok.ready
  rw [h.status] at hready
  have hidle : k.idleThread ≠ some k.cpu := by
    intro hi
    have hshape := (hok.idle hi).2
    rw [hstack] at hshape
    cases hshape
  have hempty : ((k.setAll (k.allList.erase k.cpu)).setStatus k.cpu .dying).resources k.cpu = [] := by
    simp [Kernel.resources, hstack]
  refine h.lists.update ⟨?_, fun _ _ => Iff.rfl, fun _ _ _ hu => hu, fun _ _ _ hu => hu, ?_,
    fun _ _ => rfl, rfl, h.lists.ready_nodup, h.lists.waiters_nodup, h.lists.all_nodup.erase _⟩
    (fun u _ => h.unlisted.created u) ?_ ?_ ?_
  · intro u hu
    simp [hu]
  · intro u hu
    exact List.mem_erase_of_ne hu
  · rw [hempty]
    simp
  · rw [hempty]
    simp
  · refine ⟨?_, fun s hs => absurd hs (h.unlisted.waiters s), fun q hq => absurd hq (h.unlisted.waiter q), ?_, ?_, ?_, ?_,
      fun hi => absurd hi hidle, ?_, by rw [hempty]; simp⟩
    · simpa using hready
    · intro hne
      simp [h.unlisted.awake] at hne
    · simp
    · have hnot : k.cpu ∉ k.allList.erase k.cpu := h.lists.all_nodup.not_mem_erase
      simp [hnot]
    · simpa using hok.used
    · simp [hstack]

/-- `thread_exit`. -/
lemma threadExit_spec (hstack : k.current.stack = .threadExit :: rest) :
    Ensures Tolerated (Switches k) (threadExit k) := by
  have hlevel := h.setLevel .off
  have hstack' : (k.setLevel .off).current.stack = .threadExit :: rest := hstack
  have hgo : Stays (k.setLevel .off) ((k.setLevel .off).continueWith []) :=
    hlevel.inv.continueWith_sublist (by simp) (List.nil_sublist _) (by rw [hstack']; simp)
  unfold threadExit
  dsimp only
  rw [hgo.inv.threadCurrent]
  refine (schedule_after h (hgo.inv.exit ?_) rfl (fun u hu => ?_) ?_ ?_).mono fun k' hk' =>
    ⟨hk'.1, Frame.trans (h.frame ?_ ?_ ?_) ?_ hk'.2⟩
  · simp
  · simp [hu]
  · simp
  · simpa using h.magic
  · rfl
  · intro u hu
    simp [hu]
  · simpa using h.unlisted.awake
  · rfl

/-! ## Sleeping -/

/-- The effect of a `timer_sleep (n)` with `n > 0` by the running thread, which goes on with `rest` when it wakes up. -/
structure Sleeps (k : Kernel) (n : ℤ) (rest : List Code) (k' : Kernel) : Prop where
  inv : KernelInv k'
  pos : 0 < n
  ticks : k'.ticks = k.ticks
  sleeper : int64 (k.ticks + n) ≠ 0 → k'.threads k.cpu =
    { k.current with status := .blocked, wakeupTime := int64 (k.ticks + n),
                     stack := .sleepReturn .on :: rest }
  sleeping : ∀ u, u ≠ k.cpu → (k.threads u).wakeupTime ≠ 0 → k'.threads u = k.threads u
  awake : ∀ u, u ≠ k.cpu → (k.threads u).wakeupTime = 0 → (k'.threads u).wakeupTime = 0
  up : ∀ u, u ≠ k.cpu → (k.threads u).isUp → (k'.threads u).isUp

/-- `timer_sleep`. -/
lemma timerSleep_spec {n : ℤ} (hstack : k.current.stack = .timerSleep n :: rest) :
    Ensures Tolerated (fun k' => n ≤ 0 ∧ Switches k k' ∨ Sleeps k n rest k') (timerSleep k n rest) := by
  refine Ensures.ite (fun _ => by simp) fun hon => Ensures.ite (fun hn => ?_) fun hn => ?_
  · exact Or.inl ⟨hn, (h.pop hstack (by simp)).switches⟩
  · rw [h.threadCurrent]
    have hon' : k.intrLevel = .on := by
      cases hk : k.intrLevel with
      | off => exact absurd hk hon
      | on => rfl
    have hgo := (h.setLevel .off).inv.replace_plain hstack [.sleepReturn k.intrLevel] (by simp) (by simp)
    -- blocked with a wakeup time: it is the code it resumes with that allows it
    apply Ensures.ok_bind
    refine (threadBlock_spec h ?_ ?_ ?_ ?_ ?_).mono fun k' hk' => Or.inr ?_
    · rfl
    · intro u hu
      simp [hu]
    · simpa using h.status
    · simpa using h.magic
    · have hl := hgo.inv.lists
      refine hl.relist (t := k.cpu) ⟨?_, fun _ _ => Iff.rfl, fun _ _ _ hu => hu, fun _ _ _ hu => hu,
        fun _ _ => Iff.rfl, fun _ _ => rfl, rfl, hl.ready_nodup, hl.waiters_nodup, hl.all_nodup⟩
        hgo.inv.unlisted.created ?_ ?_ Iff.rfl rfl ?_ ?_ ?_
        (fun s hs => absurd hs (hgo.inv.unlisted.waiters s)) (fun q hq => absurd hq (hgo.inv.unlisted.waiter q)) ?_
      · intro u hu
        simp [hu]
      · simp
      · simp
      · simp [h.status]
      · simp
      · simp [h.not_ready]
      · intro _
        simp [Thread.reason]
    · obtain ⟨hinv, hframe⟩ := hk'
      refine ⟨hinv, by omega, hframe.ticks, fun hne => ?_, fun u hu hs => ?_, fun u hu ha => ?_,
        fun u hu hup => ?_⟩
      · rw [hframe.sleeping k.cpu (by simpa using hne)]
        simp [hon']
      · rw [hframe.sleeping u (by simpa [hu] using hs)]
        simp [hu]
      · exact hframe.awake u (by simpa [hu] using ha)
      · exact hframe.up u hu (by simpa [hu] using hup)

end KernelInv

end OsLabs.Threads
