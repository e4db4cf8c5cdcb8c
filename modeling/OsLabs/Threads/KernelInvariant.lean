import OsLabs.Threads.KernelSteps

/-!
# Every step of the thread system keeps the invariant

The functions that create threads, the timer interrupt, and then the step itself: `kernelExec_spec` says for
every action that the invariant is kept, that the assertions of `thread_current` and `thread_unblock` do not
fail, and what happens to sleeping threads. The statement about the scheduler's lists in all reachable states
is read off the invariant.
-/

namespace OsLabs.Threads

open Lib Function

/-! ## Creating a thread -/

variable {k k₁ : Kernel} {c : Code} {rest : List Code} {t : Page} {f : ThreadFunc}

section KernelInv

variable (h : KernelInv k)
include h

section Current

variable (hstack : k.current.stack = c :: rest)
include hstack

/-- The pages that the next entry of the running thread works on are in the state it expects. -/
lemma KernelInv.pageOk : c.PageOk k := by
  apply (h.lists.thread k.cpu).pages
  rw [show (k.threads k.cpu).stack = c :: rest from hstack]
  exact List.mem_cons_self

/-- Once `idle_thread` is set, the next entry does not carry the right to set it. -/
lemma KernelInv.no_token (hi : k.idleThread ≠ none) :
    .idle ∉ c.resources := by
  intro hc
  apply h.lists.token hi k.cpu
  rw [KernelInv.resources_of_stack hstack]
  exact List.mem_append_left _ hc

/-- A blocked thread that the next entry is creating waits for its first `thread_unblock`. -/
lemma KernelInv.created (hc : .page t ∈ c.resources)
    (hb : (k.threads t).status = .blocked) :
    (k.threads t).reason = .created ∧ idleShape (k.threads t).stack = false := by
  have hmem : .page t ∈ k.resources k.cpu := by
    rw [KernelInv.resources_of_stack hstack]
    exact List.mem_append_left _ hc
  rcases h.lists.being_created hmem with ⟨hd, _⟩ | ⟨_, hcreated⟩
  · rw [hb] at hd
    cases hd
  · exact hcreated

/-- After the entry that holds it is popped, nobody holds a resource. -/
lemma KernelInv.popped {r : Resource}
    (hr : r ∈ c.resources) (u : Page) : r ∉ (k.continueWith rest).resources u := by
  have hres := KernelInv.resources_of_stack hstack
  have hmem : r ∈ k.resources k.cpu := by
    rw [hres]
    exact List.mem_append_left _ hr
  by_cases hu : u = k.cpu
  · have hnd := (h.lists.thread k.cpu).nodup
    rw [hres] at hnd
    have hdisj := (List.nodup_append'.mp hnd).2.2
    have hrest : (k.continueWith rest).resources u = resources rest := by
      simp [Kernel.resources, hu]
    rw [hrest]
    exact hdisj hr
  · have hsame : (k.continueWith rest).resources u = k.resources u := by
      simp [Kernel.resources, hu]
    rw [hsame]
    intro hc
    exact hu (h.lists.unique u k.cpu r hc hmem)

omit hstack in
/-- The running thread gets code with resources that nobody holds. -/
lemma KernelInv.acquire (hstack : k.current.stack = rest) (new : List Code)
    (hfree : ∀ r ∈ resources new, ∀ u, r ∉ k.resources u) (hnodup : (resources new).Nodup)
    (htoken : k.idleThread ≠ none → .idle ∉ resources new) (hpages : ∀ c ∈ new, c.PageOk k)
    (hidle : k.idleThread ≠ some k.cpu) : Stays k (k.continueWith (new ++ rest)) := by
  have hcur : k.resources k.cpu = resources rest := by
    rw [← hstack]
    rfl
  refine h.continueWith ?_ ?_ ?_ ?_ fun hi => absurd hi hidle
  · intro c hc
    rcases List.mem_append.mp hc with hc | hc
    · exact hpages c hc
    · apply (h.lists.thread k.cpu).pages c
      rw [show (k.threads k.cpu).stack = rest from hstack]
      exact hc
  · rw [resources_append]
    refine List.nodup_append'.mpr ⟨hnodup, ?_, fun r hr hr' => ?_⟩
    · rw [← hcur]
      exact (h.lists.thread k.cpu).nodup
    · rw [← hcur] at hr'
      exact hfree r hr k.cpu hr'
  · rw [resources_append]
    intro r hr u hu
    rcases List.mem_append.mp hr with hr | hr
    · exact hfree r hr u
    · intro hc
      rw [← hcur] at hr
      exact hu (h.lists.unique u k.cpu r hc hr)
  · rw [resources_append]
    intro hne hc
    rcases List.mem_append.mp hc with hc | hc
    · exact htoken hne hc
    · rw [← hcur] at hc
      exact h.lists.token hne k.cpu hc

/-- A thread whose next entry the idle thread never has is not the idle thread. -/
lemma KernelInv.not_idle (hc : c ≠ .idleBlock)
    (hsafe : c.idleSafe = false) : k.idleThread ≠ some k.cpu := by
  intro hi
  have hshape := ((h.lists.thread k.cpu).idle hi).2
  cases c <;> simp_all

end Current

/-- Marking a page as used. -/
lemma KernelInv.usePage (t : Page) : Stays k (k.usePage t) := by
  have hmono : ∀ u, k.usedMap u = true → (k.usePage t).usedMap u = true := by
    intro u hu
    by_cases hut : u = t
    · simp [hut]
    · simpa [hut] using hu
  have hok : ∀ u, ThreadOk (k.usePage t) u := by
    intro u
    have hu := h.lists.thread u
    exact ⟨hu.ready, hu.waiting, hu.waiter, hu.sleeping, hu.live, hu.all,
      fun hmagic => hmono u (hu.used hmagic), hu.idle,
      fun c hc => (hu.pages c hc).congr fun p _ => ⟨rfl, hmono p⟩, hu.nodup⟩
  exact h.stays ⟨hok, h.lists.ready_nodup, h.lists.waiters_nodup, h.lists.all_nodup, h.lists.unique,
    h.lists.token⟩ rfl rfl rfl

/-- The allocator hands out a page: it was free, so it holds no thread and nobody is creating one there. -/
lemma alloc_spec {priority : ℤ} (hstack : k.current.stack = .pallocScan priority f :: rest)
    (hfree : k.usedMap t = false) :
    Stays k (((k.continueWith rest).usePage t).continueWith
      (.lockRelease .pool :: .initThread t priority f :: rest)) := by
  have hm : (k.threads t).magic = false := by
    by_contra hc
    have hused := (h.lists.thread t).used (by simpa using hc)
    rw [hfree] at hused
    cases hused
  have hd : (k.threads t).status = .dying := by
    by_contra hc
    have hlive := (h.lists.thread t).live hc
    rw [hm] at hlive
    cases hlive
  have hne : t ≠ k.cpu := h.ne_cpu (by rw [hd]; decide)
  have hidle := h.not_idle hstack (by simp) rfl
  have hpop := h.pop hstack (by simp)
  have huse := hpop.trans (hpop.inv.usePage t)
  refine huse.trans (huse.inv.acquire (by simp)
    [.lockRelease .pool, .initThread t priority f] ?_ ?_ ?_ ?_ hidle)
  · have hnobody : ∀ u, .page t ∉ (k.continueWith rest).resources u := by
      intro u hu
      rcases hpop.inv.lists.being_created hu with ⟨_, _, hused⟩ | ⟨hb, _⟩
      · rw [Kernel.continueWith_usedMap, hfree] at hused
        cases hused
      · rw [Kernel.continueWith_threads, update_of_ne hne, hd] at hb
        cases hb
    intro r hr u
    have hr' : r = .page t ∨ r ∈ f.resources := by simpa using hr
    rcases hr' with rfl | hr'
    · exact hnobody u
    · exact h.popped hstack hr' u
  · cases f <;> simp [ThreadFunc.resources]
  · intro hi hc
    exact h.no_token hstack hi (by simpa using hc)
  · intro c hc
    rcases List.mem_cons.mp hc with rfl | hc
    · trivial
    · rw [List.mem_singleton.mp hc]
      exact ⟨by simpa [hne] using hd, by simpa [hne] using hm, by simp⟩

omit h in
/-- A new thread on a page without one: it is blocked and in no list but `all_list`. -/
lemma Lists.addThread (h : Lists k) (hd : (k.threads t).status = .dying) (hused : k.usedMap t = true)
    (hnobody : ∀ u, .page t ∉ k.resources u) (priority : ℤ) :
    Lists ((k.setThread t
      { tid := 0, status := .blocked, wakeupTime := 0, priority, magic := true, stack := [] }).setAll
        (k.allList ++ [t])) := by
  have hok := h.thread t
  obtain ⟨hwaiters, hwaiter, _⟩ := h.of_not_blocked (by rw [hd]; decide)
  have hnotReady : t ∉ k.readyList := h.not_ready (by rw [hd]; decide)
  have hnotAll : t ∉ k.allList := fun hc => (hok.all.mp hc) hd
  have hnotIdle : k.idleThread ≠ some t := fun hi => (hok.idle hi).1 hd
  refine h.update ⟨?_, fun _ _ => Iff.rfl, fun _ _ _ hu => hu, fun _ _ _ hu => hu, ?_,
    fun _ _ => rfl, rfl, h.ready_nodup, h.waiters_nodup, ?_⟩ (fun u _ => hnobody u) ?_ ?_ ?_
  · intro u hu
    simp [hu]
  · intro u hu
    simp [hu]
  · simpa using List.Nodup.concat hnotAll h.all_nodup
  · simp [Kernel.resources]
  · simp [Kernel.resources]
  · refine ⟨?_, fun s hs => absurd hs (hwaiters s), fun q hq => absurd hq (hwaiter q), ?_, ?_, ?_, ?_,
      fun hi => absurd hi hnotIdle, ?_, ?_⟩
    · simp [hnotReady]
    · simp
    · simp
    · simp
    · simpa using hused
    · simp
    · simp [Kernel.resources]

/-- `init_thread` on the page the allocator handed out. -/
lemma initThread_spec {priority : ℤ}
    (hstack : k.current.stack = .initThread t priority f :: rest) :
    Ensures Tolerated (Stays k) (do
      let k ← initThread (k.continueWith rest) t priority
      return k.continueWith (.lockAcquire .tid :: .allocateTid t f :: rest)) := by
  obtain ⟨hd, _, hused⟩ : Code.PageOk k (.initThread t priority f) := h.pageOk hstack
  have hne : t ≠ k.cpu := h.ne_cpu (by rw [hd]; decide)
  have hne' : k.cpu ≠ t := fun hc => hne hc.symm
  have hpop := h.pop hstack (by simp)
  unfold initThread
  by_cases hpri : priMin ≤ priority ∧ priority ≤ priMax
  · rw [if_pos hpri]
    have hd' : ((k.continueWith rest).threads t).status = .dying := by simpa [hne] using hd
    have hawake := (hpop.inv.lists.of_not_blocked (by rw [hd']; decide)).2.2
    have hinit : Stays (k.continueWith rest) (((k.continueWith rest).setThread t
        { tid := 0, status := .blocked, wakeupTime := 0, priority, magic := true, stack := [] }).setAll
          ((k.continueWith rest).allList ++ [t])) := by
      refine hpop.inv.stays_of_update (hpop.inv.lists.addThread hd' hused
        (h.popped hstack (by simp)) priority) t (fun u hu => ?_) ?_ ?_ hawake ?_ rfl rfl
      · simp [hu]
      · simp [Thread.isUp, hne, hd]
      · simp
      · simp
    have hbefore := hpop.trans hinit
    refine hbefore.trans (hbefore.inv.acquire (by simp [hne'])
      [.lockAcquire .tid, .allocateTid t f] ?_ ?_ ?_ ?_ (h.not_idle hstack (by simp) rfl))
    · intro r hr u
      have hfree := h.popped hstack (by simpa using hr) u
      by_cases hut : u = t
      · simp [hut, Kernel.resources]
      · simpa [Kernel.resources, hut] using hfree
    · cases f <;> simp [ThreadFunc.resources]
    · intro hi hc
      exact h.no_token hstack hi (by simpa using hc)
    · intro c hc
      rcases List.mem_cons.mp hc with rfl | hc
      · trivial
      · rw [List.mem_singleton.mp hc]
        exact ⟨by simp, Or.inl (by simp)⟩
  · rw [if_neg hpri]
    simp

omit h in
/-- A thread that is fully initialised but not yet unblocked is in no wait list. -/
lemma Lists.of_created (h : Lists k) (hreason : (k.threads t).reason = .created) :
    (∀ s, t ∉ (k.semas s).waiters) ∧ (∀ q, k.waiter q ≠ some t) ∧ (k.threads t).wakeupTime = 0 := by
  refine ⟨fun s => h.not_waiting ?_, fun q => h.not_waiter ?_, h.not_sleeping ?_⟩
  · simp [hreason]
  · simp [hreason]
  · simp [hreason]

/-- The frames of the new thread's stack. -/
lemma initStack_spec {tid : ℕ} (hstack : k.current.stack = .initStack t tid f :: rest) :
    Stays k (((k.continueWith rest).setThread t
      { k.threads t with tid, stack := [.kernelThread f] }).continueWith (.threadUnblock t :: rest)) := by
  have hpages : Code.PageOk k (.initStack t tid f) := h.pageOk hstack
  have hb : (k.threads t).status = .blocked := hpages.1
  have hcreated := h.created hstack (by simp) hb
  have hne : t ≠ k.cpu := h.ne_cpu (by rw [hb]; decide)
  have hne' : k.cpu ≠ t := fun hc => hne hc.symm
  have hpop := h.pop hstack (by simp)
  obtain ⟨hwaiters, hwaiter, hawake⟩ := h.lists.of_created hcreated.1
  have hok := h.lists.thread t
  have hinit : Stays (k.continueWith rest) ((k.continueWith rest).setThread t
      { k.threads t with tid, stack := [.kernelThread f] }) := by
    refine hpop.inv.stays_of_update (hpop.inv.lists.update (hpop.inv.lists.setThread_changesOnly t _)
      ?_ ?_ ?_ ?_) t (fun u hu => ?_) ?_ ?_ ?_ ?_ rfl rfl
    · intro u _
      exact h.popped hstack (by simp) u
    · intro r hr u _
      have hr' : r ∈ f.resources := by simpa [Kernel.resources] using hr
      exact h.popped hstack (List.mem_cons_of_mem _ hr') u
    · intro hi hc
      exact h.no_token hstack hi (by simpa [Kernel.resources] using hc)
    · refine ⟨?_, fun s hs => absurd hs (hwaiters s), fun q hq => absurd hq (hwaiter q), ?_, ?_, ?_, ?_,
        ?_, ?_, ?_⟩
      · simpa using hok.ready
      · intro hc
        simp [hawake] at hc
      · simpa using hok.live
      · simpa using hok.all
      · simpa using hok.used
      · intro hi
        have hshape := (hok.idle hi).2
        rw [hcreated.2] at hshape
        cases hshape
      · simp
      · cases f <;> simp [Kernel.resources, ThreadFunc.resources]
    · simp [hu]
    · simp [Thread.isUp, hne, hb]
    · simp [hb]
    · simpa [hne] using hawake
    · simpa using hawake
  have hbefore := hpop.trans hinit
  refine hbefore.trans (hbefore.inv.acquire (by simp [hne']) [.threadUnblock t] ?_ ?_ ?_ ?_
    (h.not_idle hstack (by simp) rfl))
  · intro r hr u
    have hr' : r = .page t := by simpa using hr
    subst hr'
    have hfree := h.popped hstack (r := .page t) (by simp) u
    by_cases hut : u = t
    · cases f <;> simp [hut, Kernel.resources, ThreadFunc.resources]
    · simpa [Kernel.resources, hut] using hfree
  · simp
  · intro _
    simp
  · intro c hc
    rw [List.mem_singleton.mp hc]
    exact ⟨by simpa using hb, Or.inr ⟨f, by simp⟩⟩

/-- The first `thread_unblock` of a new thread. -/
lemma firstUnblock_spec (hstack : k.current.stack = .threadUnblock t :: rest) :
    Ensures Tolerated (Stays k) (threadUnblock (k.continueWith rest) t) := by
  have hpages : Code.PageOk k (.threadUnblock t) := h.pageOk hstack
  have hb : (k.threads t).status = .blocked := hpages.1
  have hcreated := h.created hstack (by simp) hb
  have hne : t ≠ k.cpu := h.ne_cpu (by rw [hb]; decide)
  have hpop := h.pop hstack (by simp)
  obtain ⟨hwaiters, hwaiter, hawake⟩ := h.lists.of_created hcreated.1
  refine (threadUnblock_spec hpop.inv ?_ ⟨hwaiters, hwaiter, ?_, h.popped hstack (by simp)⟩ ?_).mono fun k' => hpop.trans
  · simpa [hne] using hb
  · simpa [hne] using hawake
  · intro hi
    have hshape := ((h.lists.thread t).idle hi).2
    rw [hcreated.2] at hshape
    cases hshape

/-- The first statement of `idle`. -/
lemma idle_spec (hstack : k.current.stack = .idle :: rest) :
    Stays k ((k.continueWith (.semaUp .idleStarted :: .idleBlock :: rest)).setIdle k.cpu) := by
  have hst := h.status
  -- the running thread has the right to set `idle_thread`, so it is not set yet
  have hnone : k.idleThread = none := by
    by_contra hne
    exact h.no_token hstack hne (by simp)
  have hgo : Stays k (k.continueWith ([.semaUp .idleStarted, .idleBlock] ++ rest)) :=
    h.replace_plain hstack _ (by simp) (by simp)
  have hl := hgo.inv.lists
  have hready : ∀ u, u ∈ k.readyList ↔
      ((k.continueWith (.semaUp .idleStarted :: .idleBlock :: rest)).threads u).status = .ready ∧
        some k.cpu ≠ some u := by
    intro u
    have hu : u ∈ k.readyList ↔ _ := (hl.thread u).ready
    rw [hu]
    by_cases huc : u = k.cpu
    · simp [huc, hst]
    · have hcu : k.cpu ≠ u := fun hc => huc hc.symm
      simp [hcu, hnone]
  have hok : ∀ u, ThreadOk ((k.continueWith (.semaUp .idleStarted :: .idleBlock :: rest)).setIdle k.cpu) u := by
    intro u
    have hu := hl.thread u
    refine ⟨hready u, hu.waiting, hu.waiter, hu.sleeping, hu.live, hu.all, hu.used, ?_,
      fun c hc => (hu.pages c hc).congr fun p _ => ⟨rfl, fun hp => hp⟩, hu.nodup⟩
    intro hi
    obtain rfl : k.cpu = u := by simpa using hi
    simp [hst]
  refine hgo.trans (hgo.inv.stays ⟨hok, hl.ready_nodup, hl.waiters_nodup, hl.all_nodup, hl.unique, ?_⟩
    rfl rfl rfl)
  intro _ u hc
  have hfree := h.popped hstack (r := .idle) (by simp) u
  apply hfree
  by_cases huc : u = k.cpu
  · simpa [Kernel.resources, huc] using hc
  · simpa [Kernel.resources, huc] using hc

/-! ## The timer interrupt -/

/-- The thread sleeps and `now` is past its wakeup time. -/
def Thread.due (th : Thread) (now : ℤ) : Prop :=
  th.status = .blocked ∧ th.wakeupTime > 0 ∧ th.wakeupTime ≤ now

instance (th : Thread) (now : ℤ) : Decidable (th.due now) := by
  unfold Thread.due
  infer_instance

/-- What `update_sleeping_threads` makes of a thread. -/
def Thread.wake (th : Thread) (now : ℤ) : Thread :=
  if th.due now then { th with wakeupTime := 0, status := .ready } else th

/-- `update_sleeping_threads` on one thread. -/
lemma updateSleepingThreads_spec (now : ℤ) (t : Page) :
    Ensures Tolerated (fun k' => KernelInv k' ∧ k'.cpu = k.cpu ∧ k'.ticks = k.ticks ∧
      k'.allList = k.allList ∧ k'.threads = update k.threads t ((k.threads t).wake now))
      (updateSleepingThreads now k t) := by
  unfold updateSleepingThreads Thread.wake
  refine Ensures.ite (fun hdue => ?_) fun hdue => ?_
  · obtain ⟨hb, hpos, _⟩ := hdue
    have hreason := ((h.lists.thread t).sleeping (by omega)).2
    -- the thread sleeps, so it is in no other list: take the wakeup time away first
    have hl : Lists (k.setThread t { k.threads t with wakeupTime := 0 }) := by
      refine h.lists.relist (h.lists.setThread_changesOnly t _)
        (h.lists.not_created_of_reason hb (by simp [hreason])) ?_ ?_ Iff.rfl rfl (by rw [hb]; decide) ?_ ?_
        (fun s hs => ?_) (fun q hq => ?_) ?_
      · simp
      · simp
      · simp [hb]
      · simpa using (h.lists.thread t).ready
      · simpa using (h.lists.thread t).waiting s hs
      · simpa using (h.lists.thread t).waiter q hq
      · simp
    have hr : Running (k.setThread t { k.threads t with wakeupTime := 0 }) := by
      refine ⟨?_, fun u hu => ?_⟩
      · have hne : k.cpu ≠ t := (h.ne_cpu (by rw [hb]; decide)).symm
        simpa [hne] using h.status
      · by_cases hut : u = t
        · subst hut
          simp [hb] at hu
        · exact h.running.only u (by simpa [hut] using hu)
    have hb' : ((k.setThread t { k.threads t with wakeupTime := 0 }).threads t).status = .blocked := by
      simpa using hb
    rw [threadUnblock_eq hl hb']
    have hreason' : ((k.setThread t { k.threads t with wakeupTime := 0 }).threads t).reason = .sleep := by
      simpa [Thread.reason] using hreason
    refine ⟨⟨hl.unblock hb' ⟨fun s => hl.not_waiting ?_, fun q => hl.not_waiter ?_, by simp, ?_⟩ ?_,
      hr.unblock hb'⟩, rfl, rfl, rfl, ?_⟩
    · rw [hreason']
      simp
    · rw [hreason']
      simp
    · exact hl.not_created_of_reason hb' (by rw [hreason']; decide)
    · exact hl.not_idle_of_reason (by rw [hreason']; decide) (by rw [hreason']; decide)
    · simp [Thread.due, *]
  · have hdue' : ¬(k.threads t).due now := hdue
    rw [if_neg hdue']
    exact ⟨h, rfl, rfl, rfl, by simp⟩

/-- `thread_foreach (update_sleeping_threads, &now)`: every sleeping thread that is due wakes up, nothing else
happens to any thread. -/
lemma threadForeach_spec (now : ℤ) :
    Ensures Tolerated (fun k' => KernelInv k' ∧ k'.cpu = k.cpu ∧ k'.ticks = k.ticks ∧
      ∀ u, k'.threads u = (k.threads u).wake now) (threadForeach k (updateSleepingThreads now)) := by
  -- the threads already visited are woken, the others are as they were
  refine (Ensures.foldlM (fun done _ k' => KernelInv k' ∧ k'.cpu = k.cpu ∧ k'.ticks = k.ticks ∧
    ∀ u, k'.threads u = if u ∈ done then (k.threads u).wake now else k.threads u) ?_ ?_).mono ?_
  · rintro done t rest k₁ hlist ⟨hinv, hcpu, hticks, hth⟩
    refine (updateSleepingThreads_spec hinv now t).mono ?_
    rintro k' ⟨hinv', hcpu', hticks', _, hth'⟩
    refine ⟨hinv', hcpu'.trans hcpu, hticks'.trans hticks, fun u => ?_⟩
    -- each thread is visited once
    have hnot : t ∉ done := by
      have hnd := h.lists.all_nodup
      rw [hlist] at hnd
      intro hc
      exact (List.nodup_append'.mp hnd).2.2 hc List.mem_cons_self
    rw [hth']
    by_cases hut : u = t
    · subst hut
      rw [hth u, if_neg hnot]
      simp
    · rw [update_of_ne hut, hth u]
      simp [hut]
  · exact ⟨h, rfl, rfl, fun u => by simp⟩
  · rintro k' ⟨hinv, hcpu, hticks, hth⟩
    refine ⟨hinv, hcpu, hticks, fun u => ?_⟩
    rw [hth u]
    by_cases hu : u ∈ k.allList
    · rw [if_pos hu]
    · -- a page that is not in `all_list` holds no thread that could sleep
      have hd : (k.threads u).status = .dying := by
        by_contra hc
        exact hu ((h.lists.thread u).all.mpr hc)
      rw [if_neg hu, Thread.wake, if_neg (by simp [Thread.due, hd])]

/-- The effect of a timer interrupt. -/
structure Ticks (k k' : Kernel) : Prop where
  inv : KernelInv k'
  cpu : k'.cpu = k.cpu
  ticks : k'.ticks = k.ticks + 1
  threads : ∀ u, u ≠ k.cpu → k'.threads u = (k.threads u).wake (k.ticks + 1)
  current : k'.threads k.cpu = { k.current with stack := .intrReturn :: k.current.stack }

lemma threadTick_spec :
    Ensures Tolerated (fun k' => KernelInv k' ∧ k'.cpu = k.cpu ∧ k'.ticks = k.ticks ∧
      k'.threads = k.threads) (threadTick k) := by
  unfold threadTick
  rw [h.threadCurrent]
  apply Ensures.ok_bind
  -- only counters and `yield_on_return` change
  have hcount : ∀ k₁ : Kernel, k₁.threads = k.threads → k₁.cpu = k.cpu → Lists k₁ → KernelInv k₁ :=
    fun k₁ hth hcpu hl => ⟨hl, h.running.of_threads hth hcpu⟩
  dsimp only
  split <;> split <;>
    exact ⟨hcount _ rfl rfl (h.lists.congr rfl rfl rfl rfl rfl rfl rfl), rfl, rfl, rfl⟩

/-- The frame an interrupt leaves on the running thread's stack. -/
lemma KernelInv.pushReturn : Stays k (k.continueWith (.intrReturn :: k.current.stack)) := by
  refine h.continueWith_sublist ?_ ?_ ?_
  · intro c hc
    rcases List.mem_cons.mp hc with rfl | hc
    · trivial
    · exact (h.lists.thread k.cpu).pages c hc
  · exact List.Sublist.refl _
  · intro hshape
    simpa using hshape

/-- The timer interrupt, up to the point where it may yield. -/
lemma timer_spec : Ensures Tolerated (Ticks k) (intrHandler k timerInterrupt) := by
  refine Ensures.ite (fun _ => trivial) fun _ => ?_
  have hentry : KernelInv { k with intrLevel := .off, yieldOnReturn := false } :=
    ⟨h.lists.congr rfl rfl rfl rfl rfl rfl rfl, h.running.of_threads rfl rfl⟩
  unfold timerInterrupt
  by_cases hmax : k.ticks + 1 < 2 ^ 63
  · rw [if_pos hmax]
    have hset : KernelInv (({ k with intrLevel := .off, yieldOnReturn := false } : Kernel).setTicks
        (k.ticks + 1)) :=
      ⟨hentry.lists.congr rfl rfl rfl rfl rfl rfl rfl, hentry.running.of_threads rfl rfl⟩
    have hhandler : Ensures Tolerated (fun k' => KernelInv k' ∧ k'.cpu = k.cpu ∧
        k'.ticks = k.ticks + 1 ∧ ∀ u, k'.threads u = (k.threads u).wake (k.ticks + 1)) (do
          let k₁ ← threadTick (({ k with intrLevel := .off, yieldOnReturn := false } : Kernel).setTicks
            (k.ticks + 1))
          threadForeach k₁ (updateSleepingThreads (k.ticks + 1))) := by
      refine (threadTick_spec hset).bind ?_
      rintro k₁ ⟨hinv, hcpu, hticks, hth⟩
      refine (threadForeach_spec hinv (k.ticks + 1)).mono ?_
      rintro k₂ ⟨hinv₂, hcpu₂, hticks₂, hth₂⟩
      refine ⟨hinv₂, hcpu₂.trans hcpu, hticks₂.trans hticks, fun u => ?_⟩
      rw [hth₂ u, hth]
      rfl
    refine hhandler.bind ?_
    rintro k₁ ⟨hinv, hcpu, hticks, hth⟩
    -- the running thread is not asleep
    have hcur : k₁.threads k.cpu = k.threads k.cpu := by
      have hst := h.status
      rw [hth, Thread.wake, if_neg (by simp [Thread.due, hst])]
    refine ⟨hinv.pushReturn.inv, hcpu, hticks, fun u hu => ?_, ?_⟩
    · rw [← hcpu] at hu
      simp [hu, hth u]
    · simp [hcpu, hcur]
  · rw [if_neg hmax]
    simp

omit h in
lemma semaTryDown_waiters (sema : Semaphore Page) :
    (semaTryDown sema).1.waiters = sema.waiters := by
  rcases Nat.eq_zero_or_pos sema.value with hv | hv
  · rw [semaTryDown_of_zero hv]
  · rw [semaTryDown_of_pos hv]

/-- A call of an interrupt handler. -/
lemma handlerCall_spec (c : HandlerCall) :
    Ensures Tolerated (Stays k) (handlerCall k c) := by
  cases c with
  | semaUp s => exact semaUpTurn_spec h s
  | semaTryDown s =>
    refine h.stays (h.lists.setSema_sublist s ?_) rfl rfl rfl
    rw [semaTryDown_waiters]
  | intqSignal q => exact intqSignal_spec h q

/-- An interrupt of another device. -/
lemma interrupt_spec (calls : List HandlerCall) :
    Ensures Tolerated (Switches k) (intrHandler k fun k => calls.foldlM handlerCall k) := by
  refine Ensures.ite (fun _ => trivial) fun _ => ?_
  have hentry : Stays k { k with intrLevel := .off, yieldOnReturn := false } :=
    h.stays (h.lists.congr rfl rfl rfl rfl rfl rfl rfl) rfl rfl rfl
  have hcalls : Ensures Tolerated (Stays k)
      (calls.foldlM handlerCall { k with intrLevel := .off, yieldOnReturn := false }) := by
    refine Ensures.foldlM (fun _ _ k' => Stays k k') ?_ hentry
    intro _ c _ k₁ _ hk₁
    exact (handlerCall_spec hk₁.inv c).mono fun k' => hk₁.trans
  exact hcalls.bind fun k' hk' => (hk'.trans hk'.inv.pushReturn).switches

end KernelInv

/-! ## One step -/

lemma Stays.setLevel (h : Stays k k₁) (level : IntrLevel) : Stays k (k₁.setLevel level) :=
  h.trans (h.inv.setLevel level)

lemma Stays.setLockHolder (h : Stays k k₁) (l : LockId) (t : Option Page) : Stays k (k₁.setLockHolder l t) :=
  have hl : Lists (k₁.setLockHolder l t) := h.inv.lists.congr rfl rfl rfl rfl rfl rfl rfl
  h.trans (h.inv.stays hl rfl rfl rfl)

lemma Stays.setNextTid (h : Stays k k₁) (n : ℕ) : Stays k (k₁.setNextTid n) :=
  have hl : Lists (k₁.setNextTid n) := h.inv.lists.congr rfl rfl rfl rfl rfl rfl rfl
  h.trans (h.inv.stays hl rfl rfl rfl)

lemma Stays.setSema (h : Stays k k₁) (s : SemaId) {sema : Semaphore Page}
    (hsub : sema.waiters.Sublist (k₁.semas s).waiters) : Stays k (k₁.setSema s sema) :=
  h.trans (h.inv.stays (h.inv.lists.setSema_sublist s hsub) rfl rfl rfl)

/-- Code other than `timer_sleep`: the running thread goes on, or another one is switched to. -/
lemma execCode_spec (h : KernelInv k) (hstack : k.current.stack = c :: rest) (hc : ∀ n, c ≠ .timerSleep n) :
    Ensures Tolerated (Switches k) (execCode k rest c) := by
  have hcur := h.threadCurrent
  -- the running thread goes on with `new`
  have plain : ∀ new : List Code, (∀ c' ∈ new, c'.resources = []) →
      (idleShape (c :: rest) = true → idleShape (new ++ rest) = true) →
      Stays k (k.continueWith (new ++ rest)) := fun new => h.replace_plain hstack new
  have switches : ∀ {r : Outcome Kernel}, Ensures Tolerated (Stays k) r →
      Ensures Tolerated (Switches k) r := fun hr => hr.mono fun _ => Stays.switches
  -- popping an entry the idle thread never has
  have pop : idleShape (c :: rest) = false → Stays k (k.continueWith rest) := fun hno =>
    plain [] (by simp) (by simp [hno])
  cases c with
  | client => trivial
  | kernelThread f =>
    have hgo := h.replace hstack (f.code ++ [.threadExit])
      (by cases f <;> simp [ThreadFunc.code, ThreadFunc.resources])
      (by cases f <;> simp [ThreadFunc.code]) (by simp)
    rw [List.append_assoc] at hgo
    exact (hgo.setLevel .on).switches
  | threadExit => exact threadExit_spec h hstack
  | idle =>
    simp only [execCode]
    rw [hcur]
    exact (idle_spec h hstack).switches
  | idleBlock =>
    have hlevel := h.setLevel .off
    have hgo := hlevel.inv.replace_plain hstack [.idleHalt, .idleBlock] (by simp) (by simp)
    refine Ensures.mono (block_with_spec hlevel.inv hgo ?_ ?_ ?_ ?_) fun k' hk' => ?_
    · rfl
    · rfl
    · rfl
    · exact fun hblocked => hblocked
    · exact ⟨hk'.inv, hlevel.frame.trans hlevel.cpu hk'.frame⟩
  | idleHalt =>
    exact ((plain [] (by simp) (by simp)).setLevel .on).switches
  | intrSetLevel l =>
    exact ((plain [] (by simp) (by simp)).setLevel l).switches
  | intrReturn =>
    refine Ensures.ite (fun _ => ?_) fun _ => ?_
    · exact (plain [.threadYield, .iret] (by simp)
        (by simp)).switches
    · exact (plain [.iret] (by simp) (by simp)).switches
  | iret =>
    exact ((plain [] (by simp) (by simp)).setLevel .on).switches
  | semaInit s value =>
    exact ((pop (by simp)).setSema s (List.nil_sublist _)).switches
  | semaDown s =>
    have hlevel := h.setLevel .off
    refine (semaDownTurn_spec hlevel.inv s k.intrLevel hstack (by simp)).mono
      fun k' hk' => ⟨hk'.inv, ?_⟩
    exact hlevel.frame.trans hlevel.cpu hk'.frame
  | semaDownLoop s old =>
    exact semaDownTurn_spec h s old hstack (by simp)
  | semaTryDown s =>
    refine ((pop (by simp)).setSema s ?_).switches
    rw [semaTryDown_waiters]
    exact List.Sublist.refl _
  | semaUp s =>
    have hgo := plain [] (by simp) (by simp)
    exact switches ((semaUpTurn_spec hgo.inv s).mono fun k' => hgo.trans)
  | lockAcquire l =>
    simp only [execCode]
    rw [hcur]
    apply Ensures.ok_bind
    refine Ensures.ite (fun _ => by simp) fun _ => ?_
    exact (plain [.semaDown (.lock l), .setHolder l] (by simp)
      (by simp)).switches
  | lockTryAcquire l =>
    simp only [execCode]
    rw [hcur]
    apply Ensures.ok_bind
    refine Ensures.ite (fun _ => by simp) fun _ => ?_
    exact (plain [.lockTryDown l] (by simp)
      (by simp)).switches
  | lockTryDown l =>
    simp only [execCode]
    rcases Nat.eq_zero_or_pos (k.semas (.lock l)).value with hv | hv
    · rw [semaTryDown_of_zero hv]
      exact ((pop (by simp)).setSema _ (List.Sublist.refl _)).switches
    · rw [semaTryDown_of_pos hv]
      have hgo := plain [.setHolder l] (by simp) (by simp)
      have htaken : Stays k ((k.continueWith (.setHolder l :: rest)).setSema (.lock l)
          { k.semas (.lock l) with value := (k.semas (.lock l)).value - 1 }) :=
        hgo.setSema _ (List.Sublist.refl _)
      exact htaken.switches
  | setHolder l =>
    simp only [execCode]
    rw [hcur]
    exact ((pop (by simp)).setLockHolder l _).switches
  | lockRelease l =>
    simp only [execCode]
    rw [hcur]
    apply Ensures.ok_bind
    refine Ensures.ite (fun _ => by simp) fun _ => ?_
    exact ((plain [.semaUp (.lock l)] (by simp)
      (by simp)).setLockHolder l none).switches
  | threadCreate priority f =>
    exact (h.replace hstack [.lockAcquire .pool, .pallocScan priority f]
      (by simp) (by simp)
      (by simp)).switches
  | pallocScan priority f => trivial
  | initThread t priority f => exact switches (initThread_spec h hstack)
  | allocateTid t f =>
    have hpage : Code.PageOk k (.allocateTid t f) := h.pageOk hstack
    have hgo := h.replace hstack [.lockRelease .tid, .initStack t k.nextTid f]
      (by simp)
      (by
        intro c' hc'
        rcases List.mem_cons.mp hc' with rfl | hc'
        · trivial
        · rw [List.mem_singleton.mp hc']
          exact hpage)
      (by simp)
    exact (hgo.setNextTid (k.nextTid + 1)).switches
  | initStack t tid f => exact (initStack_spec h hstack).switches
  | threadUnblock t => exact switches (firstUnblock_spec h hstack)
  | timerSleep n => exact absurd rfl (hc n)
  | sleepReturn old => exact ((pop (by simp)).setLevel old).switches
  | threadYield => exact threadYield_spec h hstack
  | intqWait q =>
    refine Ensures.ite (fun _ => by simp) fun _ => ?_
    rw [hcur]
    apply Ensures.ok_bind
    refine block_with_spec h (plain [.intqReturn q] (by simp) (by simp)) rfl rfl rfl fun hblocked => hblocked.setWaiter q ?_
    intro t ht
    obtain rfl : k.cpu = t := by simpa using ht
    simp [Thread.reason]
  | intqReturn q => exact (pop (by simp)).switches
  | intqSignal q =>
    refine Ensures.ite (fun _ => by simp) fun _ => ?_
    have hgo := pop (by simp)
    exact switches ((intqSignal_spec hgo.inv q).mono fun k' => hgo.trans)

/-- What an action does, as far as sleeping threads are concerned. -/
inductive StepResult (k : Kernel) : KernelAction → Kernel → Prop
  | switches {a : KernelAction} {k' : Kernel} (hne : a ≠ .timer) (h : Switches k k') : StepResult k a k'
  | sleeps {n : ℤ} {rest : List Code} {k' : Kernel}
      (hstack : k.current.stack = .timerSleep n :: rest) (h : Sleeps k n rest k') :
      StepResult k .exec k'
  | ticks {k' : Kernel} (h : Ticks k k') : StepResult k .timer k'

lemma StepResult.inv {k' : Kernel} {a : KernelAction} (h : StepResult k a k') : KernelInv k' := by
  cases h with
  | switches _ h => exact h.inv
  | sleeps _ h => exact h.inv
  | ticks h => exact h.inv

lemma Code.resources_of_isCall (h : c.isCall = true) : c.resources = [] := by
  cases c with
  | threadCreate _ f => cases f <;> simp_all [Code.isCall, ThreadFunc.resources]
  | _ => simp_all [Code.isCall]

/-- Every step keeps the invariant and fails no assertion of `thread_current` or `thread_unblock`. -/
lemma kernelExec_spec (h : KernelInv k) (a : KernelAction) :
    Ensures Tolerated (StepResult k a) (kernelExec k a) := by
  cases a with
  | exec =>
    simp only [kernelExec]
    cases hstack : k.current.stack with
    | nil => trivial
    | cons c rest =>
      by_cases hc : ∃ n, c = .timerSleep n
      · obtain ⟨n, rfl⟩ := hc
        refine (timerSleep_spec h hstack).mono fun k' hk' => ?_
        rcases hk' with ⟨_, hk'⟩ | hk'
        · exact .switches (by simp) hk'
        · exact .sleeps hstack hk'
      · have hne : ∀ n, c ≠ .timerSleep n := fun n hn => hc ⟨n, hn⟩
        exact (execCode_spec h hstack hne).mono fun k' hk' => .switches (by simp) hk'
  | call c =>
    simp only [kernelExec]
    split
    · rename_i rest hstack
      refine Ensures.ite (fun hcall => ?_) fun _ => trivial
      refine .switches (by simp) (h.replace_plain hstack [c, .client] ?_ ?_).switches
      · intro c' hc'
        rcases List.mem_cons.mp hc' with rfl | hc'
        · exact Code.resources_of_isCall hcall
        · rw [List.mem_singleton.mp hc']
          rfl
      · simp
    · trivial
  | ret =>
    simp only [kernelExec]
    split
    · rename_i rest hstack
      exact .switches (by simp)
        (h.pop hstack (by simp)).switches
    · trivial
  | alloc page =>
    simp only [kernelExec]
    split
    · rename_i priority f rest hstack
      cases page with
      | none =>
        exact .switches (by simp) (h.replace_plain hstack [.lockRelease .pool] (by simp)
          (by simp)).switches
      | some t =>
        refine Ensures.ite (fun _ => trivial) fun hfree => ?_
        exact .switches (by simp) (alloc_spec h hstack (by simpa using hfree)).switches
    · trivial
  | timer => exact (timer_spec h).mono fun k' hk' => .ticks hk'
  | interrupt calls =>
    exact (interrupt_spec h calls).mono fun k' hk' => .switches (by simp) hk'

/-! ## Reachable states -/

lemma kernelStart_inv (main : Page) : KernelInv (kernelStart main) := by
  have hmain : (kernelStart main).threads main =
      { tid := 1, status := .running, wakeupTime := 0, priority := priDefault, magic := true
        stack := threadStart ++ [.client, .threadExit] } := by
    simp [kernelStart]
  have hother : ∀ t, t ≠ main → (kernelStart main).threads t = .free := by
    intro t ht
    simp [kernelStart, ht]
  have hwaiters : ∀ s, ((kernelStart main).semas s).waiters = [] := by
    intro s
    cases s <;> rfl
  have hresources : ∀ t, t ≠ main → (kernelStart main).resources t = [] := by
    intro t ht
    rw [Kernel.resources, hother t ht]
    rfl
  refine ⟨⟨fun t => ?_, List.nodup_nil, fun s => ?_, List.nodup_singleton main, fun t u r ht hu => ?_,
    fun hne => absurd rfl hne⟩, ⟨?_, fun t ht => ?_⟩⟩
  · by_cases htm : t = main
    · subst htm
      refine ⟨?_, fun s hs => ?_, fun q hq => ?_, ?_, ?_, ?_, ?_, fun hi => ?_, ?_, ?_⟩
      · simp [kernelStart]
      · rw [hwaiters s] at hs
        cases hs
      · cases hq
      · rw [hmain]
        simp
      · rw [hmain]
        simp
      · simp [kernelStart]
      · simp [kernelStart]
      · cases hi
      · rw [hmain]
        simp [threadStart]
      · rw [Kernel.resources, hmain]
        decide
    · refine .of_free (hother t htm) ?_ (fun s => ?_) ?_ ?_ ?_
      · simp [kernelStart]
      · simp [hwaiters s]
      · simp [kernelStart]
      · simpa [kernelStart] using htm
      · simp [kernelStart]
  · rw [hwaiters s]
    exact List.nodup_nil
  · by_cases htm : t = main
    · by_cases hum : u = main
      · rw [htm, hum]
      · rw [hresources u hum] at hu
        cases hu
    · rw [hresources t htm] at ht
      cases ht
  · simp [kernelStart]
  · by_contra hne
    rw [hother t hne] at ht
    cases ht

lemma kernelMachine_inv (h : kernelMachine.Reachable k) : KernelInv k := by
  refine h.invariant (fun k hk => ?_) fun k a k' _ hk hstep => ?_
  · obtain ⟨main, rfl⟩ := hk
    exact kernelStart_inv main
  · exact ((kernelExec_spec hk a).of_eq_ok (Machine.ofExec_step.mp hstep)).inv

/-- What the scheduler's lists look like in every state. -/
structure SchedulerLists (k : Kernel) : Prop where
  /-- Exactly one thread is running. -/
  running : ∃! t, (k.threads t).magic = true ∧ (k.threads t).status = .running
  /-- The run queue holds every ready thread other than the idle thread once, and nothing else. -/
  ready_nodup : k.readyList.Nodup
  ready : ∀ t, t ∈ k.readyList ↔
    (k.threads t).magic = true ∧ (k.threads t).status = .ready ∧ k.idleThread ≠ some t
  /-- A thread is in at most one list among the run queue and the wait lists, and there once. -/
  waiters_nodup : ∀ s, (k.semas s).waiters.Nodup
  ready_or_waiting : ∀ t s, t ∈ k.readyList → t ∉ (k.semas s).waiters
  one_waiters : ∀ t s s', t ∈ (k.semas s).waiters → t ∈ (k.semas s').waiters → s = s'
  /-- Threads in a wait list are blocked and do not sleep. -/
  waiting : ∀ t s, t ∈ (k.semas s).waiters →
    (k.threads t).magic = true ∧ (k.threads t).status = .blocked ∧ (k.threads t).wakeupTime = 0
  /-- A blocked thread with a wakeup time is in no list. -/
  sleeping : ∀ t, (k.threads t).status = .blocked → (k.threads t).wakeupTime > 0 →
    t ∉ k.readyList ∧ ∀ s, t ∉ (k.semas s).waiters

lemma KernelInv.schedulerLists (h : KernelInv k) : SchedulerLists k := by
  have hl := h.lists
  have hwaiting : ∀ t s, t ∈ (k.semas s).waiters →
      (k.threads t).magic = true ∧ (k.threads t).status = .blocked ∧ (k.threads t).wakeupTime = 0 := by
    intro t s hs
    obtain ⟨hb, hreason⟩ := (hl.thread t).waiting s hs
    exact ⟨(hl.thread t).live (by rw [hb]; decide), hb, hl.not_sleeping (by simp [hreason])⟩
  refine ⟨⟨k.cpu, ⟨h.magic, h.running.current⟩, fun t ht => h.running.only t ht.2⟩,
    hl.ready_nodup, fun t => ?_, hl.waiters_nodup, fun t s ht hs => ?_, fun t s s' hs hs' => ?_, hwaiting,
    fun t hb hpos => ⟨hl.not_ready (by rw [hb]; decide), fun s hs => ?_⟩⟩
  · rw [(hl.thread t).ready]
    constructor
    · intro ht
      exact ⟨(hl.thread t).live (by rw [ht.1]; decide), ht⟩
    · exact fun ht => ht.2
  · have hb := ((hl.thread t).waiting s hs).1
    exact hl.not_ready (by rw [hb]; decide) ht
  · have hr := ((hl.thread t).waiting s hs).2
    rw [((hl.thread t).waiting s' hs').2] at hr
    exact (Reason.sema.inj hr).symm
  · have hzero := (hwaiting t s hs).2.2
    omega

/-- The scheduler's lists are consistent in every reachable state, and the assertions of `thread_current` and
`thread_unblock` never fail. -/
theorem scheduler_lists_invariant {k : Kernel} (h : kernelMachine.Reachable k) :
    SchedulerLists k ∧ ∀ a, kernelExec k a ≠ .error (.fault .threadCurrent) ∧
      kernelExec k a ≠ .error (.fault .threadUnblock) := by
  have hinv := kernelMachine_inv h
  refine ⟨hinv.schedulerLists, fun a => ⟨fun hf => ?_, fun hf => ?_⟩⟩
  · exact ((kernelExec_spec hinv a).of_eq_fault hf).1 rfl
  · exact ((kernelExec_spec hinv a).of_eq_fault hf).2 rfl

/-- The boot up to the point where the idle thread, at page 7, has started and the initial thread waits for
it. -/
def bootActions : List KernelAction :=
  List.replicate 5 .exec ++ [.alloc (some 7)] ++ List.replicate 14 .exec

/-- The initial thread is in the wait list of `idle_started`, blocked and without a wakeup time. -/
theorem scheduler_lists_invariant_boot :
    ∃ k, kernelMachine.run (kernelStart 0) bootActions = some k ∧
      (k.semas .idleStarted).waiters = [0] ∧
      (k.threads 0).magic = true ∧ (k.threads 0).status = .blocked ∧ (k.threads 0).wakeupTime = 0 := by
  have hrun : (kernelMachine.run (kernelStart 0) bootActions).map
      (fun k => (k.semas .idleStarted).waiters) = some [0] := by decide +kernel
  obtain ⟨k, hk, hwaiters⟩ := Option.map_eq_some_iff.mp hrun
  refine ⟨k, hk, hwaiters, ?_⟩
  apply (scheduler_lists_invariant ⟨kernelStart 0, bootActions, ⟨0, rfl⟩, hk⟩).1.waiting 0 .idleStarted
  rw [hwaiters]
  exact List.mem_singleton_self 0

/-- The thread at `t` does not run, and nobody but its creator can wake it. -/
def Kernel.Unscheduled (k : Kernel) (t : Page) : Prop :=
  t ≠ k.cpu ∧ t ∉ k.readyList ∧ ∀ s, t ∉ (k.semas s).waiters

lemma KernelInv.unscheduled (h : KernelInv k) (hstatus : (k.threads t).status = .dying ∨
    (k.threads t).status = .blocked ∧ (k.threads t).reason = .created) : k.Unscheduled t := by
  refine ⟨h.ne_cpu ?_, h.lists.not_ready ?_, fun s hs => ?_⟩
  · rcases hstatus with hd | ⟨hb, _⟩ <;> simp [*]
  · rcases hstatus with hd | ⟨hb, _⟩ <;> simp [*]
  · have hw := (h.lists.thread t).waiting s hs
    rcases hstatus with hd | ⟨_, hr⟩ <;> simp [*] at hw

end OsLabs.Threads
