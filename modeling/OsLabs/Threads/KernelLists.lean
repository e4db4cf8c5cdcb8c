import OsLabs.Threads.Kernel

/-!
# The lists of the thread system

`Lists` is the invariant that ties every list of threads to the records of the threads. A thread has one list
element for the run queue and all wait lists, so the position of a thread determines which list it may be in:
the status tells the run queue, and for a blocked thread the code it resumes with tells what it waits for
(`Reason`).

Two facts about code not yet executed are part of it. A thread that is being created belongs to the one stack that
will unblock it, and only one stack will ever set `idle_thread`: both are `Resource`s that occur at most once in
all stacks together.

`Lists` does not mention the running thread, so that it also holds in the middle of a step, when the thread that
gives up the CPU has already changed its status. `Lists.update` is the rule behind every step: change one
thread, and show that this thread fits.
-/

namespace OsLabs.Threads

open Lib

attribute [simp] Kernel.current

/-! ## What the stacks tell -/

/-- What a blocked thread waits for. -/
inductive Reason where
  /-- Created and not yet unblocked for the first time. -/
  | created
  | idle
  | sema (s : SemaId)
  | intq (q : ℕ)
  | sleep
deriving DecidableEq

/-- What a thread waits for when it is blocked: it is the code it resumes with. -/
def Thread.reason (th : Thread) : Reason :=
  match th.stack with
  | .idleHalt :: _ => .idle
  | .semaDownLoop s _ :: _ => .sema s
  | .intqReturn q :: _ => .intq q
  | .sleepReturn _ :: _ => .sleep
  | _ => .created

/-- The code the idle thread executes between two blocks. -/
@[simp] def Code.idleSafe : Code → Bool
  | .idleHalt | .intrReturn | .iret | .intrSetLevel _ | .threadYield | .semaUp _ => true
  | _ => false

/-- The stack of the idle thread: nothing on it can block, up to the loop of `idle`. -/
@[simp] def idleShape : List Code → Bool
  | [] => false
  | .idleBlock :: _ => true
  | c :: rest => c.idleSafe && idleShape rest

/-- What at most one stack may hold. -/
inductive Resource where
  /-- The right to unblock the new thread at this page for the first time. -/
  | page (t : Page)
  /-- The right to set `idle_thread`. -/
  | idle
deriving DecidableEq

def ThreadFunc.resources : ThreadFunc → List Resource
  | .idle => [.idle]
  | .client => []

@[simp] def Code.resources : Code → List Resource
  | .kernelThread f | .threadCreate _ f | .pallocScan _ f => f.resources
  | .idle => [.idle]
  | .initThread t _ f | .allocateTid t f | .initStack t _ f => .page t :: f.resources
  | .threadUnblock t => [.page t]
  | _ => []

/-- The resources of a piece of code. -/
def resources (code : List Code) : List Resource :=
  code.flatMap Code.resources

/-- The resources a thread holds. -/
def Kernel.resources (k : Kernel) (t : Page) : List Resource :=
  Threads.resources (k.threads t).stack

/-- The page a `thread_create` works on is in the state its next statement needs. -/
@[simp] def Code.PageOk (k : Kernel) : Code → Prop
  | .initThread t _ _ =>
    (k.threads t).status = .dying ∧ (k.threads t).magic = false ∧ k.usedMap t = true
  | .allocateTid t _ | .initStack t _ _ | .threadUnblock t =>
    (k.threads t).status = .blocked ∧
      ((k.threads t).stack = [] ∨ ∃ f, (k.threads t).stack = [.kernelThread f])
  | _ => True

/-! ## The invariant -/

/-- How the lists, the waiter fields and the code of one thread fit together. -/
structure ThreadOk (k : Kernel) (t : Page) : Prop where
  ready : t ∈ k.readyList ↔ (k.threads t).status = .ready ∧ k.idleThread ≠ some t
  waiting : ∀ s, t ∈ (k.semas s).waiters →
    (k.threads t).status = .blocked ∧ (k.threads t).reason = .sema s
  waiter : ∀ q, k.waiter q = some t →
    (k.threads t).status = .blocked ∧ (k.threads t).reason = .intq q
  sleeping : (k.threads t).wakeupTime ≠ 0 →
    (k.threads t).status = .blocked ∧ (k.threads t).reason = .sleep
  live : (k.threads t).status ≠ .dying → (k.threads t).magic = true
  all : t ∈ k.allList ↔ (k.threads t).status ≠ .dying
  used : (k.threads t).magic = true → k.usedMap t = true
  idle : k.idleThread = some t →
    (k.threads t).status ≠ .dying ∧ idleShape (k.threads t).stack = true
  pages : ∀ c ∈ (k.threads t).stack, c.PageOk k
  nodup : (k.resources t).Nodup

/-- The lists are consistent with the threads. -/
structure Lists (k : Kernel) : Prop where
  thread : ∀ t, ThreadOk k t
  ready_nodup : k.readyList.Nodup
  waiters_nodup : ∀ s, (k.semas s).waiters.Nodup
  all_nodup : k.allList.Nodup
  unique : ∀ t u r, r ∈ k.resources t → r ∈ k.resources u → t = u
  token : k.idleThread ≠ none → ∀ t, .idle ∉ k.resources t

/-! ## Code that creates a thread -/

@[simp] lemma resources_nil : resources [] = [] := rfl

@[simp] lemma resources_append (a b : List Code) : resources (a ++ b) = resources a ++ resources b :=
  List.flatMap_append

@[simp] lemma resources_cons (c : Code) (rest : List Code) :
    resources (c :: rest) = c.resources ++ resources rest := by
  simp [resources]

lemma mem_resources {r : Resource} {code : List Code} :
    r ∈ resources code ↔ ∃ c ∈ code, r ∈ c.resources := by
  simp [resources]

variable {c : Code} {k k' : Kernel} {t u : Page}

/-- Code without resources creates nothing. -/
lemma Code.PageOk.of_resources (h : c.resources = []) (k : Kernel) : c.PageOk k := by
  cases c <;> simp_all

/-- `PageOk` reads the record and the use of the pages the code holds. -/
lemma Code.PageOk.congr (h : c.PageOk k)
    (hpage : ∀ t, .page t ∈ c.resources →
      k'.threads t = k.threads t ∧ (k.usedMap t = true → k'.usedMap t = true)) : c.PageOk k' := by
  cases c with
  | initThread t _ _ =>
    obtain ⟨hth, hused⟩ := hpage t (by simp)
    obtain ⟨hst, hmagic, hu⟩ := h
    exact ⟨by rw [hth]; exact hst, by rw [hth]; exact hmagic, hused hu⟩
  | allocateTid t _ | initStack t _ _ | threadUnblock t =>
    obtain ⟨hth, _⟩ := hpage t (by simp)
    simpa only [Code.PageOk, hth] using h
  | _ => trivial

/-- The page of a thread that is being created is neither running nor ready. -/
lemma Code.PageOk.status (h : c.PageOk k) (ht : .page t ∈ c.resources) :
    (k.threads t).status = .dying ∧ (k.threads t).magic = false ∧ k.usedMap t = true ∨
    (k.threads t).status = .blocked ∧ (k.threads t).reason = .created ∧
      idleShape (k.threads t).stack = false := by
  have hfunc : ∀ f : ThreadFunc, .page t ∉ f.resources := by
    intro f
    cases f <;> simp [ThreadFunc.resources]
  have hfresh : ((k.threads t).stack = [] ∨ ∃ f, (k.threads t).stack = [.kernelThread f]) →
      (k.threads t).reason = .created ∧ idleShape (k.threads t).stack = false := by
    rintro (hs | ⟨f, hs⟩) <;> simp [Thread.reason, hs]
  cases c with
  | initThread u _ f =>
    obtain rfl : t = u := by simpa [hfunc] using ht
    exact Or.inl h
  | allocateTid u f | initStack u _ f =>
    obtain rfl : t = u := by simpa [hfunc] using ht
    exact Or.inr ⟨h.1, hfresh h.2⟩
  | threadUnblock u =>
    obtain rfl : t = u := by simpa using ht
    exact Or.inr ⟨h.1, hfresh h.2⟩
  | kernelThread f | threadCreate _ f | pallocScan _ f => exact absurd ht (hfunc f)
  | _ => simp at ht

/-- A thread that is being created, by whichever thread, is dying (not yet initialised) or blocked and not
waiting for anything. -/
lemma Lists.being_created (h : Lists k) (ht : .page t ∈ k.resources u) :
    (k.threads t).status = .dying ∧ (k.threads t).magic = false ∧ k.usedMap t = true ∨
    (k.threads t).status = .blocked ∧ (k.threads t).reason = .created ∧
      idleShape (k.threads t).stack = false := by
  obtain ⟨c, hc, hmem⟩ := mem_resources.mp ht
  exact ((h.thread u).pages c hc).status hmem

/-- A thread that waits for something else is not in the wait list of `s`. -/
lemma Lists.not_waiting (h : Lists k) {s : SemaId} (hr : (k.threads t).reason ≠ .sema s) :
    t ∉ (k.semas s).waiters :=
  fun hs => hr ((h.thread t).waiting s hs).2

/-- Nor is it named in the waiter field `q`. -/
lemma Lists.not_waiter (h : Lists k) {q : ℕ} (hr : (k.threads t).reason ≠ .intq q) : k.waiter q ≠ some t :=
  fun hq => hr ((h.thread t).waiter q hq).2

/-- Nor does it have a wakeup time. -/
lemma Lists.not_sleeping (h : Lists k) (hr : (k.threads t).reason ≠ .sleep) :
    (k.threads t).wakeupTime = 0 := by
  by_contra hne
  exact hr ((h.thread t).sleeping hne).2

/-- A thread that is not ready is not in the run queue. -/
lemma Lists.not_ready (h : Lists k) (ht : (k.threads t).status ≠ .ready) : t ∉ k.readyList :=
  fun hmem => ht ((h.thread t).ready.mp hmem).1

/-- A page without a thread fits when it is in no list. -/
lemma ThreadOk.of_free (hfree : k.threads t = .free) (hready : t ∉ k.readyList)
    (hwaiters : ∀ s, t ∉ (k.semas s).waiters) (hwaiter : ∀ q, k.waiter q ≠ some t) (hall : t ∉ k.allList)
    (hidle : k.idleThread ≠ some t) : ThreadOk k t := by
  refine ⟨?_, fun s hs => absurd hs (hwaiters s), fun q hq => absurd hq (hwaiter q), ?_, ?_, ?_, ?_,
    fun hi => absurd hi hidle, ?_, ?_⟩
  · simp [hready, hfree, Thread.free]
  · simp [hfree, Thread.free]
  · simp [hfree, Thread.free]
  · simp [hall, hfree, Thread.free]
  · simp [hfree, Thread.free]
  · simp [hfree, Thread.free]
  · simp [Kernel.resources, hfree, Thread.free]

/-- `Lists` reads the threads, the lists, the waiter fields, `idle_thread` and the used pages, nothing else. -/
lemma Lists.congr (h : Lists k) (hthreads : k'.threads = k.threads) (hready : k'.readyList = k.readyList)
    (hall : k'.allList = k.allList) (hidle : k'.idleThread = k.idleThread) (hsemas : k'.semas = k.semas)
    (hwaiter : k'.waiter = k.waiter) (hused : k'.usedMap = k.usedMap) : Lists k' := by
  have hresources : k'.resources = k.resources := by
    unfold Kernel.resources
    rw [hthreads]
  refine ⟨fun t => ?_, by rw [hready]; exact h.ready_nodup, by rw [hsemas]; exact h.waiters_nodup,
    by rw [hall]; exact h.all_nodup, by rw [hresources]; exact h.unique,
    by rw [hidle, hresources]; exact h.token⟩
  have hok := h.thread t
  refine ⟨?_, ?_, ?_, ?_, ?_, ?_, ?_, ?_, ?_, ?_⟩
  · rw [hready, hthreads, hidle]
    exact hok.ready
  · rw [hsemas, hthreads]
    exact hok.waiting
  · rw [hwaiter, hthreads]
    exact hok.waiter
  · rw [hthreads]
    exact hok.sleeping
  · rw [hthreads]
    exact hok.live
  · rw [hall, hthreads]
    exact hok.all
  · rw [hthreads, hused]
    exact hok.used
  · rw [hidle, hthreads]
    exact hok.idle
  · rw [hthreads]
    intro c hc
    refine (hok.pages c hc).congr fun p _ => ⟨by rw [hthreads], fun hp => by rw [hused]; exact hp⟩
  · rw [hresources]
    exact hok.nodup

/-! ## Changing one thread -/

/-- `k'` differs from `k` in the record of `t` and in the lists `t` is in, up to the order of the lists. -/
structure ChangesOnly (k k' : Kernel) (t : Page) : Prop where
  other : ∀ u, u ≠ t → k'.threads u = k.threads u
  ready : ∀ u, u ≠ t → (u ∈ k'.readyList ↔ u ∈ k.readyList)
  waiters : ∀ s u, u ≠ t → u ∈ (k'.semas s).waiters → u ∈ (k.semas s).waiters
  waiter : ∀ q u, u ≠ t → k'.waiter q = some u → k.waiter q = some u
  all : ∀ u, u ≠ t → (u ∈ k'.allList ↔ u ∈ k.allList)
  used : ∀ u, u ≠ t → k'.usedMap u = k.usedMap u
  idle : k'.idleThread = k.idleThread
  ready_nodup : k'.readyList.Nodup
  waiters_nodup : ∀ s, (k'.semas s).waiters.Nodup
  all_nodup : k'.allList.Nodup

/-- Only the record of `t` changes. -/
lemma Lists.setThread_changesOnly (h : Lists k) (t : Page) (th : Thread) :
    ChangesOnly k (k.setThread t th) t where
  other u hu := by simp [hu]
  ready _ _ := Iff.rfl
  waiters _ _ _ hu := hu
  waiter _ _ _ hu := hu
  all _ _ := Iff.rfl
  used _ _ := rfl
  idle := rfl
  ready_nodup := h.ready_nodup
  waiters_nodup := h.waiters_nodup
  all_nodup := h.all_nodup

lemma ChangesOnly.resources (hc : ChangesOnly k k' t) (hu : u ≠ t) : k'.resources u = k.resources u := by
  unfold Kernel.resources
  rw [hc.other u hu]

/-- A thread that is not the changed one still fits. -/
lemma ChangesOnly.threadOk (hc : ChangesOnly k k' t) (hu : u ≠ t) (hok : ThreadOk k u)
    (hpage : .page t ∉ k.resources u) : ThreadOk k' u := by
  have hth := hc.other u hu
  refine ⟨?_, ?_, ?_, ?_, ?_, ?_, ?_, ?_, ?_, ?_⟩
  · rw [hc.ready u hu, hth, hc.idle]
    exact hok.ready
  · intro s hs
    rw [hth]
    exact hok.waiting s (hc.waiters s u hu hs)
  · intro q hq
    rw [hth]
    exact hok.waiter q (hc.waiter q u hu hq)
  · rw [hth]
    exact hok.sleeping
  · rw [hth]
    exact hok.live
  · rw [hc.all u hu, hth]
    exact hok.all
  · rw [hth, hc.used u hu]
    exact hok.used
  · rw [hc.idle, hth]
    exact hok.idle
  · -- the pages other threads work on are not the changed one
    rw [hth]
    intro c hmem
    refine (hok.pages c hmem).congr fun p hp => ?_
    have hpt : p ≠ t := by
      rintro rfl
      exact hpage (mem_resources.mpr ⟨c, hmem, hp⟩)
    exact ⟨hc.other p hpt, fun hu' => by rw [hc.used p hpt]; exact hu'⟩
  · rw [hc.resources hu]
    exact hok.nodup

/-- A step that changes one thread keeps the lists consistent if that thread fits, nobody else is creating
it, and what it now holds nobody else holds. -/
lemma Lists.update (h : Lists k) (hc : ChangesOnly k k' t) (hpage : ∀ u, u ≠ t → .page t ∉ k.resources u)
    (hres : ∀ r ∈ k'.resources t, ∀ u, u ≠ t → r ∉ k.resources u)
    (htoken : k.idleThread ≠ none → .idle ∉ k'.resources t) (ht : ThreadOk k' t) : Lists k' := by
  refine ⟨fun u => ?_, hc.ready_nodup, hc.waiters_nodup, hc.all_nodup, fun u v r hu hv => ?_,
    fun hne u => ?_⟩
  · by_cases hu : u = t
    · rw [hu]
      exact ht
    · exact hc.threadOk hu (h.thread u) (hpage u hu)
  · by_cases hut : u = t
    · by_cases hvt : v = t
      · rw [hut, hvt]
      · rw [hut] at hu
        rw [hc.resources hvt] at hv
        exact absurd hv (hres r hu v hvt)
    · by_cases hvt : v = t
      · rw [hvt] at hv
        rw [hc.resources hut] at hu
        exact absurd hu (hres r hv u hut)
      · rw [hc.resources hut] at hu
        rw [hc.resources hvt] at hv
        exact h.unique u v r hu hv
  · rw [hc.idle] at hne
    by_cases hu : u = t
    · rw [hu]
      exact htoken hne
    · rw [hc.resources hu]
      exact h.token hne u

/-- The case of a thread that keeps its stack and stays alive, and that nobody is creating: what has to be
shown is where it is listed. -/
lemma Lists.relist (h : Lists k) (hc : ChangesOnly k k' t)
    (hpage : ∀ u, .page t ∉ k.resources u)
    (hstack : (k'.threads t).stack = (k.threads t).stack)
    (hmagic : (k'.threads t).magic = (k.threads t).magic) (hall : t ∈ k'.allList ↔ t ∈ k.allList)
    (hused : k'.usedMap t = k.usedMap t)
    (hlive : (k.threads t).status ≠ .dying) (hlive' : (k'.threads t).status ≠ .dying)
    (hready : t ∈ k'.readyList ↔ (k'.threads t).status = .ready ∧ k.idleThread ≠ some t)
    (hwaiting : ∀ s, t ∈ (k'.semas s).waiters →
      (k'.threads t).status = .blocked ∧ (k.threads t).reason = .sema s)
    (hwaiter : ∀ q, k'.waiter q = some t →
      (k'.threads t).status = .blocked ∧ (k.threads t).reason = .intq q)
    (hsleeping : (k'.threads t).wakeupTime ≠ 0 →
      (k'.threads t).status = .blocked ∧ (k.threads t).reason = .sleep) : Lists k' := by
  have hok := h.thread t
  have hresources : k'.resources t = k.resources t := by
    unfold Kernel.resources
    rw [hstack]
  have hreason : (k'.threads t).reason = (k.threads t).reason := by
    unfold Thread.reason
    rw [hstack]
  apply h.update hc (fun u _ => hpage u)
  · intro r hr u hu hmem
    rw [hresources] at hr
    exact hu (h.unique u t r hmem hr)
  · intro hne
    rw [hresources]
    exact h.token hne t
  · rw [← hreason] at hsleeping
    simp only [← hreason] at hwaiting hwaiter
    refine ⟨?_, hwaiting, hwaiter, hsleeping, ?_, ?_, ?_, ?_, ?_, ?_⟩
    · rw [hc.idle]
      exact hready
    · intro _
      rw [hmagic]
      exact hok.live hlive
    · rw [hall, hok.all]
      exact ⟨fun _ => hlive', fun _ => hlive⟩
    · rw [hmagic, hused]
      exact hok.used
    · intro hi
      rw [hc.idle] at hi
      refine ⟨hlive', ?_⟩
      rw [hstack]
      exact (hok.idle hi).2
    · rw [hstack]
      intro c hmem
      refine (hok.pages c hmem).congr fun p hp => ?_
      have hpt : p ≠ t := by
        rintro rfl
        exact hpage p (mem_resources.mpr ⟨c, hmem, hp⟩)
      exact ⟨hc.other p hpt, fun hu => by rw [hc.used p hpt]; exact hu⟩
    · rw [hresources]
      exact hok.nodup

end OsLabs.Threads
