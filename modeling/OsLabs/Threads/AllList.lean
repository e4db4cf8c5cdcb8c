import Mathlib.Data.Fintype.Card
import OsLabs.Lib.DoublyLinked
import OsLabs.Lib.Machine

/-!
# `all_list` under preemption

`init_thread` appends to `all_list` with interrupts on, so the four assignments of `list_insert` are four
steps here, and a timer interrupt may switch to another thread between any two of them. `thread_exit` unlinks
with interrupts off and is one step.

The append is not safe: two appends that overlap, or an exit of the last thread while another one is being
appended to it, leave a stale `prev` pointer behind. `Undisturbed` says of one step that it does neither. In a
run of such steps at most one append is under way, and `Shape` says what the pointers look like after each of
its assignments. Such a run refines a list with atomic operations (`undisturbed_run`), which is how the model
of the scheduler takes `all_list`.
-/

namespace OsLabs.Threads

open Lib Function

/-! ## The model -/

/-- A `struct list_elem *`: the sentinels of `all_list`, the `allelem` of the thread at page `t`, NULL, or the bytes
`palloc_free_page` fills a page with. -/
inductive ElemPtr (T : Type*) where
  | null
  | wild
  | head
  | tail
  | elem (t : T)
deriving DecidableEq

/-- The pointer can be followed. -/
def ElemPtr.isNode {T : Type*} : ElemPtr T → Bool
  | .null | .wild => false
  | _ => true

/-- The four assignments of `list_insert`, with `before` the tail of the list. -/
inductive InsertStep where
  /-- `elem->prev = before->prev`. -/
  | elemPrev
  /-- `elem->next = before`. -/
  | elemNext
  /-- `before->prev->next = elem`. -/
  | beforePrevNext
  /-- `before->prev = elem`. -/
  | beforePrev
deriving DecidableEq

/-- The assignment after this one. -/
def InsertStep.succ : InsertStep → Option InsertStep
  | .elemPrev => some .elemNext
  | .elemNext => some .beforePrevNext
  | .beforePrevNext => some .beforePrev
  | .beforePrev => none

/-- What is going on at a page. -/
inductive CreatePc (T : Type*) where
  /-- The page is free. -/
  | absent
  /-- `thread_create` works on the page, the thread is not yet appended. -/
  | starting
  /-- The thread is appended and waits for its first `thread_unblock`. -/
  | created
  /-- The thread runs code outside `thread_create` and `thread_exit`. -/
  | client
  /-- The thread creates `t` and is about to execute this assignment of `list_insert`. -/
  | insert (t : T) (step : InsertStep)
  /-- The thread has appended `t` and is about to unblock it. -/
  | unblock (t : T)
  /-- The initial thread after its exit; its page is not freed. -/
  | dying
deriving DecidableEq

namespace CreatePc

variable {T : Type*}

/-- The thread may be given the CPU. -/
def schedulable : CreatePc T → Bool
  | .client | .insert _ _ | .unblock _ => true
  | _ => false

/-- The thread is created and not yet exited. -/
def live : CreatePc T → Bool
  | .created | .client | .insert _ _ | .unblock _ => true
  | _ => false

/-- The append under way, that is past its first assignment, with its next assignment. -/
def window : CreatePc T → Option (T × InsertStep)
  | .insert _ .elemPrev => none
  | .insert t step => some (t, step)
  | _ => none

/-- The append that has read `before->prev` and has not yet linked the new thread to it. -/
def aims : CreatePc T → Option T
  | .insert t .elemNext | .insert t .beforePrevNext => some t
  | _ => none

/-- The thread this one is creating. -/
def creates : CreatePc T → Option T
  | .insert t _ | .unblock t => some t
  | _ => none

end CreatePc

/-- The pointers of `all_list` and the threads that use it. -/
structure AllListState (T : Type*) where
  links : Links (ElemPtr T)
  pc : T → CreatePc T
  cpu : T
  initial : T

inductive AllListAction (T : Type*) where
  /-- The running thread calls `thread_create`, which gets the page `t`. -/
  | create (t : T)
  /-- The running thread executes its next assignment, or the `thread_unblock`. -/
  | exec
  /-- The running thread calls `thread_exit`, and `next` is scheduled. -/
  | exit (next : T)
  /-- A timer interrupt switches to `next`. -/
  | timer (next : T)

variable {T : Type*}

/-- One assignment of `list_insert` for the thread `t`; the assertion on `before` is checked first. -/
def listInsert [DecidableEq T] (L : Links (ElemPtr T)) (t : T) : InsertStep → Option (Links (ElemPtr T))
  | .elemPrev =>
    if L.prev .tail = .null then none else some (L.setPrev (.elem t) (L.prev .tail))
  | .elemNext => some (L.setNext (.elem t) .tail)
  | .beforePrevNext =>
    if (L.prev .tail).isNode then some (L.setNext (L.prev .tail) (.elem t)) else none
  | .beforePrev => some (L.setPrev .tail (.elem t))

/-- `list_remove` on the thread `t`; it asserts that neither pointer is NULL and then follows both. -/
def listRemove [DecidableEq T] (L : Links (ElemPtr T)) (t : T) : Option (Links (ElemPtr T)) :=
  if (L.prev (.elem t)).isNode ∧ (L.next (.elem t)).isNode then some (L.unlink (.elem t)) else none

/-- Both pointers of the thread at page `t` are overwritten. -/
def fillPage [DecidableEq T] (L : Links (ElemPtr T)) (t : T) (p : ElemPtr T) : Links (ElemPtr T) :=
  (L.setPrev (.elem t) p).setNext (.elem t) p

/-- The running thread executes its next statement. -/
def execAppend [DecidableEq T] (s : AllListState T) : Option (AllListState T) :=
  match s.pc s.cpu with
  | .insert t step => do
    let links ← listInsert s.links t step
    match step.succ with
    | some step' => some { s with links, pc := update s.pc s.cpu (.insert t step') }
    | none =>
      some { s with links, pc := update (update s.pc t .created) s.cpu (.unblock t) }
  | .unblock t =>
    some { s with pc := update (update s.pc t .client) s.cpu .client }
  | _ => none

/-- One step. -/
def allListStep [DecidableEq T] (s : AllListState T) : AllListAction T → Option (AllListState T)
  | .create t =>
    -- `init_thread` starts with a `memset`
    if s.pc s.cpu = .client ∧ s.pc t = .absent then
      some { s with
        links := fillPage s.links t .null
        pc := update (update s.pc t .starting) s.cpu (.insert t .elemPrev) }
    else none
  | .exec => execAppend s
  | .exit next =>
    if s.pc s.cpu = .client ∧ next ≠ s.cpu ∧ (s.pc next).schedulable then do
      let links ← listRemove s.links s.cpu
      -- `thread_schedule_tail` frees the page, unless it is the initial thread's
      let freed := s.cpu ≠ s.initial
      some { s with
        links := if freed then fillPage links s.cpu .wild else links
        pc := update s.pc s.cpu (if freed then .absent else .dying)
        cpu := next }
    else none
  | .timer next => if (s.pc next).schedulable then some { s with cpu := next } else none

/-- `all_list` after `thread_init`: it holds the initial thread. -/
def allListStart [DecidableEq T] (initial : T) : AllListState T where
  links :=
    { prev := fun
        | .tail => .elem initial
        | .elem t => if t = initial then .head else .null
        | _ => .null
      next := fun
        | .head => .elem initial
        | .elem t => if t = initial then .tail else .null
        | _ => .null }
  pc t := if t = initial then .client else .absent
  cpu := initial
  initial

/-- The machine of `all_list`. -/
def allListMachine (T : Type*) [DecidableEq T] : Machine (AllListState T) (AllListAction T) where
  Init s := ∃ initial, s = allListStart initial
  step := allListStep

/-- `list_entry` for an element of `all_list`. -/
def listEntry : ElemPtr T → Option T
  | .elem t => some t
  | _ => none

/-- The threads `thread_foreach` calls its function on, in order. -/
def visited [DecidableEq T] (s : AllListState T) (fuel : ℕ) : Option (List T) :=
  (Links.walk s.links.next .tail fuel (s.links.next .head)).bind (·.mapM listEntry)

/-- No append is between its first and its last assignment. -/
def AllListState.NoAppend (s : AllListState T) : Prop :=
  ∀ u, (s.pc u).window = none

/-- The head and the elements of a list of threads. -/
def elems (l : List T) : List (ElemPtr T) :=
  .head :: l.map .elem

/-- `all_list` is a doubly linked list of the threads that exist, each once, and `thread_foreach` visits them all. -/
structure AllListState.WellFormed [DecidableEq T] (s : AllListState T) (l : List T) : Prop where
  linked : s.links.Linked (elems l ++ [.tail])
  nodup : l.Nodup
  live : ∀ t, t ∈ l ↔ (s.pc t).live = true
  visited : ∀ fuel, l.length < fuel → visited s fuel = some l

/-- What the operations on `all_list` are for: the list as the model of the scheduler takes it, with each operation
atomic. -/
inductive ListOp (T : Type*) where
  | pushBack (t : T)
  | remove (t : T)

def ListOp.apply [DecidableEq T] (l : List T) : ListOp T → List T
  | .pushBack t => l ++ [t]
  | .remove t => l.erase t

/-- The operation a step completes. -/
def completes : AllListState T × AllListAction T → Option (ListOp T)
  | (s, .exec) =>
    match s.pc s.cpu with
    | .insert t .beforePrev => some (.pushBack t)
    | _ => none
  | (s, .exit _) => some (.remove s.cpu)
  | _ => none

/-- The list after the completed operations of a run. -/
def replay [DecidableEq T] (l : List T) (ops : List (ListOp T)) : List T :=
  ops.foldl ListOp.apply l

/-- What must not happen in the middle of an append: another append starts, or the thread the append has read from
`before->prev` exits before it is linked to the new one. -/
def Undisturbed (s : AllListState T) : AllListAction T → Prop
  | .exec => (∃ t, s.pc s.cpu = .insert t .elemPrev) → s.NoAppend
  | .exit _ => ∀ u t, (s.pc u).aims = some t → s.links.prev (.elem t) ≠ .elem s.cpu
  | _ => True

/-! ## Who creates whom -/

/-- A thread that is being created has one creator. -/
structure Creators (pc : T → CreatePc T) (cpu : T) : Prop where
  running : (pc cpu).schedulable = true
  starting : ∀ u t step, pc u = .insert t step → pc t = .starting
  created : ∀ u t, pc u = .unblock t → pc t = .created
  unique : ∀ u v t, (pc u).creates = some t → (pc v).creates = some t → u = v

variable {pc : T → CreatePc T} {cpu t x : T} {l : List T} {L : Links (ElemPtr T)} {w : Option (T × InsertStep)}
  {p : ElemPtr T}

section Creators

variable (h : Creators pc cpu)
include h

/-- Who is being created is not yet running. -/
lemma Creators.not_running {u : T} (hu : (pc u).creates = some t) :
    pc t = .starting ∨ pc t = .created := by
  cases hpc : pc u with
  | insert t' step =>
    obtain rfl : t' = t := by simpa [hpc, CreatePc.creates] using hu
    exact Or.inl (h.starting u t' step hpc)
  | unblock t' =>
    obtain rfl : t' = t := by simpa [hpc, CreatePc.creates] using hu
    exact Or.inr (h.created u t' hpc)
  | _ => simp [hpc, CreatePc.creates] at hu

lemma Creators.create [DecidableEq T] (hcpu : pc cpu = .client) (ht : pc t = .absent) :
    Creators (update (update pc t .starting) cpu (.insert t .elemPrev)) cpu := by
  -- nobody is creating a free page
  have hfree : ∀ u, (pc u).creates ≠ some t := by
    intro u hu
    rcases h.not_running hu with hs | hs <;> rw [ht] at hs <;> cases hs
  obtain ⟨hrunning, hstarting, hcreated, hunique⟩ := h
  constructor <;> grind [CreatePc.schedulable, CreatePc.creates]

lemma Creators.advance [DecidableEq T] {step : InsertStep}
    (hcpu : pc cpu = .insert t step) (step' : InsertStep) :
    Creators (update pc cpu (.insert t step')) cpu := by
  obtain ⟨hrunning, hstarting, hcreated, hunique⟩ := h
  constructor <;> grind [CreatePc.schedulable, CreatePc.creates]

lemma Creators.append [DecidableEq T] {step : InsertStep}
    (hcpu : pc cpu = .insert t step) :
    Creators (update (update pc t .created) cpu (.unblock t)) cpu := by
  have hcreates : (pc cpu).creates = some t := by rw [hcpu]; rfl
  obtain ⟨hrunning, hstarting, hcreated, hunique⟩ := h
  constructor <;> grind [CreatePc.schedulable, CreatePc.creates]

lemma Creators.unblock [DecidableEq T] (hcpu : pc cpu = .unblock t) :
    Creators (update (update pc t .client) cpu .client) cpu := by
  have hcreates : (pc cpu).creates = some t := by rw [hcpu]; rfl
  obtain ⟨hrunning, hstarting, hcreated, hunique⟩ := h
  constructor <;> grind [CreatePc.schedulable, CreatePc.creates]

lemma Creators.exit [DecidableEq T] {next : T} (hcpu : pc cpu = .client)
    (hne : next ≠ cpu) (hnext : (pc next).schedulable = true) {gone : CreatePc T} (hgone : gone.live = false)
    (hstart : gone ≠ .starting) : Creators (update pc cpu gone) next := by
  have hcreates : gone.creates = none := by
    cases gone <;> simp_all [CreatePc.live, CreatePc.creates]
  obtain ⟨hrunning, hstarting, hcreated, hunique⟩ := h
  constructor <;> grind [CreatePc.creates]

end Creators

/-! ## The pointers -/

/-- The pointers of `all_list` when it holds the threads `l`, and one append may be under way. -/
def Shape (L : Links (ElemPtr T)) (l : List T) : Option (T × InsertStep) → Prop
  | none => L.Linked (elems l ++ [.tail])
  | some (_, .elemPrev) => False
  | some (t, .elemNext) => L.Linked (elems l ++ [.tail]) ∧ L.prev (.elem t) = L.prev .tail
  | some (t, .beforePrevNext) =>
    L.Linked (elems l ++ [.tail]) ∧ L.prev (.elem t) = L.prev .tail ∧ L.next (.elem t) = .tail
  -- all but `before->prev` is in place
  | some (t, .beforePrev) => L.Linked (elems (l ++ [t])) ∧ L.next (.elem t) = .tail

lemma nodup_snoc (h : l.Nodup) (ht : t ∉ l) : (l ++ [t]).Nodup := by
  simpa using h.concat ht

lemma elems_append (l l' : List T) : elems (l ++ l') = elems l ++ l'.map .elem := by
  simp [elems]

lemma elem_mem_elems : .elem t ∈ elems l ↔ t ∈ l := by
  simp [elems]

lemma nodup_elems (h : l.Nodup) : (elems l ++ [ElemPtr.tail]).Nodup := by
  have hmap : (l.map ElemPtr.elem).Nodup := h.map fun a b hab => ElemPtr.elem.inj hab
  simpa [elems, List.nodup_append] using hmap

/-- Writes to the page of a thread that is neither in the list nor being appended do not matter. -/
lemma Shape.congr {L' : Links (ElemPtr T)} (h : Shape L l w) (hx : x ∉ l) (hw : ∀ step, w ≠ some (x, step))
    (hsame : ∀ p, p ≠ .elem x → L'.next p = L.next p ∧ L'.prev p = L.prev p) : Shape L' l w := by
  have hlinked : ∀ {ps}, .elem x ∉ ps → L.Linked ps → L'.Linked ps := by
    intro ps hps hl
    exact hl.congr_of_mem fun p hp => hsame p fun he => hps (he ▸ hp)
  have hlist : .elem x ∉ elems l ++ [.tail] := by simp [elems, hx]
  have htail := (hsame .tail (by simp)).2
  match w with
  | none => exact hlinked hlist h
  | some (t, .elemNext) =>
    have ht : t ≠ x := fun he => hw .elemNext (by rw [he])
    refine ⟨hlinked hlist h.1, ?_⟩
    rw [(hsame (.elem t) (by simpa using ht)).2, htail]
    exact h.2
  | some (t, .beforePrevNext) =>
    have ht : t ≠ x := fun he => hw .beforePrevNext (by rw [he])
    have helem := hsame (.elem t) (by simpa using ht)
    refine ⟨hlinked hlist h.1, ?_, ?_⟩
    · rw [helem.2, htail]
      exact h.2.1
    · rw [helem.1]
      exact h.2.2
  | some (t, .beforePrev) =>
    have ht : t ≠ x := fun he => hw .beforePrev (by rw [he])
    refine ⟨hlinked ?_ h.1, ?_⟩
    · simp [elems, hx, ht.symm]
    · rw [(hsame (.elem t) (by simpa using ht)).1]
      exact h.2

/-- The assignments of an append take it from one shape to the next. -/
lemma Shape.elemPrev [DecidableEq T] (h : Shape L l none) (ht : t ∉ l) :
    Shape (L.setPrev (.elem t) (L.prev .tail)) l (some (t, .elemNext)) := by
  refine ⟨?_, by simp⟩
  apply Links.Linked.congr_of_mem h
  intro p hp
  have hne : p ≠ .elem t := by
    rintro rfl
    simp [elem_mem_elems, ht] at hp
  simp [hne]

lemma Shape.elemNext [DecidableEq T] (h : Shape L l (some (t, .elemNext))) (ht : t ∉ l) :
    Shape (L.setNext (.elem t) .tail) l (some (t, .beforePrevNext)) := by
  refine ⟨?_, h.2, by simp⟩
  apply h.1.congr_of_mem
  intro p hp
  have hne : p ≠ .elem t := by
    rintro rfl
    simp [elem_mem_elems, ht] at hp
  simp [hne]

lemma Shape.beforePrevNext [DecidableEq T] (h : Shape L l (some (t, .beforePrevNext))) (hl : (l ++ [t]).Nodup) :
    Shape (L.setNext (L.prev .tail) (.elem t)) l (some (t, .beforePrev)) := by
  obtain ⟨hlinked, hprev, hnext⟩ := h
  -- the last element before the tail, possibly the head
  obtain ⟨as, p, hlast⟩ := (List.eq_nil_or_concat (elems l)).resolve_left (by simp [elems])
  rw [List.concat_eq_append] at hlast
  rw [hlast, List.append_assoc] at hlinked
  obtain ⟨hleft, ⟨_, htail⟩, _⟩ := Links.linked_append_cons_cons.mp hlinked
  have hnodup : (as ++ [p, .elem t]).Nodup := by
    have hall := (nodup_elems hl).sublist (List.sublist_append_left _ _)
    rwa [elems_append, hlast, List.append_assoc] at hall
  have hlink := Links.Linked.link hnodup hleft (List.isChain_singleton _)
  rw [htail] at hprev ⊢
  rw [Links.setPrev_self (L.setNext p (.elem t)) hprev] at hlink
  refine ⟨?_, ?_⟩
  · rw [elems_append, hlast, List.append_assoc]
    exact hlink
  · have hne : .elem t ≠ p := by
      rintro rfl
      simp [List.nodup_append] at hnodup
    simpa [hne] using hnext

lemma Shape.beforePrev [DecidableEq T] (h : Shape L l (some (t, .beforePrev))) (hl : (l ++ [t]).Nodup) :
    Shape (L.setPrev .tail (.elem t)) (l ++ [t]) none := by
  obtain ⟨hlinked, hnext⟩ := h
  have hnodup := nodup_elems hl
  rw [elems_append, List.append_assoc] at hnodup
  rw [elems_append] at hlinked
  have hlink := Links.Linked.link hnodup hlinked (List.isChain_singleton _)
  rw [Links.setNext_self L hnext] at hlink
  unfold Shape
  rw [elems_append, List.append_assoc]
  exact hlink

lemma mem_dropLast {before after : List (ElemPtr T)} (hafter : after ≠ []) :
    p ∈ (before ++ p :: after).dropLast := by
  rw [List.dropLast_append_of_ne_nil (by simp), List.dropLast_cons_of_ne_nil hafter]
  simp

/-- In a segment around `x`, unlinking `x` keeps the pointers that do not lead to it. -/
lemma unlink_segment [DecidableEq T] {l₁ : List T} {after : List (ElemPtr T)} (hafter : after ≠ [])
    (hnodup : (elems l₁ ++ .elem x :: after).Nodup) (h : L.Linked (elems l₁ ++ .elem x :: after)) :
    (L.unlink (.elem x)).Linked (elems l₁ ++ after) ∧
      (∀ p, L.prev p ≠ .elem x → (L.unlink (.elem x)).prev p = L.prev p) ∧
      ∀ p, L.next p ≠ .elem x → (L.unlink (.elem x)).next p = L.next p := by
  have hnext : L.next (L.prev (.elem x)) = .elem x := (h.prev_spec (by simp [elems])).2
  have hprev : L.prev (L.next (.elem x)) = .elem x := (h.next_spec (mem_dropLast hafter)).2
  obtain ⟨hlinked, hwrites⟩ := h.unlink (by simp [elems]) hafter hnodup
  refine ⟨hlinked, fun p hp => ?_, fun p hp => ?_⟩
  · have hne : p ≠ L.next (.elem x) := by
      rintro rfl
      exact hp hprev
    simp [hwrites, hne]
  · have hne : p ≠ L.prev (.elem x) := by
      rintro rfl
      exact hp hnext
    simp [hwrites, hne]

/-- An exit unlinks any thread of the list, except the one an append has read from `before->prev`. -/
lemma Shape.unlink [DecidableEq T] {l₁ l₂ : List T} (h : Shape L (l₁ ++ x :: l₂) w) (hl : (l₁ ++ x :: l₂).Nodup)
    (hw : ∀ t step, w = some (t, step) → t ∉ l₁ ++ x :: l₂)
    (haims : ∀ t, w = some (t, .elemNext) ∨ w = some (t, .beforePrevNext) →
      L.prev (.elem t) ≠ .elem x) :
    Shape (L.unlink (.elem x)) (l₁ ++ l₂) w := by
  have hsplit : ∀ l : List T, elems (l₁ ++ x :: l) = elems l₁ ++ .elem x :: l.map .elem := by
    intro l
    simp [elems]
  have hnodup := nodup_elems hl
  -- the segment from the head to the tail, unless the append has already cut it off
  have hwhole : L.Linked (elems (l₁ ++ x :: l₂) ++ [.tail]) →
      (L.unlink (.elem x)).Linked (elems (l₁ ++ l₂) ++ [.tail]) ∧
        (∀ p, L.prev p ≠ .elem x → (L.unlink (.elem x)).prev p = L.prev p) ∧
        ∀ p, L.next p ≠ .elem x → (L.unlink (.elem x)).next p = L.next p := by
    intro hlinked
    rw [hsplit, List.append_assoc] at hlinked hnodup
    rw [elems_append, List.append_assoc]
    exact unlink_segment (by simp) hnodup hlinked
  match w with
  | none => exact (hwhole h).1
  | some (t, .elemNext) =>
    obtain ⟨hlinked, hprev⟩ := h
    obtain ⟨hlinked', hp, _⟩ := hwhole hlinked
    have hne := haims t (Or.inl rfl)
    refine ⟨hlinked', ?_⟩
    rw [hp _ hne, hp _ (by rw [← hprev]; exact hne)]
    exact hprev
  | some (t, .beforePrevNext) =>
    obtain ⟨hlinked, hprev, hnext⟩ := h
    obtain ⟨hlinked', hp, hn⟩ := hwhole hlinked
    have hne := haims t (Or.inr rfl)
    refine ⟨hlinked', ?_, ?_⟩
    · rw [hp _ hne, hp _ (by rw [← hprev]; exact hne)]
      exact hprev
    · rw [hn _ (by simp [hnext])]
      exact hnext
  | some (t, .beforePrev) =>
    obtain ⟨hlinked, hnext⟩ := h
    have hnodup' : (elems (l₁ ++ x :: l₂ ++ [t])).Nodup :=
      (nodup_elems (nodup_snoc hl (hw t .beforePrev rfl))).sublist (List.sublist_append_left _ _)
    rw [List.append_assoc, List.cons_append, hsplit] at hlinked hnodup'
    obtain ⟨hlinked', _, hn⟩ := unlink_segment (by simp) hnodup' hlinked
    refine ⟨?_, ?_⟩
    · rw [List.append_assoc, elems_append]
      exact hlinked'
    · rw [hn _ (by simp [hnext])]
      exact hnext

lemma isNode_of_mem_elems (h : p ∈ elems l) : p.isNode = true := by
  cases p with
  | null => simp [elems] at h
  | wild => simp [elems] at h
  | _ => rfl

/-- The tail points back to a node. -/
lemma isNode_prev_tail (h : L.Linked (elems l ++ [.tail])) : (L.prev .tail).isNode = true := by
  have htail : ElemPtr.tail ∈ (elems l ++ [ElemPtr.tail]).tail := by simp [elems]
  rcases List.mem_append.mp (h.prev_spec htail).1 with hmem | hmem
  · exact isNode_of_mem_elems hmem
  · rw [List.mem_singleton.mp hmem]
    rfl

/-- A thread with a node behind it has nodes as neighbours. -/
lemma isNode_neighbours (hx : x ∈ l) (hp : p.isNode = true) (h : L.Linked (elems l ++ [p])) :
    (L.prev (.elem x)).isNode = true ∧ (L.next (.elem x)).isNode = true := by
  have hnode : ∀ q ∈ elems l ++ [p], q.isNode = true := by
    intro q hq
    rcases List.mem_append.mp hq with hmem | hmem
    · exact isNode_of_mem_elems hmem
    · rw [List.mem_singleton.mp hmem]
      exact hp
  have hprev : ElemPtr.elem x ∈ (elems l ++ [p]).tail := by simp [elems, hx]
  have hnext : ElemPtr.elem x ∈ (elems l ++ [p]).dropLast := by
    rw [List.dropLast_concat]
    exact elem_mem_elems.mpr hx
  exact ⟨hnode _ (h.prev_spec hprev).1, hnode _ (h.next_spec hnext).1⟩

/-- The neighbours of a thread of the list are nodes, also in the middle of an append. -/
lemma Shape.neighbours (h : Shape L l w) (hx : x ∈ l) :
    (L.prev (.elem x)).isNode = true ∧ (L.next (.elem x)).isNode = true := by
  match w with
  | none => exact isNode_neighbours hx rfl h
  | some (_, .elemNext) => exact isNode_neighbours hx rfl h.1
  | some (_, .beforePrevNext) => exact isNode_neighbours hx rfl h.1
  | some (t, .beforePrev) =>
    have hlinked := h.1
    rw [elems_append] at hlinked
    exact isNode_neighbours hx rfl hlinked

/-! ## One step -/

/-- `all_list` holds the threads `l`, and `w` is the append under way. -/
structure AllListInv [DecidableEq T] (s : AllListState T) (l : List T) (w : Option (T × InsertStep)) :
    Prop where
  creators : Creators s.pc s.cpu
  nodup : l.Nodup
  live : ∀ t, t ∈ l ↔ (s.pc t).live = true
  window : ∀ u v, (s.pc u).window = some v → w = some v
  opened : ∀ v, w = some v → ∃ u, (s.pc u).window = some v
  shape : Shape s.links l w

lemma CreatePc.window_eq_some {pc : CreatePc T} {step : InsertStep} :
    pc.window = some (t, step) ↔ pc = .insert t step ∧ step ≠ .elemPrev := by
  cases pc with
  | insert t' step' => cases step' <;> simp [CreatePc.window] <;> grind
  | _ => simp [CreatePc.window]

section Step

variable [DecidableEq T] {s : AllListState T} {l : List T} {w : Option (T × InsertStep)}

variable {t next : T} {s' : AllListState T} {links : Links (ElemPtr T)}

section AllListInv

variable (h : AllListInv s l w)
include h

/-- A thread that is being appended is not in the list. -/
lemma AllListInv.not_mem_of_insert {u : T} {step : InsertStep}
    (hu : s.pc u = .insert t step) : t ∉ l := by
  rw [h.live, h.creators.starting u t step hu]
  simp [CreatePc.live]

lemma AllListInv.not_mem_of_window {step : InsertStep} (hw : w = some (t, step)) :
    t ∉ l := by
  obtain ⟨u, hu⟩ := h.opened (t, step) hw
  exact h.not_mem_of_insert (CreatePc.window_eq_some.mp hu).1

lemma AllListInv.window_none (hquiet : s.NoAppend) : w = none := by
  rw [Option.eq_none_iff_forall_ne_some]
  intro v hv
  obtain ⟨u, hu⟩ := h.opened v hv
  rw [hquiet u] at hu
  cases hu

/-- A step that starts, ends and moves no append. -/
lemma AllListInv.quiet (hcreators : Creators s'.pc s'.cpu)
    (hlive : ∀ t, (s'.pc t).live = (s.pc t).live) (hwindow : ∀ t, (s'.pc t).window = (s.pc t).window)
    (hshape : Shape s'.links l w) : AllListInv s' l w := by
  refine ⟨hcreators, h.nodup, fun t => ?_, fun u v hv => ?_, fun v hv => ?_, hshape⟩
  · rw [hlive]
    exact h.live t
  · rw [hwindow] at hv
    exact h.window u v hv
  · obtain ⟨u, hu⟩ := h.opened v hv
    exact ⟨u, by rw [hwindow]; exact hu⟩

lemma AllListInv.create (hcpu : s.pc s.cpu = .client) (ht : s.pc t = .absent) :
    AllListInv
      { s with
        links := fillPage s.links t .null
        pc := update (update s.pc t .starting) s.cpu (.insert t .elemPrev) } l w := by
  have htl : t ∉ l := by
    rw [h.live, ht]
    simp [CreatePc.live]
  apply h.quiet (h.creators.create hcpu ht)
  · grind [CreatePc.live]
  · grind [CreatePc.window]
  · refine h.shape.congr htl (fun step hw => ?_) fun p hp => by simp [fillPage, hp]
    obtain ⟨u, hu⟩ := h.opened (t, step) hw
    have hstart := h.creators.starting u t step (CreatePc.window_eq_some.mp hu).1
    rw [ht] at hstart
    cases hstart

lemma AllListInv.unblock (hcpu : s.pc s.cpu = .unblock t) :
    AllListInv
      { s with pc := update (update s.pc t .client) s.cpu .client } l w := by
  have ht := h.creators.created s.cpu t hcpu
  apply h.quiet (h.creators.unblock hcpu)
  · grind [CreatePc.live]
  · grind [CreatePc.window]
  · exact h.shape

/-- The running thread's append goes on to its next assignment. -/
lemma AllListInv.advance {step step' : InsertStep} (hcpu : s.pc s.cpu = .insert t step)
    (hstep' : step' ≠ .elemPrev) (hfirst : step = .elemPrev → s.NoAppend)
    (hshape : Shape links l (some (t, step'))) :
    AllListInv { s with links, pc := update s.pc s.cpu (.insert t step') } l
      (some (t, step')) := by
  -- nobody else is past the first assignment
  have halone : ∀ u, u ≠ s.cpu → (s.pc u).window = none := by
    intro u hu
    by_cases hs : step = .elemPrev
    · exact hfirst hs u
    · rw [Option.eq_none_iff_forall_ne_some]
      rintro ⟨t', step''⟩ hv
      have hw := h.window u _ hv
      rw [h.window s.cpu (t, step) (CreatePc.window_eq_some.mpr ⟨hcpu, hs⟩)] at hw
      obtain ⟨rfl, rfl⟩ : t = t' ∧ step = step'' := by simpa using hw
      exact hu (h.creators.unique u s.cpu t (by rw [(CreatePc.window_eq_some.mp hv).1]; rfl)
        (by rw [hcpu]; rfl))
  have hown : (update s.pc s.cpu (.insert t step') s.cpu).window = some (t, step') :=
    CreatePc.window_eq_some.mpr ⟨by simp, hstep'⟩
  refine ⟨h.creators.advance hcpu step', h.nodup, fun u => ?_, fun u v hv => ?_, fun v hv => ?_, hshape⟩
  · rw [h.live]
    grind [CreatePc.live]
  · by_cases hu : u = s.cpu
    · rw [hu, hown] at hv
      exact hv
    · dsimp only at hv
      rw [update_of_ne hu, halone u hu] at hv
      cases hv
  · exact ⟨s.cpu, by rw [hown]; exact hv⟩

/-- The last assignment: the thread is in the list. -/
lemma AllListInv.append (hcpu : s.pc s.cpu = .insert t .beforePrev)
    (hl : (l ++ [t]).Nodup) (hshape : Shape links (l ++ [t]) none) :
    AllListInv
      { s with links, pc := update (update s.pc t .created) s.cpu (.unblock t) }
      (l ++ [t]) none := by
  have hw := h.window s.cpu (t, .beforePrev) (CreatePc.window_eq_some.mpr ⟨hcpu, by decide⟩)
  refine ⟨h.creators.append hcpu, hl, fun u => ?_, fun u v hv => ?_, fun v hv => (by cases hv), hshape⟩
  · rw [List.mem_append, h.live]
    grind [CreatePc.live]
  · -- another append under way would be the same one
    obtain ⟨t', step'⟩ := v
    obtain ⟨hpc, hne⟩ := CreatePc.window_eq_some.mp hv
    have hold : s.pc u = .insert t' step' ∧ u ≠ s.cpu := by grind [update]
    have hw' := h.window u _ (CreatePc.window_eq_some.mpr ⟨hold.1, hne⟩)
    rw [hw] at hw'
    obtain ⟨rfl, _⟩ : t = t' ∧ InsertStep.beforePrev = step' := by simpa using hw'
    exact absurd (h.creators.unique u s.cpu t (by rw [hold.1]; rfl) (by rw [hcpu]; rfl)) hold.2

lemma AllListInv.insert {step : InsertStep} (hcpu : s.pc s.cpu = .insert t step)
    (hcond : Undisturbed s .exec) (hstep : execAppend s = some s') :
    ∃ w', AllListInv s' (replay l (completes (s, .exec)).toList) w' := by
  have ht := h.not_mem_of_insert hcpu
  have hlt := nodup_snoc h.nodup ht
  have hw : step ≠ .elemPrev → w = some (t, step) := fun hne =>
    h.window s.cpu (t, step) (CreatePc.window_eq_some.mpr ⟨hcpu, hne⟩)
  have hshape := h.shape
  simp only [execAppend, hcpu] at hstep
  simp only [completes, hcpu]
  cases step with
  | elemPrev =>
    have hquiet : s.NoAppend := hcond ⟨t, hcpu⟩
    rw [h.window_none hquiet] at hshape
    simp only [listInsert] at hstep
    split at hstep
    · cases hstep
    · obtain rfl := Option.some.inj hstep
      exact ⟨_, h.advance hcpu (by decide) (fun _ => hquiet) (hshape.elemPrev ht)⟩
  | elemNext =>
    rw [hw (by decide)] at hshape
    obtain rfl := Option.some.inj hstep
    exact ⟨_, h.advance hcpu (by decide) (by simp) (hshape.elemNext ht)⟩
  | beforePrevNext =>
    rw [hw (by decide)] at hshape
    simp only [listInsert] at hstep
    split at hstep
    · obtain rfl := Option.some.inj hstep
      exact ⟨_, h.advance hcpu (by decide) (by simp) (hshape.beforePrevNext hlt)⟩
    · cases hstep
  | beforePrev =>
    rw [hw (by decide)] at hshape
    obtain rfl := Option.some.inj hstep
    exact ⟨none, h.append hcpu hlt (hshape.beforePrev hlt)⟩

/-- The running thread leaves the list, and the CPU goes to `next`. -/
lemma AllListInv.remove (hcpu : s.pc s.cpu = .client) (hne : next ≠ s.cpu)
    (hnext : (s.pc next).schedulable = true) {gone : CreatePc T} (hgone : gone = .absent ∨ gone = .dying)
    (hshape : Shape links (l.erase s.cpu) w) :
    AllListInv { s with links, pc := update s.pc s.cpu gone, cpu := next } (l.erase s.cpu) w := by
  have hlive : gone.live = false := by rcases hgone with rfl | rfl <;> rfl
  have hwindow : gone.window = none := by rcases hgone with rfl | rfl <;> rfl
  have hstart : gone ≠ .starting := by rcases hgone with rfl | rfl <;> simp
  refine ⟨h.creators.exit hcpu hne hnext hlive hstart, h.nodup.erase _, fun t => ?_, fun u v hv => ?_,
    fun v hv => ?_, hshape⟩
  · rw [h.nodup.mem_erase_iff, h.live]
    grind
  · by_cases hu : u = s.cpu
    · grind
    · dsimp only at hv
      rw [update_of_ne hu] at hv
      exact h.window u v hv
  · -- the running thread is not in the middle of an append
    obtain ⟨u, hu⟩ := h.opened v hv
    refine ⟨u, ?_⟩
    dsimp only
    rw [update_of_ne]
    · exact hu
    · rintro rfl
      rw [hcpu] at hu
      cases hu

/-- The pointers after the running thread is unlinked. -/
lemma AllListInv.unlinked (hcpu : s.pc s.cpu = .client)
    (hcond : Undisturbed s (.exit next)) : Shape (s.links.unlink (.elem s.cpu)) (l.erase s.cpu) w := by
  have hmem : s.cpu ∈ l := by
    rw [h.live, hcpu]
    rfl
  obtain ⟨l₁, l₂, rfl⟩ := List.append_of_mem hmem
  have hleft : s.cpu ∉ l₁ := fun hm => (List.nodup_append.mp h.nodup).2.2 _ hm _ (by simp) rfl
  rw [List.erase_append_right _ hleft, List.erase_cons_head]
  apply h.shape.unlink h.nodup fun t step hw => h.not_mem_of_window hw
  intro t hw
  have hopen : ∃ u, (s.pc u).aims = some t := by
    rcases hw with hw | hw
    all_goals
      obtain ⟨u, hu⟩ := h.opened _ hw
      exact ⟨u, by rw [(CreatePc.window_eq_some.mp hu).1]; rfl⟩
  obtain ⟨u, hu⟩ := hopen
  exact hcond u t hu

lemma AllListInv.exit (hcond : Undisturbed s (.exit next))
    (hstep : allListStep s (.exit next) = some s') : AllListInv s' (l.erase s.cpu) w := by
  obtain ⟨⟨hcpu, hne, hnext⟩, hexit⟩ := Option.ite_none_right_eq_some.mp hstep
  obtain ⟨links, hremove, hs'⟩ := Option.bind_eq_some_iff.mp hexit
  obtain rfl := Option.some.inj hs'
  obtain ⟨_, rfl⟩ := Option.ite_some_none_eq_some.mp hremove
  have hunlinked := h.unlinked hcpu hcond
  apply h.remove hcpu hne hnext
  · split
    · exact Or.inl rfl
    · exact Or.inr rfl
  · split
    · -- the page is filled after the thread has left the list
      refine hunlinked.congr h.nodup.not_mem_erase (fun step hw => ?_) fun p hp => by simp [fillPage, hp]
      refine h.not_mem_of_window hw ?_
      rw [h.live, hcpu]
      rfl
    · exact hunlinked

/-- An undisturbed step keeps the invariant, and its effect on the list is that of the operation it completes. -/
lemma AllListInv.step {a : AllListAction T} (hcond : Undisturbed s a)
    (hstep : allListStep s a = some s') : ∃ w', AllListInv s' (replay l (completes (s, a)).toList) w' := by
  cases a with
  | create t =>
    obtain ⟨⟨hcpu, ht⟩, rfl⟩ := Option.ite_some_none_eq_some.mp hstep
    exact ⟨w, h.create hcpu ht⟩
  | exec =>
    cases hcpu : s.pc s.cpu with
    | insert t step => exact h.insert hcpu hcond hstep
    | unblock t =>
      simp only [allListStep, execAppend, hcpu] at hstep
      obtain rfl := Option.some.inj hstep
      simp only [completes, hcpu]
      exact ⟨w, h.unblock hcpu⟩
    | _ => simp [allListStep, execAppend, hcpu] at hstep
  | exit next => exact ⟨w, h.exit hcond hstep⟩
  | timer next =>
    obtain ⟨hnext, rfl⟩ := Option.ite_some_none_eq_some.mp hstep
    obtain ⟨hcreators, hnodup, hlive, hwindow, hopened, hshape⟩ := h
    exact ⟨w, { hcreators with running := hnext }, hnodup, hlive, hwindow, hopened, hshape⟩

/-- No assignment of an undisturbed append fails an assertion or follows a wild pointer. -/
lemma AllListInv.listInsert_isSome {step : InsertStep}
    (hcpu : s.pc s.cpu = .insert t step) (hcond : Undisturbed s .exec) :
    (listInsert s.links t step).isSome = true := by
  have hshape := h.shape
  cases step with
  | elemPrev =>
    rw [h.window_none (hcond ⟨t, hcpu⟩)] at hshape
    have hnode := isNode_prev_tail hshape
    have hnull : s.links.prev .tail ≠ .null := by
      intro hnull
      rw [hnull] at hnode
      cases hnode
    simp [listInsert, hnull]
  | elemNext => rfl
  | beforePrevNext =>
    rw [h.window s.cpu (t, .beforePrevNext) (CreatePc.window_eq_some.mpr ⟨hcpu, by decide⟩)] at hshape
    simp [listInsert, isNode_prev_tail hshape.1]
  | beforePrev => rfl

/-- Nor does an exit. -/
lemma AllListInv.listRemove_isSome (hcpu : s.pc s.cpu = .client) :
    (listRemove s.links s.cpu).isSome = true := by
  have hmem : s.cpu ∈ l := by
    rw [h.live, hcpu]
    rfl
  simp [listRemove, h.shape.neighbours hmem]

end AllListInv

end Step

/-! ## Whole runs -/

lemma mapM_listEntry (l : List T) : (l.map ElemPtr.elem).mapM listEntry = some l := by
  induction l with
  | nil => rfl
  | cons t l ih => simp [listEntry, ih]

section Run

variable [DecidableEq T]

lemma allListStart_inv (initial : T) : AllListInv (allListStart initial) [initial] none := by
  have hpc : ∀ t, (allListStart initial).pc t = if t = initial then .client else .absent :=
    fun _ => rfl
  refine ⟨⟨?_, ?_, ?_, ?_⟩, List.nodup_singleton initial, ?_, ?_, fun v hv => (by cases hv), ?_⟩
  · simp [hpc, show (allListStart initial).cpu = initial from rfl, CreatePc.schedulable]
  · grind
  · grind
  · grind [CreatePc.creates]
  · grind [CreatePc.live]
  · grind [CreatePc.window]
  · refine List.isChain_cons_cons.mpr ⟨⟨rfl, ?_⟩, List.isChain_cons_cons.mpr ⟨⟨?_, rfl⟩, ?_⟩⟩
    · simp [allListStart]
    · simp [allListStart]
    · exact List.isChain_singleton _

lemma visited_of_linked {s : AllListState T} {l : List T} {L : Links (ElemPtr T)}
    (hnext : L.next = s.links.next) (h : L.Linked (elems l ++ [.tail])) {fuel : ℕ}
    (hfuel : l.length < fuel) : visited s fuel = some l := by
  have hwalk := h.walk (by simp) (by simpa using hfuel)
  rw [hnext] at hwalk
  rw [visited, hwalk]
  exact mapM_listEntry l

variable {initial : T} {as : List (AllListAction T)} {s : AllListState T}
  (hrun : (allListMachine T).run (allListStart initial) as = some s)
  (hsteps : ∀ p ∈ (allListMachine T).history (allListStart initial) as, Undisturbed p.1 p.2)
include hrun hsteps

/-- An undisturbed run refines the list with atomic operations. -/
lemma undisturbed_run :
    ∃ w, AllListInv s (replay [initial]
      (((allListMachine T).history (allListStart initial) as).filterMap completes)) w := by
  revert hsteps
  refine (allListMachine T).run_induction (fun _ => ⟨none, allListStart_inv initial⟩) ?_ hrun
  intro as r a t hr ih hstep hsteps
  have hsnoc := hsteps
  rw [(allListMachine T).history_snoc hr] at hsnoc
  obtain ⟨w, hinv⟩ := ih fun p hp => hsnoc p (List.mem_append_left _ hp)
  rw [(allListMachine T).filterMap_history_snoc hr, replay, List.foldl_append]
  exact hinv.step (hsnoc (r, a) (by simp)) hstep

/-- In an undisturbed run `list_insert` and `list_remove` never fail. -/
theorem undisturbed_no_fault :
    (∀ t step, s.pc s.cpu = .insert t step → Undisturbed s .exec →
      (listInsert s.links t step).isSome = true) ∧
    (s.pc s.cpu = .client → (listRemove s.links s.cpu).isSome = true) := by
  obtain ⟨w, h⟩ := undisturbed_run hrun hsteps
  exact ⟨fun t step hcpu hcond => h.listInsert_isSome hcpu hcond, fun hcpu => h.listRemove_isSome hcpu⟩

/-- In a run of undisturbed steps, `all_list` is well-formed whenever no append is under way. -/
theorem allList_integrity (hquiet : s.NoAppend) : ∃ l, s.WellFormed l := by
  obtain ⟨w, h⟩ := undisturbed_run hrun hsteps
  generalize replay [initial] (List.filterMap completes _) = l at h
  have hlinked : s.links.Linked (elems l ++ [.tail]) := by
    have hshape := h.shape
    rw [h.window_none hquiet] at hshape
    exact hshape
  exact ⟨l, hlinked, h.nodup, h.live, fun fuel => visited_of_linked rfl hlinked⟩

end Run

/-! ## Two runs -/

instance [DecidableEq T] [Fintype T] (s : AllListState T) : Decidable s.NoAppend :=
  inferInstanceAs (Decidable (∀ u, (s.pc u).window = none))

instance [DecidableEq T] [Fintype T] (s : AllListState T) (a : AllListAction T) :
    Decidable (Undisturbed s a) :=
  match a with
  | .exec => inferInstanceAs (Decidable ((∃ t, s.pc s.cpu = .insert t .elemPrev) → s.NoAppend))
  | .exit _ => inferInstanceAs
      (Decidable (∀ u t, (s.pc u).aims = some t → s.links.prev (.elem t) ≠ .elem s.cpu))
  | .create _ => isTrue trivial
  | .timer _ => isTrue trivial

/-- The calls of `thread_create` up to the point where the new thread is ready. -/
def createThread (t : T) : List (AllListAction T) :=
  .create t :: List.replicate 5 .exec

/-- Thread 1 exits in the middle of an append, but only after the third assignment. -/
def lateExit : List (AllListAction (Fin 3)) :=
  createThread 1 ++ [.create 2, .exec, .exec, .exec, .timer 1, .exit 0, .exec]

theorem allList_integrity_lateExit :
    ∃ s, (allListMachine (Fin 3)).run (allListStart 0) lateExit = some s ∧ ∃ l, s.WellFormed l := by
  have hrun : ((allListMachine (Fin 3)).run (allListStart 0) lateExit).map
      (fun s => decide s.NoAppend) = some true := by decide +kernel
  obtain ⟨s, hs, hquiet⟩ := Option.map_eq_some_iff.mp hrun
  exact ⟨s, hs, allList_integrity hs (by decide +kernel) (of_decide_eq_true hquiet)⟩

theorem undisturbed_no_fault_lateExit : ∃ s, (allListMachine (Fin 3)).run (allListStart 0) lateExit = some s ∧
    (s.pc s.cpu = .client → (listRemove s.links s.cpu).isSome = true) := by
  have hrun : ((allListMachine (Fin 3)).run (allListStart 0) lateExit).isSome := by decide +kernel
  obtain ⟨s, hs⟩ := Option.isSome_iff_exists.mp hrun
  exact ⟨s, hs, (undisturbed_no_fault hs (by decide +kernel)).2⟩

/-- Thread 0 is interrupted in the middle of appending thread 2, while thread 1 appends thread 3; then
thread 2 exits. -/
def overlap : List (AllListAction (Fin 4)) :=
  createThread 1 ++ [.create 2, .exec, .timer 1] ++ createThread 3 ++
    [.timer 0, .exec, .exec, .exec, .exec, .timer 2, .exit 0]

/-- Thread 3 is lost: it exists, and `thread_foreach` does not find it. -/
theorem allList_overlap_loses_thread :
    ∃ s, (allListMachine (Fin 4)).run (allListStart 0) overlap = some s ∧ s.NoAppend ∧
      (s.pc 3).live = true ∧ visited s 10 = some [0, 1] ∧ ¬∃ l, s.WellFormed l := by
  have hrun : ((allListMachine (Fin 4)).run (allListStart 0) overlap).map
      (fun s => (decide s.NoAppend, (s.pc 3).live, visited s 10)) =
        some (true, true, some [0, 1]) := by decide +kernel
  obtain ⟨s, hs, hobs⟩ := Option.map_eq_some_iff.mp hrun
  obtain ⟨hquiet, hlive, hvisited⟩ : s.NoAppend ∧ (s.pc 3).live = true ∧
      visited s 10 = some [0, 1] := by simpa using hobs
  refine ⟨s, hs, hquiet, hlive, hvisited, ?_⟩
  rintro ⟨l, hwf⟩
  have hcard : l.length ≤ 4 := by simpa using List.Nodup.length_le_card hwf.nodup
  have hl : l = [0, 1] := by
    have h := hwf.visited 10 (by omega)
    rw [hvisited] at h
    exact (Option.some.inj h).symm
  have hmem := (hwf.live 3).mpr hlive
  rw [hl] at hmem
  exact absurd hmem (by decide)

end OsLabs.Threads
