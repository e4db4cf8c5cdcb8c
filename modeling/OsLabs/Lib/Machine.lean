import Mathlib.Data.List.Basic
import Mathlib.Data.List.Induction

/-!
# Machines: partial step functions, their runs and their invariants

A `Machine` is a partial step function with a set of initial states. All
nondeterminism (who moves next, what a client asks for, what an allocator hands
out) is in the action, so a run is a list of actions and every run can be executed.

* `ofExec` builds one from a step function that also reports failed assertions;
* `run` executes a list of actions, `history` pairs each action with the state it was
  taken in, so that "how often did this happen so far" is a count over `history`;
* `run_induction` is the induction every run-level result goes through: one step
  at the end of the run;
* `Reachable.invariant` is its special case for properties of states;
* `restrict` keeps the steps that meet a side condition: a run of `M.restrict C` is a
  run of `M` whose steps all meet `C`;
* `Reachable.map` transports reachability along a refinement mapping with stuttering.
-/

namespace OsLabs.Lib

/-- A partial step function with its initial states. -/
structure Machine (S A : Type*) where
  Init : S → Prop
  step : S → A → Option S

/-- Why a step is not taken: its guard does not hold, or an assertion in its code fails. -/
inductive Halt (F : Type*) where
  | disabled
  | fault (f : F)
deriving DecidableEq

namespace Machine

/-- The machine of a step function that tells failed assertions from disabled steps. -/
def ofExec {S A F : Type*} (Init : S → Prop) (exec : S → A → Except (Halt F) S) : Machine S A where
  Init
  step s a := (exec s a).toOption

variable {S A S' A' : Type*} (M : Machine S A)

/-! ## Runs -/

/-- Execute a list of actions; `none` as soon as one of them is not possible. -/
def run : S → List A → Option S
  | s, [] => some s
  | s, a :: as =>
    match M.step s a with
    | none => none
    | some s' => run s' as

/-- The actions of a run, each with the state it was taken in. -/
def history : S → List A → List (S × A)
  | _, [] => []
  | s, a :: as =>
    (s, a) ::
      match M.step s a with
      | none => []
      | some s' => history s' as

variable {s t : S} {a : A} {as : List A}

lemma ofExec_step {F : Type*} {Init : S → Prop} {exec : S → A → Except (Halt F) S} :
    (ofExec Init exec).step s a = some t ↔ exec s a = .ok t := by
  simp only [ofExec]
  cases exec s a <;> simp [Except.toOption]

@[simp] lemma run_nil (s : S) : M.run s [] = some s := rfl

lemma run_cons (s : S) (a : A) (as : List A) :
    M.run s (a :: as) = (M.step s a).bind fun s' => M.run s' as := by
  simp only [run]
  cases M.step s a <;> rfl

lemma run_append (s : S) (as bs : List A) :
    M.run s (as ++ bs) = (M.run s as).bind fun s' => M.run s' bs := by
  induction as generalizing s with
  | nil => rfl
  | cons a as ih =>
    rw [List.cons_append, run_cons, run_cons]
    cases M.step s a with
    | none => rfl
    | some s' => exact ih s'

lemma run_snoc (s : S) (as : List A) (a : A) :
    M.run s (as ++ [a]) = (M.run s as).bind fun s' => M.step s' a := by
  rw [run_append]
  congr 1
  funext s'
  rw [run_cons]
  cases M.step s' a <;> rfl

/-- The last step of a nonempty run. -/
lemma run_snoc_eq_some : M.run s (as ++ [a]) = some t ↔ ∃ r, M.run s as = some r ∧ M.step r a = some t := by
  rw [run_snoc, Option.bind_eq_some_iff]

/-- A run through a middle state. -/
lemma run_append_eq_some {bs : List A} :
    M.run s (as ++ bs) = some t ↔ ∃ r, M.run s as = some r ∧ M.run r bs = some t := by
  rw [run_append, Option.bind_eq_some_iff]

@[simp] lemma history_nil (s : S) : M.history s [] = [] := rfl

lemma history_append (h : M.run s as = some t) (bs : List A) :
    M.history s (as ++ bs) = M.history s as ++ M.history t bs := by
  induction as generalizing s with
  | nil =>
    obtain rfl : s = t := by simpa using h
    rfl
  | cons a as ih =>
    rw [run_cons] at h
    obtain ⟨r, hr, hrun⟩ := Option.bind_eq_some_iff.mp h
    simp only [List.cons_append, history, hr, ih hrun]

lemma history_snoc (h : M.run s as = some t) (a : A) :
    M.history s (as ++ [a]) = M.history s as ++ [(t, a)] := by
  rw [M.history_append h]
  simp only [history]
  cases M.step t a <;> rfl

/-- A count over the history grows by the last step's share. -/
lemma countP_history_snoc (h : M.run s as = some t) (a : A) (p : S × A → Bool) :
    (M.history s (as ++ [a])).countP p = (M.history s as).countP p + (p (t, a)).toNat := by
  rw [M.history_snoc h, List.countP_append, List.countP_singleton]
  cases p (t, a) <;> rfl

/-- What `f` picks from the history grows by the last step's share. -/
lemma filterMap_history_snoc {B : Type*} (h : M.run s as = some t) (a : A) (f : S × A → Option B) :
    (M.history s (as ++ [a])).filterMap f = (M.history s as).filterMap f ++ (f (t, a)).toList := by
  rw [M.history_snoc h]
  cases hf : f (t, a) <;> simp [hf]

/-- Induction over a run from `s`, one step at its end. -/
@[elab_as_elim] lemma run_induction {P : List A → S → Prop} (nil : P [] s)
    (snoc : ∀ as r a t, M.run s as = some r → P as r → M.step r a = some t → P (as ++ [a]) t)
    (h : M.run s as = some t) : P as t := by
  induction as using List.reverseRecOn generalizing t with
  | nil =>
    obtain rfl : s = t := by simpa using h
    exact nil
  | append_singleton as a ih =>
    obtain ⟨r, hr, hstep⟩ := M.run_snoc_eq_some.mp h
    exact snoc as r a t hr (ih hr) hstep

/-! ## Reachable states and invariants -/

/-- The states some run from an initial state ends in. -/
def Reachable (t : S) : Prop :=
  ∃ s as, M.Init s ∧ M.run s as = some t

variable {M}

lemma Reachable.init (h : M.Init s) : M.Reachable s :=
  ⟨s, [], h, rfl⟩

lemma Reachable.step (h : M.Reachable s) (hstep : M.step s a = some t) : M.Reachable t := by
  obtain ⟨s₀, as, hinit, hrun⟩ := h
  exact ⟨s₀, as ++ [a], hinit, M.run_snoc_eq_some.mpr ⟨s, hrun, hstep⟩⟩

lemma Reachable.run (h : M.Reachable s) (hrun : M.run s as = some t) : M.Reachable t :=
  M.run_induction (P := fun _ r => M.Reachable r) h
    (fun _ _ _ _ _ hr hstep => hr.step hstep) hrun

/-- A property of the initial states that every step from a reachable state keeps
holds in every reachable state. -/
@[elab_as_elim] lemma Reachable.invariant {P : S → Prop} (init : ∀ s, M.Init s → P s)
    (step : ∀ s a t, M.Reachable s → P s → M.step s a = some t → P t) (h : M.Reachable t) : P t := by
  obtain ⟨s₀, as, hinit, hrun⟩ := h
  have key : M.Reachable t ∧ P t :=
    M.run_induction ⟨.init hinit, init s₀ hinit⟩
      (fun _ r a t _ hr hstep => ⟨hr.1.step hstep, step r a t hr.1 hr.2 hstep⟩) hrun
  exact key.2

/-! ## Restricting the steps -/

/-- The machine that takes a step of `M` only when it meets `C`. -/
def restrict (M : Machine S A) (C : S → A → Prop) [∀ s a, Decidable (C s a)] : Machine S A where
  Init := M.Init
  step s a := if C s a then M.step s a else none

lemma restrict_step {C : S → A → Prop} [∀ s a, Decidable (C s a)] :
    (M.restrict C).step s a = some t ↔ C s a ∧ M.step s a = some t := by
  simp only [restrict]
  split <;> simp_all

/-- A restricted run is a run. -/
lemma run_of_restrict {C : S → A → Prop} [∀ s a, Decidable (C s a)] (h : (M.restrict C).run s as = some t) :
    M.run s as = some t := by
  refine (M.restrict C).run_induction rfl ?_ h
  intro as r a t _ hr hstep
  exact M.run_snoc_eq_some.mpr ⟨r, hr, (restrict_step.mp hstep).2⟩

/-! ## Refinement mappings -/

/-- A mapping under which initial states stay initial and each step is either a step of
`N` or changes nothing carries reachable states to reachable states. -/
lemma Reachable.map {N : Machine S' A'} (abs : S → S') (init : ∀ s, M.Init s → N.Init (abs s))
    (step : ∀ s a t, M.Reachable s → M.step s a = some t →
      abs t = abs s ∨ ∃ b, N.step (abs s) b = some (abs t))
    (h : M.Reachable t) : N.Reachable (abs t) := by
  refine h.invariant (fun s hs => .init (init s hs)) ?_
  intro s a t hs habs hstep
  rcases step s a t hs hstep with heq | ⟨b, hb⟩
  · rw [heq]
    exact habs
  · exact habs.step hb

end Machine

end OsLabs.Lib
