import Mathlib.Data.List.Basic

/-!
# Code that can fail

The rules that run such code, and `Yields post r`: what the code with result `r` returns, if it returns, meets `post`. The
rules for it follow the shape of the code. `Returns f a` says that the loops in `f`, which stop when their fuel is used up, return
`a` if there is enough of it.
-/

namespace OsLabs.Lib

universe u

variable {ε : Type*} {α β : Type u}

@[simp] lemma except_ok_bind (a : α) (f : α → Except ε β) : ((.ok a : Except ε α) >>= f) = f a := rfl

@[simp] lemma except_error_bind (e : ε) (f : α → Except ε β) :
    ((.error e : Except ε α) >>= f) = .error e := rfl

@[simp] lemma except_pure (a : α) : (pure a : Except ε α) = .ok a := rfl

/-- The first part of what is returned. -/
lemma except_fst_eq {r : Except ε (α × β)} {a a' : α} {b : β} (h : r = .ok (a, b))
    (h' : r.toOption.map Prod.fst = some a') : a = a' := by
  subst h
  exact Option.some.inj h'

/-- What is returned, from a part of it. -/
lemma except_exists_of_map {r : Except ε α} {g : α → β} {b : β} (h : r.toOption.map g = some b) :
    ∃ a, r = .ok a ∧ g a = b := by
  cases r with
  | error e => cases h
  | ok a => exact ⟨a, rfl, Option.some.inj h⟩

/-- A loop over the numbers below `n`: each round returns, and `P i` holds after `i` rounds. -/
lemma foldlM_range {f : α → ℕ → Except ε α} {P : ℕ → α → Prop} {n : ℕ}
    (step : ∀ i < n, ∀ a, P i a → ∃ a', f a i = .ok a' ∧ P (i + 1) a') {a : α} (h : P 0 a) :
    ∃ a', (List.range n).foldlM f a = .ok a' ∧ P n a' := by
  induction n with
  | zero => exact ⟨a, rfl, h⟩
  | succ n ih =>
    obtain ⟨b, hb, hPb⟩ := ih fun i hi => step i (by omega)
    obtain ⟨c, hc, hPc⟩ := step n (by omega) b hPb
    refine ⟨c, ?_, hPc⟩
    rw [List.range_succ, List.foldlM_append, hb, except_ok_bind, List.foldlM_cons, hc]
    rfl

/-- What the code returns meets `post`. -/
structure Yields (post : α → Prop) (r : Except ε α) : Prop where
  of_eq_ok : ∀ a, r = .ok a → post a

namespace Yields

variable {post : α → Prop} {r : Except ε α}

lemma ok {a : α} (h : post a) : Yields post (.ok a : Except ε α) := by
  constructor
  intro b hb
  cases hb
  exact h

lemma error (e : ε) : Yields post (.error e : Except ε α) := by
  constructor
  intro a ha
  cases ha

/-- Nothing is asked of what is returned. -/
lemma trivial (r : Except ε α) : Yields (fun _ => True) r :=
  ⟨fun _ _ => True.intro⟩

/-- A sequence: the second part starts from what the first one returns. -/
lemma bind {f : α → Except ε β} {post' : β → Prop} (h : Yields post r)
    (hf : ∀ a, post a → Yields post' (f a)) : Yields post' (r >>= f) := by
  cases r with
  | error e => exact error e
  | ok a => exact hf a (h.of_eq_ok a rfl)

/-- A test. -/
lemma ite {c : Prop} [Decidable c] {r' : Except ε α} (ht : c → Yields post r) (he : ¬c → Yields post r') :
    Yields post (if c then r else r') := by
  by_cases hc : c
  · rw [if_pos hc]
    exact ht hc
  · rw [if_neg hc]
    exact he hc

end Yields

/-- What the code returns meets `post`, and it fails in no other way than with `e`. -/
def YieldsOr (e : ε) (post : α → Prop) (r : Except ε α) : Prop :=
  r = .error e ∨ ∃ a, r = .ok a ∧ post a

namespace YieldsOr

variable {e : ε} {post : α → Prop} {r : Except ε α}

lemma ok {a : α} (h : post a) : YieldsOr e post (.ok a) :=
  Or.inr ⟨a, rfl, h⟩

lemma mono {post' : α → Prop} (h : YieldsOr e post r) (himp : ∀ a, post a → post' a) : YieldsOr e post' r := by
  rcases h with rfl | ⟨a, rfl, ha⟩
  · exact Or.inl rfl
  · exact ok (himp a ha)

lemma bind {f : α → Except ε β} {post' : β → Prop} (h : YieldsOr e post r) (hf : ∀ a, post a → YieldsOr e post' (f a)) :
    YieldsOr e post' (r >>= f) := by
  rcases h with rfl | ⟨a, rfl, ha⟩
  · exact Or.inl rfl
  · exact hf a ha

/-- A loop over the numbers below `n`: `P i` holds after `i` rounds. -/
lemma foldlM_range {f : α → ℕ → Except ε α} {P : ℕ → α → Prop} {n : ℕ}
    (step : ∀ i < n, ∀ a, P i a → YieldsOr e (P (i + 1)) (f a i)) {a : α} (h : P 0 a) :
    YieldsOr e (P n) ((List.range n).foldlM f a) := by
  induction n with
  | zero => exact ok h
  | succ n ih =>
    rw [List.range_succ, List.foldlM_append]
    refine bind (ih fun i hi => step i (by omega)) fun b hb => ?_
    exact bind (step n (by omega) b hb) fun c hc => ok hc

end YieldsOr

/-! ## Fuel -/

/-- With enough fuel, the code returns `a`. -/
def Returns (f : ℕ → Option α) (a : α) : Prop :=
  ∃ n, ∀ fuel, n ≤ fuel → f fuel = some a

namespace Returns

variable {f g : ℕ → Option α} {a b : α}

/-- The code needs no fuel. -/
lemma of_eq (h : ∀ fuel, f fuel = some a) : Returns f a :=
  ⟨0, fun fuel _ => h fuel⟩

lemma congr (h : Returns f a) (hfg : ∀ fuel, g fuel = f fuel) : Returns g a := by
  obtain ⟨n, hf⟩ := h
  exact ⟨n, fun fuel hn => (hfg fuel).trans (hf fuel hn)⟩

/-- One round of a loop. -/
lemma succ (h : Returns f a) (hfg : ∀ fuel, g (fuel + 1) = f fuel) : Returns g a := by
  obtain ⟨n, hf⟩ := h
  refine ⟨n + 1, fun fuel hn => ?_⟩
  obtain ⟨fuel, rfl⟩ : ∃ k, fuel = k + 1 := ⟨fuel - 1, by omega⟩
  rw [hfg, hf fuel (by omega)]

lemma unique (h : Returns f a) (h' : Returns f b) : a = b := by
  obtain ⟨n, hf⟩ := h
  obtain ⟨m, hf'⟩ := h'
  have heq := hf (n + m) (by omega)
  rw [hf' (n + m) (by omega)] at heq
  exact (Option.some.inj heq).symm

lemma bind {g : ℕ → α → Option β} {b : β} (h : Returns f a) (hg : Returns (fun fuel => g fuel a) b) :
    Returns (fun fuel => f fuel >>= g fuel) b := by
  obtain ⟨n, hf⟩ := h
  obtain ⟨m, hg⟩ := hg
  refine ⟨n + m, fun fuel hfuel => ?_⟩
  show (f fuel).bind (g fuel) = some b
  rw [hf fuel (by omega)]
  exact hg fuel (by omega)

lemma map {g : α → β} (h : Returns f a) : Returns (fun fuel => (f fuel).map g) (g a) := by
  obtain ⟨n, hf⟩ := h
  refine ⟨n, fun fuel hfuel => ?_⟩
  show (f fuel).map g = some (g a)
  rw [hf fuel hfuel]
  rfl

/-- A loop over the numbers below `n`: each round returns, and `P i` holds after `i` rounds. -/
lemma foldlM_range {f : ℕ → α → ℕ → Option α} {P : ℕ → α → Prop} {n : ℕ}
    (step : ∀ i < n, ∀ a, P i a → ∃ a', Returns (fun fuel => f fuel a i) a' ∧ P (i + 1) a') {a : α} (h : P 0 a) :
    ∃ a', Returns (fun fuel => (List.range n).foldlM (f fuel) a) a' ∧ P n a' := by
  induction n with
  | zero => exact ⟨a, of_eq fun _ => rfl, h⟩
  | succ n ih =>
    obtain ⟨b, hb, hPb⟩ := ih fun i hi => step i (by omega)
    obtain ⟨c, hc, hPc⟩ := step n (by omega) b hPb
    refine ⟨c, (hb.bind (g := fun fuel b => f fuel b n) hc).congr fun fuel => ?_, hPc⟩
    rw [List.range_succ]
    simp

end Returns

end OsLabs.Lib
