import Mathlib.Data.List.Basic

/-!
# Descriptor tables

The open descriptors of a process, with what each of them refers to. A new descriptor is the lowest free one.

A table carries a bound above which everything is closed, so that the lowest free descriptor is found by a search. The
results are stated over `entry` alone: `lowestFree_eq` finds the lowest free descriptor of a table from its
entries, and `pipe_eq` the two descriptors of a pipe.
-/

namespace OsLabs.Lib

open Function

/-- The open descriptors of a process; above `bound` all are closed. -/
structure FdTable (D : Type*) where
  entry : ℕ → Option D
  bound : ℕ
  closed : ∀ fd, bound ≤ fd → entry fd = none

namespace FdTable

variable {D : Type*}

/-- The descriptor `fd` refers to `d` from now on. -/
@[simps -fullyApplied entry] def set (t : FdTable D) (fd : ℕ) (d : D) : FdTable D where
  entry := update t.entry fd (some d)
  bound := max t.bound (fd + 1)
  closed fd' h := by
    rw [update_of_ne (by omega)]
    exact t.closed fd' (by omega)

/-- `close`; closing a closed descriptor changes nothing. -/
@[simps -fullyApplied entry] def close (t : FdTable D) (fd : ℕ) : FdTable D where
  entry := update t.entry fd none
  bound := t.bound
  closed fd' h := by
    by_cases hfd : fd' = fd
    · rw [hfd, update_self]
    · rw [update_of_ne hfd]
      exact t.closed fd' h

/-- The lowest closed descriptor. -/
def lowestFree (t : FdTable D) : ℕ :=
  ((List.range t.bound).find? fun fd => (t.entry fd).isNone).getD t.bound

/-- `dup2`; it fails when `old` is closed. -/
def dup2 (t : FdTable D) (old new : ℕ) : Option (FdTable D) :=
  (t.entry old).map fun d => t.set new d

/-- `open`, for an object `d`. -/
def openFd (t : FdTable D) (d : D) : FdTable D × ℕ :=
  (t.set t.lowestFree d, t.lowestFree)

/-- `pipe`, with the two ends of the new pipe. -/
def pipe (t : FdTable D) (readEnd writeEnd : D) : FdTable D × (ℕ × ℕ) :=
  let (t, r) := t.openFd readEnd
  let (t, w) := t.openFd writeEnd
  (t, (r, w))

/-! ## The lowest free descriptor -/

lemma lowestFree_spec (t : FdTable D) :
    t.entry t.lowestFree = none ∧ ∀ fd < t.lowestFree, t.entry fd ≠ none := by
  unfold lowestFree
  cases hfind : (List.range t.bound).find? fun fd => (t.entry fd).isNone with
  | none =>
    rw [List.find?_range_eq_none] at hfind
    refine ⟨t.closed _ (Nat.le_refl _), fun fd hfd he => ?_⟩
    have h := hfind fd hfd
    rw [he] at h
    cases h
  | some x =>
    rw [List.find?_range_eq_some] at hfind
    obtain ⟨hfree, _, hlower⟩ := hfind
    refine ⟨Option.isNone_iff_eq_none.mp hfree, fun fd hfd he => ?_⟩
    have h := hlower fd hfd
    rw [he] at h
    cases h

lemma lowestFree_eq {t : FdTable D} {x : ℕ} (hfree : t.entry x = none)
    (hlower : ∀ fd < x, t.entry fd ≠ none) : t.lowestFree = x := by
  obtain ⟨hspec, hbelow⟩ := t.lowestFree_spec
  rcases Nat.lt_trichotomy t.lowestFree x with hlt | heq | hgt
  · exact absurd hspec (hlower _ hlt)
  · exact heq
  · exact absurd hfree (hbelow x hgt)

/-! ## Pipes -/

/-- The entries `e` with a pipe at the descriptors `p`. -/
def withPipe (e : ℕ → Option D) (p : ℕ × ℕ) (readEnd writeEnd : D) : ℕ → Option D :=
  update (update e p.1 (some readEnd)) p.2 (some writeEnd)

@[grind =] lemma withPipe_apply (e : ℕ → Option D) (p : ℕ × ℕ) (readEnd writeEnd : D) (fd : ℕ) :
    withPipe e p readEnd writeEnd fd =
      if fd = p.2 then some writeEnd else if fd = p.1 then some readEnd else e fd := by
  simp only [withPipe, update_apply]

/-- A pipe gets the two lowest free descriptors. -/
lemma pipe_eq {t : FdTable D} {r w : ℕ} (hlt : r < w) (hr : t.entry r = none)
    (hw : t.entry w = none) (hlower : ∀ fd < w, fd ≠ r → t.entry fd ≠ none) (readEnd writeEnd : D) :
    (t.pipe readEnd writeEnd).2 = (r, w) ∧
      (t.pipe readEnd writeEnd).1.entry = withPipe t.entry (r, w) readEnd writeEnd := by
  have hfirst : t.lowestFree = r := lowestFree_eq hr fun fd hfd => hlower fd (by omega) (by omega)
  have hsecond : (t.set r readEnd).lowestFree = w := by
    apply lowestFree_eq
    · rw [set_entry, update_of_ne (by omega)]
      exact hw
    · intro fd hfd
      by_cases h : fd = r
      · simp [h]
      · rw [set_entry, update_of_ne h]
        exact hlower fd hfd h
  simp [pipe, openFd, hfirst, hsecond, withPipe]

end FdTable

end OsLabs.Lib
