import OsLabs.Lib.Machine

/-!
# Postconditions of code that can fail

`Ensures allowed post r` says of the result `r` of a piece of code: if it returns, its value meets `post`; if one of its
assertions fails, it is one of the `allowed` ones. A step that is not enabled promises nothing. The rules follow
the shape of the code: `return`, failure, a test, a sequence and a loop over a list.
-/

namespace OsLabs.Lib

universe u

variable {F : Type*} {α β : Type u}

/-- The result meets `post`, and no assertion outside `allowed` failed. -/
def Ensures (allowed : F → Prop) (post : α → Prop) : Except (Halt F) α → Prop
  | .ok a => post a
  | .error .disabled => True
  | .error (.fault f) => allowed f

namespace Ensures

variable {allowed : F → Prop} {post : α → Prop} {r : Except (Halt F) α}

@[simp] lemma disabled : Ensures allowed post (.error .disabled : Except (Halt F) α) := trivial

@[simp] lemma fault_iff {f : F} :
    Ensures allowed post (.error (.fault f) : Except (Halt F) α) ↔ allowed f := Iff.rfl

/-- A weaker postcondition. -/
lemma mono {post' : α → Prop} (h : Ensures allowed post r) (hpost : ∀ a, post a → post' a) :
    Ensures allowed post' r := by
  match r with
  | .ok a => exact hpost a h
  | .error .disabled => trivial
  | .error (.fault f) => exact h

/-- Code that goes on after a value was returned. -/
lemma ok_bind {a : α} {f : α → Except (Halt F) β} {post' : β → Prop}
    (h : Ensures allowed post' (f a)) :
    Ensures allowed post' ((.ok a : Except (Halt F) α) >>= f) := h

/-- A sequence: the second part starts from what the first one ensures. -/
lemma bind {f : α → Except (Halt F) β} {post' : β → Prop} (h : Ensures allowed post r)
    (hf : ∀ a, post a → Ensures allowed post' (f a)) : Ensures allowed post' (r >>= f) := by
  match r with
  | .ok a => exact hf a h
  | .error .disabled => trivial
  | .error (.fault g) => exact h

/-- A test. -/
lemma ite {c : Prop} [Decidable c] {r' : Except (Halt F) α} (ht : c → Ensures allowed post r)
    (he : ¬c → Ensures allowed post r') : Ensures allowed post (if c then r else r') := by
  by_cases hc : c
  · rw [if_pos hc]
    exact ht hc
  · rw [if_neg hc]
    exact he hc

/-- A loop over a list: `inv` relates what is done, what is left and the state. -/
lemma foldlM {f : α → β → Except (Halt F) α} (inv : List β → List β → α → Prop) {l : List β}
    (step : ∀ done x rest a, l = done ++ x :: rest → inv done (x :: rest) a →
      Ensures allowed (inv (done ++ [x]) rest) (f a x))
    {a : α} (h : inv [] l a) : Ensures allowed (inv l []) (l.foldlM f a) := by
  -- the induction is on what is left, with what is done as a parameter
  have key : ∀ rest done a, l = done ++ rest → inv done rest a →
      Ensures allowed (inv l []) (rest.foldlM f a) := by
    intro rest
    induction rest with
    | nil =>
      intro done a hl ha
      rw [List.append_nil] at hl
      rw [hl]
      exact ha
    | cons x rest ih =>
      intro done a hl ha
      rw [List.foldlM_cons]
      refine (step done x rest a hl ha).bind fun b hb => ?_
      apply ih (done ++ [x]) b _ hb
      rw [hl, List.append_assoc]
      rfl
  exact key l [] a rfl h

lemma of_eq_ok (h : Ensures allowed post r) {a : α} (hr : r = .ok a) : post a := by
  rw [hr] at h
  exact h

lemma of_eq_fault (h : Ensures allowed post r) {f : F} (hr : r = .error (.fault f)) : allowed f := by
  rw [hr] at h
  exact h

end Ensures

end OsLabs.Lib
