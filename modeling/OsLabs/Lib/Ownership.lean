import Mathlib.Data.Set.Insert

/-!
# Who owns what

Some objects are alive, and what a living object owns is taken and not owned by another one. An object comes to life
with things that nobody owned (`insert`), and what only it owned can be given back when it dies (`erase`).
-/

namespace OsLabs.Lib

variable {ι α : Type*}

/-- Nothing is owned twice, and what is owned is taken. -/
structure Ownership (owns : ι → α → Prop) (taken : α → Prop) (live : Set ι) : Prop where
  taken : ∀ i ∈ live, ∀ x, owns i x → taken x
  unique : ∀ i ∈ live, ∀ j ∈ live, ∀ x, owns i x → owns j x → i = j

namespace Ownership

variable {owns owns' : ι → α → Prop} {taken taken' : α → Prop} {live : Set ι}

section Ownership

variable (h : Ownership owns taken live)
include h

/-- Only what the living own matters. -/
lemma congr (heq : ∀ i ∈ live, ∀ x, owns' i x → owns i x) :
    Ownership owns' taken live where
  taken i hi x hx := h.taken i hi x (heq i hi x hx)
  unique i hi j hj x hx hx' := h.unique i hi j hj x (heq i hi x hx) (heq j hj x hx')

/-- Things nobody owns can be given back. -/
lemma retake (heq : ∀ i ∈ live, ∀ x, owns i x → taken x → taken' x) :
    Ownership owns taken' live where
  taken i hi x hx := heq i hi x hx (h.taken i hi x hx)
  unique := h.unique

lemma mono {live' : Set ι} (hsub : live' ⊆ live) : Ownership owns taken live' where
  taken i hi := h.taken i (hsub hi)
  unique i hi j hj := h.unique i (hsub hi) j (hsub hj)

/-- An object with things nobody owned. -/
lemma insert {i : ι} (hnew : ∀ x, owns i x → taken x)
    (hfree : ∀ x, owns i x → ∀ j ∈ live, ¬owns j x) : Ownership owns taken (insert i live) where
  taken j hj x hx := by
    rcases hj with rfl | hj
    · exact hnew x hx
    · exact h.taken j hj x hx
  unique j hj k hk x hx hx' := by
    rcases hj with rfl | hj
    · rcases hk with rfl | hk
      · rfl
      · exact absurd hx' (hfree x hx k hk)
    · rcases hk with rfl | hk
      · exact absurd hx (hfree x hx' j hj)
      · exact h.unique j hj k hk x hx hx'

/-- What the others own is not what `i` owned. -/
lemma not_owns_of_erase {i j : ι} (hi : i ∈ live) (hj : j ∈ live \ {i}) {x : α}
    (hx : owns j x) : ¬owns i x := by
  intro hx'
  exact hj.2 (h.unique j hj.1 i hi x hx hx')

/-- What `k` owned goes to `l`. -/
lemma move {k l : ι} (hk : k ∈ live)
    (howns : ∀ i x, owns' i x → i ≠ k ∧ owns i x ∨ i = l ∧ owns k x) : Ownership owns' taken live where
  taken i hi x hx := by
    rcases howns i x hx with ⟨_, hold⟩ | ⟨_, hold⟩
    · exact h.taken i hi x hold
    · exact h.taken k hk x hold
  unique i hi j hj x hx hx' := by
    rcases howns i x hx with ⟨hne, hold⟩ | ⟨rfl, hold⟩
    · rcases howns j x hx' with ⟨_, hold'⟩ | ⟨_, hold'⟩
      · exact h.unique i hi j hj x hold hold'
      · exact absurd (h.unique i hi k hk x hold hold') hne
    · rcases howns j x hx' with ⟨hne, hold'⟩ | ⟨rfl, _⟩
      · exact absurd (h.unique j hj k hk x hold' hold) hne
      · rfl

/-- `k` takes one more thing, which nobody owned as it was not taken. -/
lemma take {k : ι} {y : α} (hfree : ¬taken y)
    (howns : ∀ i x, owns' i x → owns i x ∨ i = k ∧ x = y) (hmono : ∀ x, taken x → taken' x) (htaken : taken' y) :
    Ownership owns' taken' live where
  taken i hi x hx := by
    rcases howns i x hx with hold | ⟨_, rfl⟩
    · exact hmono x (h.taken i hi x hold)
    · exact htaken
  unique i hi j hj x hx hx' := by
    have hnot (i : ι) (hi : i ∈ live) : ¬owns i y := fun hown => hfree (h.taken i hi y hown)
    rcases howns i x hx with hold | ⟨rfl, rfl⟩
    · rcases howns j x hx' with hold' | ⟨_, rfl⟩
      · exact h.unique i hi j hj x hold hold'
      · exact absurd hold (hnot i hi)
    · rcases howns j x hx' with hold' | ⟨rfl, _⟩
      · exact absurd hold' (hnot j hj)
      · rfl

/-- `k` gives one thing back. -/
lemma drop {k : ι} (hk : k ∈ live) {y : α} (hown : owns k y)
    (howns : ∀ i x, owns' i x → owns i x) (hgone : ¬owns' k y) (htaken : ∀ x, x ≠ y → taken x → taken' x) :
    Ownership owns' taken' live where
  taken i hi x hx := by
    refine htaken x ?_ (h.taken i hi x (howns i x hx))
    rintro rfl
    obtain rfl := h.unique i hi k hk x (howns i x hx) hown
    exact hgone hx
  unique i hi j hj x hx hx' := h.unique i hi j hj x (howns i x hx) (howns j x hx')

end Ownership

end Ownership

end OsLabs.Lib
