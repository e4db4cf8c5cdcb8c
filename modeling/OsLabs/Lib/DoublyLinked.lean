import Mathlib.Data.List.Chain
import Mathlib.Data.List.Nodup

/-!
# Doubly linked lists with sentinels

The `prev` and `next` fields of all nodes are two functions. `Linked L ps` says that the nodes `ps` follow each other
in both directions; nothing is said about the outer pointers of the two ends. A segment and its surroundings are
therefore handled separately, which is what an insertion needs whose pointer writes are spread over several steps.

`Linked.link` is the one rule behind every operation: join two segments by writing the two pointers between them.
-/

namespace OsLabs.Lib

open Function

/-- The pointer fields of all nodes. -/
@[ext] structure Links (P : Type*) where
  prev : P → P
  next : P → P

namespace Links

variable {P : Type*}

section Write

variable [DecidableEq P]

/-- `p->prev = q`. -/
@[simps -fullyApplied] def setPrev (L : Links P) (p q : P) : Links P :=
  { L with prev := update L.prev p q }

/-- `p->next = q`. -/
@[simps -fullyApplied] def setNext (L : Links P) (p q : P) : Links P :=
  { L with next := update L.next p q }

/-- Writing what is there already. -/
lemma setPrev_self (L : Links P) {p q : P} (h : L.prev p = q) : L.setPrev p q = L := by
  ext x
  · simp [← h]
  · rfl

lemma setNext_self (L : Links P) {p q : P} (h : L.next p = q) : L.setNext p q = L := by
  ext x
  · rfl
  · simp [← h]

end Write

/-- The nodes `ps` follow each other in both directions. -/
def Linked (L : Links P) (ps : List P) : Prop :=
  ps.IsChain fun p q => L.next p = q ∧ L.prev q = p

variable {L L' : Links P} {as bs ps : List P} {p : P}

/-- The two sides of a link. -/
lemma linked_append_cons_cons {q : P} :
    L.Linked (as ++ p :: q :: bs) ↔
      L.Linked (as ++ [p]) ∧ (L.next p = q ∧ L.prev q = p) ∧ L.Linked (q :: bs) :=
  List.isChain_append_cons_cons

/-- A segment depends on the `next` fields of all nodes but the last and on the `prev` fields of all nodes but the
first. -/
lemma Linked.congr (h : L.Linked ps) (hnext : ∀ p ∈ ps.dropLast, L'.next p = L.next p)
    (hprev : ∀ p ∈ ps.tail, L'.prev p = L.prev p) : L'.Linked ps := by
  induction ps with
  | nil => exact List.isChain_nil
  | cons p ps ih =>
    cases ps with
    | nil => exact List.isChain_singleton p
    | cons q ps =>
      obtain ⟨⟨hpq, hqp⟩, hrest⟩ := List.isChain_cons_cons.mp h
      refine List.isChain_cons_cons.mpr ⟨⟨?_, ?_⟩, ?_⟩
      · rw [hnext p (by simp)]
        exact hpq
      · rw [hprev q (by simp)]
        exact hqp
      · apply ih hrest
        · intro x hx
          exact hnext x (by simp [hx])
        · intro x hx
          exact hprev x (List.mem_of_mem_tail hx)

/-- Writes to other nodes do not matter. -/
lemma Linked.congr_of_mem (h : L.Linked ps) (hsame : ∀ p ∈ ps, L'.next p = L.next p ∧ L'.prev p = L.prev p) :
    L'.Linked ps :=
  h.congr (fun p hp => (hsame p (List.dropLast_subset _ hp)).1)
    fun p hp => (hsame p (List.mem_of_mem_tail hp)).2

/-- Segments that are linked to each other. -/
lemma linked_append :
    L.Linked (as ++ bs) ↔
      L.Linked as ∧ L.Linked bs ∧ ∀ p ∈ as.getLast?, ∀ q ∈ bs.head?, L.next p = q ∧ L.prev q = p :=
  List.isChain_append

/-- With the fields of each node exchanged, a segment goes the other way. -/
lemma Linked.reverse (h : L.Linked ps) (hswap : ∀ p ∈ ps, L'.next p = L.prev p ∧ L'.prev p = L.next p) :
    L'.Linked ps.reverse := by
  rw [Linked, List.isChain_reverse]
  refine List.IsChain.imp_of_mem_imp (fun p q hp hq hpq => ?_) h
  rw [(hswap q hq).1, (hswap p hp).2]
  exact ⟨hpq.2, hpq.1⟩

/-- The node after a node is in the segment and points back to it. -/
lemma Linked.next_spec (h : L.Linked ps) (hp : p ∈ ps.dropLast) : L.next p ∈ ps ∧ L.prev (L.next p) = p := by
  induction ps with
  | nil => cases hp
  | cons q ps ih =>
    cases ps with
    | nil => cases hp
    | cons r ps =>
      obtain ⟨⟨hqr, hrq⟩, hrest⟩ := List.isChain_cons_cons.mp h
      rcases List.mem_cons.mp hp with rfl | hmem
      · rw [hqr]
        exact ⟨by simp, hrq⟩
      · obtain ⟨hin, hback⟩ := ih hrest hmem
        exact ⟨List.mem_cons_of_mem q hin, hback⟩

/-- The node before a node is in the segment and points back to it. -/
lemma Linked.prev_spec (h : L.Linked ps) (hp : p ∈ ps.tail) : L.prev p ∈ ps ∧ L.next (L.prev p) = p := by
  have hreverse : (⟨L.next, L.prev⟩ : Links P).Linked ps.reverse := h.reverse fun _ _ => ⟨rfl, rfl⟩
  simpa using hreverse.next_spec (p := p) (by simpa using hp)

variable [DecidableEq P]

/-- Two segments are joined by writing the two pointers between them. -/
lemma Linked.link {q : P} (hnodup : (as ++ p :: q :: bs).Nodup) (hleft : L.Linked (as ++ [p]))
    (hright : L.Linked (q :: bs)) : ((L.setNext p q).setPrev q p).Linked (as ++ p :: q :: bs) := by
  obtain ⟨_, hpq, hdisj⟩ := List.nodup_append.mp hnodup
  have hpas : ∀ x ∈ as, x ≠ p := fun x hx => hdisj x hx p (by simp)
  have hqas : ∀ x ∈ as, x ≠ q := fun x hx => hdisj x hx q (by simp)
  obtain ⟨hp, hq⟩ := List.nodup_cons.mp hpq
  have hqbs := (List.nodup_cons.mp hq).1
  have hne : p ≠ q := fun h => hp (by simp [h])
  refine linked_append_cons_cons.mpr ⟨?_, ⟨by simp, by simp⟩, ?_⟩
  · apply hleft.congr
    · intro x hx
      rw [List.dropLast_concat] at hx
      simp [hpas x hx]
    · intro x hx
      have hxq : x ≠ q := by
        rcases List.mem_append.mp (List.mem_of_mem_tail hx) with hx | hx
        · exact hqas x hx
        · rw [List.mem_singleton.mp hx]
          exact hne
      simp [hxq]
  · apply hright.congr
    · intro x hx
      have hxp : x ≠ p := fun h => hp (h ▸ List.dropLast_subset _ hx)
      simp [hxp]
    · intro x hx
      have hxq : x ≠ q := fun h => hqbs (h ▸ hx)
      simp [hxq]

/-- `elem->prev->next = elem->next; elem->next->prev = elem->prev`. -/
def unlink (L : Links P) (x : P) : Links P :=
  let L := L.setNext (L.prev x) (L.next x)
  L.setPrev (L.next x) (L.prev x)

/-- A node that is not its own neighbour: the pointers read by the second assignment are those of before the first. -/
lemma unlink_eq (L : Links P) {x : P} (h : L.prev x ≠ x) :
    L.unlink x = (L.setNext (L.prev x) (L.next x)).setPrev (L.next x) (L.prev x) := by
  unfold unlink
  simp [h.symm]

/-- Removing an inner node of a segment; what the node is unlinked from are its neighbours. -/
lemma Linked.unlink {before after : List P} {x : P} (hbefore : before ≠ []) (hafter : after ≠ [])
    (hnodup : (before ++ x :: after).Nodup) (h : L.Linked (before ++ x :: after)) :
    (L.unlink x).Linked (before ++ after) ∧
      L.unlink x = (L.setNext (L.prev x) (L.next x)).setPrev (L.next x) (L.prev x) := by
  obtain ⟨as, p, rfl⟩ := (List.eq_nil_or_concat before).resolve_left hbefore
  obtain ⟨q, bs, rfl⟩ := List.exists_cons_of_ne_nil hafter
  rw [List.concat_eq_append, List.append_assoc] at *
  obtain ⟨hleft, ⟨_, hprev⟩, hright⟩ := linked_append_cons_cons.mp h
  obtain ⟨⟨hnext, _⟩, hright⟩ := List.isChain_cons_cons.mp hright
  have hpx : p ≠ x := by
    rintro rfl
    exact (List.nodup_cons.mp (List.nodup_append.mp hnodup).2.1).1 (by simp)
  have hwrites := L.unlink_eq (by rw [hprev]; exact hpx)
  refine ⟨?_, hwrites⟩
  rw [hwrites, hprev, hnext]
  apply Linked.link
  · exact hnodup.sublist ((((List.Sublist.refl _).cons x).cons_cons p).append_left as)
  · exact hleft
  · exact hright

/-! ## Walking -/

/-- The nodes from `p` up to `stop`, following `next`. -/
def walk (next : P → P) (stop : P) : ℕ → P → Option (List P)
  | 0, _ => none
  | fuel + 1, p => if p = stop then some [] else (walk next stop fuel (next p)).map (p :: ·)

/-- A walk along a segment visits its inner nodes in order. -/
lemma Linked.walk {a stop : P} (h : L.Linked (a :: (ps ++ [stop]))) (hstop : stop ∉ ps) {fuel : ℕ}
    (hfuel : ps.length < fuel) : Links.walk L.next stop fuel (L.next a) = some ps := by
  induction ps generalizing a fuel with
  | nil =>
    obtain ⟨⟨hnext, _⟩, _⟩ := List.isChain_cons_cons.mp h
    obtain ⟨fuel, rfl⟩ : ∃ n, fuel = n + 1 := ⟨fuel - 1, by simp at hfuel; omega⟩
    simp [Links.walk, hnext]
  | cons p ps ih =>
    obtain ⟨⟨hnext, _⟩, hrest⟩ := List.isChain_cons_cons.mp h
    obtain ⟨fuel, rfl⟩ : ∃ n, fuel = n + 1 := ⟨fuel - 1, by simp at hfuel; omega⟩
    have hp : p ≠ stop := fun he => hstop (by simp [he])
    have hwalk := ih hrest (fun hmem => hstop (by simp [hmem])) (by simpa using hfuel)
    simp [Links.walk, hnext, hp, hwalk]

end Links

end OsLabs.Lib
