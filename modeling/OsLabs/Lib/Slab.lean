import Mathlib.Data.List.Perm.Subperm
import Mathlib.Data.List.Nodup
import Mathlib.Data.Set.Insert

/-!
# Heaps with size classes

Memory is got in pages. An arena is either one page, cut into blocks of one size class behind a header, or several pages
that are one big block behind a header. A block of a small arena is free or live; the free blocks of a class are in a
list. This is the allocator as it is meant, without its memory: an address is a number, and nothing is stored there.

`Heap.Wf` says that arenas do not overlap, and so headers and blocks do not (`Wf.disjoint`). `Heap.Inv` says in addition
that every block is free or live and not both. Each operation keeps it.
-/

namespace OsLabs.Lib

open Function

/-- The sizes of an allocator: of pages, headers and blocks, and the number of blocks in an arena. -/
structure SlabSizes (κ : Type*) where
  page : ℕ
  header : ℕ
  block : κ → ℕ
  count : κ → ℕ
  header_pos : 0 < header
  header_lt : header < page
  block_pos : ∀ k, 0 < block k
  fits : ∀ k, header + count k * block k ≤ page

/-- An arena: one page with blocks of a class, or a number of pages with one block. -/
inductive Arena (κ : Type*) where
  | small (k : κ)
  | big (pages : ℕ)

def Arena.pages {κ : Type*} : Arena κ → ℕ
  | .small _ => 1
  | .big pages => pages

/-- The arenas by their first page, the free blocks of each class, and the live blocks. -/
structure Heap (κ : Type*) where
  arena : ℕ → Option (Arena κ)
  free : κ → List ℕ
  live : Set ℕ

/-- A part of an arena. -/
inductive Piece (κ : Type*) where
  | header (p : ℕ)
  | block (p : ℕ) (k : κ) (i : ℕ)
  | big (p pages : ℕ)

namespace Piece

variable {κ : Type*}

/-- It is one of those that are given out. -/
def IsBlock : Piece κ → Prop
  | header _ => False
  | _ => True

/-- The first page of the arena. -/
def page : Piece κ → ℕ
  | header p | block p _ _ | big p _ => p

def start (z : SlabSizes κ) : Piece κ → ℕ
  | header p => p * z.page
  | block p k i => p * z.page + z.header + i * z.block k
  | big p _ => p * z.page + z.header

def stop (z : SlabSizes κ) : Piece κ → ℕ
  | header p => p * z.page + z.header
  | block p k i => p * z.page + z.header + (i + 1) * z.block k
  | big p pages => (p + pages) * z.page

end Piece

namespace Heap

variable {κ : Type*} (z : SlabSizes κ)

/-- The heap has an arena with this part. -/
def Has (h : Heap κ) : Piece κ → Prop
  | .header p => ∃ A, h.arena p = some A
  | .block p k i => h.arena p = some (.small k) ∧ i < z.count k
  | .big p pages => h.arena p = some (.big pages)

/-- Pages from `p` on belong to no arena. -/
def Fresh (h : Heap κ) (p pages : ℕ) : Prop :=
  ∀ q A, h.arena q = some A → p + pages ≤ q ∨ q + A.pages ≤ p

/-- Arenas do not overlap, and the lists are of blocks of their class. -/
structure Wf (h : Heap κ) : Prop where
  apart : ∀ p A, h.arena p = some A → ∀ q B, h.arena q = some B → p ≠ q → p + A.pages ≤ q ∨ q + B.pages ≤ p
  pages_pos : ∀ p A, h.arena p = some A → 0 < A.pages
  nodup : ∀ k, (h.free k).Nodup
  free : ∀ k, ∀ b ∈ h.free k, ∃ p i, h.Has z (.block p k i) ∧ Piece.start z (.block p k i) = b

/-- Each block is either free or live. -/
structure Inv (h : Heap κ) : Prop extends Wf z h where
  live : ∀ b ∈ h.live, ∃ x, h.Has z x ∧ x.IsBlock ∧ x.start z = b
  split : ∀ p k i, h.Has z (.block p k i) →
    (Piece.start z (.block p k i) ∈ h.live ↔ Piece.start z (.block p k i) ∉ h.free k)
  big : ∀ p pages, h.Has z (.big p pages) → Piece.start z (.big p pages) ∈ h.live

/-- Every arena has a live block. -/
def Used (h : Heap κ) : Prop :=
  ∀ p A, h.arena p = some A → ∃ b ∈ h.live, b / z.page = p

variable {z} {h : Heap κ}

/-! ## Parts do not overlap -/

variable {k : κ} {x : Piece κ} {p b : ℕ} {h' : Heap κ}

/-- The blocks of an arena are in its page. -/
lemma block_fits {i : ℕ} (hi : i < z.count k) : z.header + (i + 1) * z.block k ≤ z.page := by
  have hmul : (i + 1) * z.block k ≤ z.count k * z.block k := Nat.mul_le_mul_right _ hi
  have := z.fits k
  omega

/-- A part is inside of the pages of its arena, and not empty. -/
lemma Wf.inside (hwf : h.Wf z) (hx : h.Has z x) :
    ∃ A, h.arena x.page = some A ∧ x.page * z.page ≤ x.start z ∧ x.start z < x.stop z ∧
      x.stop z ≤ (x.page + A.pages) * z.page := by
  have hheader := z.header_lt
  cases x with
  | header p =>
    obtain ⟨A, hA⟩ := hx
    have hpos := hwf.pages_pos p A hA
    refine ⟨A, hA, Nat.le_refl _, Nat.lt_add_of_pos_right z.header_pos, ?_⟩
    have hmul : (p + 1) * z.page ≤ (p + A.pages) * z.page := Nat.mul_le_mul_right _ (by omega)
    show p * z.page + z.header ≤ (p + A.pages) * z.page
    rw [Nat.add_mul] at hmul
    omega
  | block p k i =>
    obtain ⟨hA, hi⟩ := hx
    have hfits := block_fits hi
    have hpos := z.block_pos k
    refine ⟨_, hA, ?_, ?_, ?_⟩
    · show p * z.page ≤ p * z.page + z.header + i * z.block k
      omega
    · show p * z.page + z.header + i * z.block k < p * z.page + z.header + (i + 1) * z.block k
      rw [Nat.add_mul]
      omega
    · show p * z.page + z.header + (i + 1) * z.block k ≤ (p + 1) * z.page
      rw [Nat.add_mul p 1]
      omega
  | big p pages =>
    have hpos : 0 < pages := hwf.pages_pos p _ hx
    have hmul : (p + 1) * z.page ≤ (p + pages) * z.page := Nat.mul_le_mul_right _ (by omega)
    rw [Nat.add_mul] at hmul
    refine ⟨_, hx, Nat.le_add_right .., ?_, Nat.le_refl _⟩
    show p * z.page + z.header < (p + pages) * z.page
    omega

/-- Different parts do not overlap. -/
lemma Wf.disjoint (hwf : h.Wf z) {y : Piece κ} (hx : h.Has z x) (hy : h.Has z y) (hne : x ≠ y) :
    x.stop z ≤ y.start z ∨ y.stop z ≤ x.start z := by
  obtain ⟨A, hA, hxlo, -, hxhi⟩ := hwf.inside hx
  obtain ⟨B, hB, hylo, -, hyhi⟩ := hwf.inside hy
  by_cases hpage : x.page = y.page
  · cases x with
    | header p =>
      obtain rfl : p = y.page := hpage
      refine Or.inl ?_
      show y.page * z.page + z.header ≤ y.start z
      cases y with
      | header q => exact absurd rfl hne
      | block q k i => exact Nat.le_add_right ..
      | big q pages => exact Nat.le_refl _
    | block p k i =>
      obtain rfl : p = y.page := hpage
      cases y with
      | header q => exact Or.inr (Nat.le_add_right ..)
      | block q l j =>
        have hkl : some (Arena.small k) = some (.small l) := hx.1.symm.trans hy.1
        obtain rfl : k = l := Arena.small.inj (Option.some.inj hkl)
        have hij : i ≠ j := by
          rintro rfl
          exact hne rfl
        show _ + (i + 1) * z.block k ≤ _ + j * z.block k ∨ _ + (j + 1) * z.block k ≤ _ + i * z.block k
        rcases Nat.lt_or_gt_of_ne hij with hlt | hlt
        · exact Or.inl (Nat.add_le_add_left (Nat.mul_le_mul_right _ hlt) _)
        · exact Or.inr (Nat.add_le_add_left (Nat.mul_le_mul_right _ hlt) _)
      | big q pages => cases hx.1.symm.trans hy
    | big p pages =>
      obtain rfl : p = y.page := hpage
      cases y with
      | header q => exact Or.inr (Nat.le_refl _)
      | block q l j =>
        cases hx.symm.trans hy.1
      | big q pages' =>
        have hpages : some (Arena.big pages) = some (.big pages') :=
          (show h.arena q = some (.big pages) from hx).symm.trans hy
        obtain rfl : pages = pages' := Arena.big.inj (Option.some.inj hpages)
        exact absurd rfl hne
  · rcases hwf.apart _ A hA _ B hB hpage with hle | hle
    · have := Nat.mul_le_mul_right z.page hle
      omega
    · have := Nat.mul_le_mul_right z.page hle
      omega

/-- A part is known by its address. -/
lemma Wf.start_inj (hwf : h.Wf z) {y : Piece κ} (hx : h.Has z x) (hy : h.Has z y)
    (heq : x.start z = y.start z) : x = y := by
  by_contra hne
  obtain ⟨_, _, _, hxlt, _⟩ := hwf.inside hx
  obtain ⟨_, _, _, hylt, _⟩ := hwf.inside hy
  have := hwf.disjoint hx hy hne
  omega

/-- A part of a new arena is no part of an old one. -/
lemma Wf.fresh_disjoint (hwf : h.Wf z) {pages : ℕ} (hfresh : h.Fresh p pages) (hx : h.Has z x) :
    x.stop z ≤ p * z.page ∨ (p + pages) * z.page ≤ x.start z := by
  obtain ⟨A, hA, hlo, -, hhi⟩ := hwf.inside hx
  rcases hfresh _ A hA with hle | hle
  · have := Nat.mul_le_mul_right z.page hle
    omega
  · have := Nat.mul_le_mul_right z.page hle
    omega

/-- A block is in the first page of its arena. -/
lemma start_div (hx : h.Has z x) (hblock : x.IsBlock) : x.start z / z.page = x.page := by
  have hheader := z.header_lt
  cases x with
  | header p => exact hblock.elim
  | block p k i =>
    have hfits := block_fits hx.2
    have hpos := z.block_pos k
    rw [Nat.add_mul] at hfits
    show (p * z.page + z.header + i * z.block k) / z.page = p
    rw [Nat.add_assoc, Nat.mul_comm, Nat.mul_add_div (by omega), Nat.div_eq_of_lt (by omega), Nat.add_zero]
  | big p pages =>
    show (p * z.page + z.header) / z.page = p
    rw [Nat.mul_comm, Nat.mul_add_div (by omega), Nat.div_eq_of_lt hheader, Nat.add_zero]

/-! ## The number of free blocks -/

variable (z) in
/-- The blocks of a small arena. -/
def blocks (p : ℕ) (k : κ) : List ℕ :=
  (List.range (z.count k)).map fun i => Piece.start z (.block p k i)

lemma mem_blocks : b ∈ blocks z p k ↔ ∃ i < z.count k, Piece.start z (.block p k i) = b := by
  simp [blocks]

lemma nodup_blocks (p : ℕ) (k : κ) : (blocks z p k).Nodup := by
  refine List.nodup_range.map fun i j hij => ?_
  exact Nat.eq_of_mul_eq_mul_right (z.block_pos k) (Nat.add_left_cancel hij)

lemma div_page_of_mem_blocks (hb : b ∈ blocks z p k) : b / z.page = p := by
  obtain ⟨i, hi, rfl⟩ := mem_blocks.mp hb
  have hhas : (Heap.mk (fun _ => some (.small k)) (fun _ => []) ∅).Has z (.block p k i) := ⟨rfl, hi⟩
  exact start_div hhas trivial

variable (z) in
/-- The number of blocks of an arena that are in the list of its class. -/
def freeCnt (h : Heap κ) (p : ℕ) (k : κ) : ℕ :=
  (h.free k).countP fun b => b / z.page = p

/-- The free blocks of an arena. -/
lemma Wf.filter_subset (hwf : h.Wf z) (p : ℕ) (k : κ) :
    ((h.free k).filter fun b => b / z.page = p) ⊆ blocks z p k := by
  intro b hb
  obtain ⟨hmem, hdiv⟩ := List.mem_filter.mp hb
  obtain ⟨q, i, hhas, rfl⟩ := hwf.free k b hmem
  have hblock : Piece.start z (.block q k i) ∈ blocks z q k := mem_blocks.mpr ⟨i, hhas.2, rfl⟩
  have hq : q = p := (div_page_of_mem_blocks hblock).symm.trans (of_decide_eq_true hdiv)
  rw [hq] at hblock ⊢
  exact hblock

lemma Wf.freeCnt_le (hwf : h.Wf z) (p : ℕ) (k : κ) : h.freeCnt z p k ≤ z.count k := by
  have hsub := ((hwf.nodup k).filter _).subperm (hwf.filter_subset p k)
  have hle := hsub.length_le
  rw [← List.countP_eq_length_filter] at hle
  simpa [blocks, freeCnt] using hle

/-- All blocks of an arena are free if there are as many free ones as it has. -/
lemma Wf.freeCnt_eq_iff (hwf : h.Wf z) (p : ℕ) (k : κ) :
    h.freeCnt z p k = z.count k ↔ ∀ b ∈ blocks z p k, b ∈ h.free k := by
  have hsub := ((hwf.nodup k).filter fun b => decide (b / z.page = p)).subperm (hwf.filter_subset p k)
  have hlen : (blocks z p k).length = z.count k := by simp [blocks]
  constructor
  · intro hcnt b hb
    have hperm := hsub.perm_of_length_le (by
      rw [hlen, ← List.countP_eq_length_filter, ← hcnt]
      exact Nat.le_refl _)
    exact (List.mem_filter.mp (hperm.mem_iff.mpr hb)).1
  · intro hall
    have hsub' : blocks z p k ⊆ (h.free k).filter fun b => b / z.page = p := by
      intro b hb
      exact List.mem_filter.mpr ⟨hall b hb, decide_eq_true (div_page_of_mem_blocks hb)⟩
    have hle := ((nodup_blocks p k).subperm hsub').length_le
    rw [hlen, ← List.countP_eq_length_filter] at hle
    exact Nat.le_antisymm (hwf.freeCnt_le p k) hle

variable (z) in
/-- What the header of an arena counts: free blocks, or pages. -/
def cntOf (h : Heap κ) (p : ℕ) : ℕ :=
  match h.arena p with
  | none => 0
  | some (.small k) => h.freeCnt z p k
  | some (.big pages) => pages

lemma cntOf_small (hp : h.arena p = some (.small k)) : h.cntOf z p = h.freeCnt z p k := by
  simp [cntOf, hp]

lemma cntOf_big {pages : ℕ} (hp : h.arena p = some (.big pages)) : h.cntOf z p = pages := by
  simp [cntOf, hp]

/-- Arenas with the same header and the same free blocks. -/
lemma cntOf_congr (harena : h'.arena p = h.arena p)
    (hcnt : ∀ k, h.arena p = some (.small k) → h'.freeCnt z p k = h.freeCnt z p k) :
    h'.cntOf z p = h.cntOf z p := by
  unfold cntOf
  rw [harena]
  cases hp : h.arena p with
  | none => rfl
  | some A =>
    cases A with
    | small k => exact hcnt k hp
    | big pages => rfl

/-! ## Used arenas -/

/-- A block becomes live, and every arena is an old one or the one of the block. -/
lemma Used.insert (hused : h.Used z) (hlive : h'.live = insert b h.live)
    (harena : ∀ q A, h'.arena q = some A → h.arena q = some A ∨ b / z.page = q) : h'.Used z := by
  intro q A hA
  rw [hlive]
  rcases harena q A hA with hold | hq
  · obtain ⟨c, hc, hcq⟩ := hused q A hold
    exact ⟨c, Set.mem_insert_of_mem _ hc, hcq⟩
  · exact ⟨b, Set.mem_insert .., hq⟩

/-- A block is no longer live, and its arena, if there still is one, has another. -/
lemma Used.erase (hused : h.Used z) (hlive : h'.live = h.live \ {b})
    (harena : ∀ q A, h'.arena q = some A → h.arena q = some A ∧ (b / z.page = q → ∃ c ∈ h'.live, c / z.page = q)) :
    h'.Used z := by
  intro q A hA
  obtain ⟨hold, hself⟩ := harena q A hA
  by_cases hq : b / z.page = q
  · exact hself hq
  · obtain ⟨c, hc, hcq⟩ := hused q A hold
    refine ⟨c, ?_, hcq⟩
    rw [hlive]
    refine ⟨hc, ?_⟩
    rintro rfl
    exact hq hcq

/-! ## The operations -/

section Operations

variable [DecidableEq κ]

/-- The list of a class becomes `l`. -/
def setFree (h : Heap κ) (k : κ) (l : List ℕ) : Heap κ :=
  { h with free := update h.free k l }

/-- The first free block of a class becomes live. -/
def take (h : Heap κ) (k : κ) (b : ℕ) (rest : List ℕ) : Heap κ :=
  { h with free := update h.free k rest, live := insert b h.live }

/-- A live block becomes the first free one of its class. -/
def give (h : Heap κ) (k : κ) (b : ℕ) : Heap κ :=
  { h with free := update h.free k (b :: h.free k), live := h.live \ {b} }

variable (z) in
/-- A new arena for a class without free blocks. -/
def addSmall (h : Heap κ) (p : ℕ) (k : κ) : Heap κ :=
  { h with arena := update h.arena p (some (.small k)), free := update h.free k (blocks z p k) }

variable (z) in
/-- An arena is given back. -/
def dropSmall (h : Heap κ) (p : ℕ) (k : κ) : Heap κ :=
  { h with
    arena := update h.arena p none
    free := update h.free k ((h.free k).filter fun b => b ∉ blocks z p k) }

omit [DecidableEq κ] in
variable (z) in
/-- A new big block. -/
def addBig (h : Heap κ) (p pages : ℕ) : Heap κ :=
  { h with
    arena := update h.arena p (some (.big pages))
    live := insert (Piece.start z (.big p pages : Piece κ)) h.live }

variable (z) in
/-- A big block is given back. -/
def dropBig (h : Heap κ) (p pages : ℕ) : Heap κ :=
  { h with
    arena := update h.arena p none
    live := h.live \ {Piece.start z (.big p pages : Piece κ)} }

variable {k : κ} {h' : Heap κ} {p pages : ℕ} {A : Arena κ} {x : Piece κ} {arena : ℕ → Option (Arena κ)} {q : ℕ}

/-- The lists after one of them has changed. -/
lemma forall_update {P : κ → List ℕ → Prop} {free : κ → List ℕ} {l : List ℕ} (hself : P k l)
    (hother : ∀ j, j ≠ k → P j (free j)) (j : κ) : P j (update free k l j) := by
  by_cases hj : j = k
  · subst hj
    rw [update_self]
    exact hself
  · rw [update_of_ne hj]
    exact hother j hj

lemma Wf.setFree (hwf : h.Wf z) {l : List ℕ} (hnodup : l.Nodup)
    (hl : ∀ b ∈ l, ∃ p i, h.Has z (.block p k i) ∧ Piece.start z (.block p k i) = b) :
    (h.setFree k l).Wf z where
  apart := hwf.apart
  pages_pos := hwf.pages_pos
  nodup := forall_update (P := fun _ l => l.Nodup) hnodup fun j _ => hwf.nodup j
  free := forall_update (P := fun j l => ∀ b ∈ l, ∃ p i, h.Has z (.block p j i) ∧ Piece.start z (.block p j i) = b) hl
    fun j _ => hwf.free j

/-! What the headers count after an operation. -/

/-- A block is added to the list of its class. -/
lemma cntOf_cons {b : ℕ} (harena : h'.arena = h.arena)
    (hfree : h'.free = update h.free k (b :: h.free k)) (hb : b / z.page = p)
    (hp : h.arena p = some (.small k)) (q : ℕ) :
    h'.cntOf z q = update (h.cntOf z) p (h.cntOf z p + 1) q := by
  by_cases hq : q = p
  · subst hq
    have hp' : h'.arena q = some (.small k) := by
      rw [harena]
      exact hp
    rw [update_self, cntOf_small hp, cntOf_small hp', freeCnt, hfree, update_self]
    exact List.countP_cons_of_pos (decide_eq_true hb)
  · rw [update_of_ne hq]
    apply cntOf_congr (congrFun harena q)
    intro j _
    rw [freeCnt, hfree]
    refine forall_update (P := fun j l => l.countP _ = (h.free j).countP _) ?_ (fun _ _ => rfl) j
    exact List.countP_cons_of_neg (by simpa [hb] using Ne.symm hq)

lemma cntOf_addSmall (hfree : h.free k = []) (q : ℕ) :
    (h.addSmall z p k).cntOf z q = update (h.cntOf z) p (z.count k) q := by
  have hself : (h.addSmall z p k).free k = blocks z p k := update_self ..
  by_cases hq : q = p
  · subst hq
    have hp : (h.addSmall z q k).arena q = some (.small k) := update_self ..
    have hall : (blocks z q k).countP (fun b => decide (b / z.page = q)) = (blocks z q k).length :=
      List.countP_eq_length.mpr fun b hb => decide_eq_true (div_page_of_mem_blocks hb)
    rw [cntOf_small hp, freeCnt, hself, hall]
    simp [blocks]
  · rw [update_of_ne hq]
    apply cntOf_congr (update_of_ne hq ..)
    intro j _
    refine forall_update (P := fun j l => l.countP _ = (h.free j).countP _) ?_ (fun _ _ => rfl) j
    rw [hfree, List.countP_nil, List.countP_eq_zero]
    intro b hb
    rw [div_page_of_mem_blocks hb]
    simpa using Ne.symm hq

lemma cntOf_dropSmall (hq : q ≠ p) : (h.dropSmall z p k).cntOf z q = h.cntOf z q := by
  apply cntOf_congr (update_of_ne hq ..)
  intro j _
  refine forall_update (P := fun j l => l.countP _ = (h.free j).countP _) ?_ (fun _ _ => rfl) j
  rw [List.countP_filter]
  refine List.countP_congr fun b _ => ?_
  -- a block in page `q` is not one of page `p`
  have hnot (hb : b / z.page = q) : b ∉ blocks z p k := by
    intro hmem
    exact hq (hb.symm.trans (div_page_of_mem_blocks hmem))
  simpa using hnot

omit [DecidableEq κ] in
lemma cntOf_addBig (p pages q : ℕ) :
    (h.addBig z p pages).cntOf z q = update (h.cntOf z) p pages q := by
  by_cases hq : q = p
  · subst hq
    rw [update_self]
    exact cntOf_big (update_self ..)
  · rw [update_of_ne hq]
    exact cntOf_congr (update_of_ne hq ..) fun _ _ => rfl

omit [DecidableEq κ] in
lemma cntOf_dropBig (hq : q ≠ p) : (h.dropBig z p pages).cntOf z q = h.cntOf z q :=
  cntOf_congr (update_of_ne hq ..) fun _ _ => rfl

/-! What the operations keep. -/

lemma Inv.take (hinv : h.Inv z) {b : ℕ} {rest : List ℕ} (hfree : h.free k = b :: rest) :
    (h.take k b rest).Inv z := by
  obtain ⟨hb, hnodup⟩ := List.nodup_cons.mp (hfree ▸ hinv.nodup k)
  obtain ⟨q, i, hhas, hstart⟩ := hinv.free k b (by rw [hfree]; exact List.mem_cons_self ..)
  have hwf := hinv.toWf.setFree hnodup fun c hc => hinv.free k c (by rw [hfree]; exact List.mem_cons_of_mem _ hc)
  refine ⟨⟨hwf.apart, hwf.pages_pos, hwf.nodup, hwf.free⟩, ?_, ?_, ?_⟩
  · intro c hc
    rcases hc with rfl | hc
    · exact ⟨.block q k i, hhas, trivial, hstart⟩
    · exact hinv.live c hc
  · intro p j n hx
    show Piece.start z (.block p j n) ∈ insert b h.live ↔
      Piece.start z (.block p j n) ∉ update h.free k rest j
    by_cases heq : Piece.start z (.block p j n) = b
    · -- it is the block that was taken
      obtain ⟨rfl, rfl, rfl⟩ := Piece.block.inj (hinv.start_inj hx hhas (heq.trans hstart.symm))
      rw [update_self, heq]
      exact ⟨fun _ => hb, fun _ => Set.mem_insert ..⟩
    · have hlive : Piece.start z (.block p j n) ∈ insert b h.live ↔ Piece.start z (.block p j n) ∈ h.live :=
        Set.mem_insert_iff.trans (or_iff_right heq)
      rw [hlive, hinv.split p j n hx]
      by_cases hj : j = k
      · subst hj
        rw [update_self, hfree, List.mem_cons, not_or]
        exact and_iff_right heq
      · rw [update_of_ne hj]
  · intro p pages hx
    exact Set.mem_insert_of_mem _ (hinv.big p pages hx)

lemma Inv.give (hinv : h.Inv z) {i : ℕ} (hhas : h.Has z (.block p k i))
    (hlive : Piece.start z (.block p k i) ∈ h.live) : (h.give k (Piece.start z (.block p k i))).Inv z := by
  obtain ⟨b, hb⟩ : ∃ b, b = Piece.start z (.block p k i) := ⟨_, rfl⟩
  rw [← hb] at hlive ⊢
  have hnot : b ∉ h.free k := by
    rw [hb]
    exact (hinv.split p k i hhas).mp (hb ▸ hlive)
  have hwf : (h.setFree k (b :: h.free k)).Wf z := by
    refine hinv.toWf.setFree (List.nodup_cons.mpr ⟨hnot, hinv.nodup k⟩) fun c hc => ?_
    rcases List.mem_cons.mp hc with rfl | hc
    · exact ⟨p, i, hhas, hb.symm⟩
    · exact hinv.free k c hc
  refine ⟨⟨hwf.apart, hwf.pages_pos, hwf.nodup, hwf.free⟩, ?_, ?_, ?_⟩
  · intro c hc
    exact hinv.live c hc.1
  · intro q j n hx
    show Piece.start z (.block q j n) ∈ h.live \ {b} ↔
      Piece.start z (.block q j n) ∉ update h.free k (b :: h.free k) j
    by_cases heq : Piece.start z (.block q j n) = b
    · obtain ⟨rfl, rfl, rfl⟩ := Piece.block.inj (hinv.start_inj hx hhas (heq.trans hb))
      rw [heq]
      simp
    · have hmem : Piece.start z (.block q j n) ∈ h.live \ {b} ↔ Piece.start z (.block q j n) ∈ h.live :=
        and_iff_left heq
      rw [hmem, hinv.split q j n hx]
      by_cases hj : j = k
      · subst hj
        rw [update_self, List.mem_cons, not_or]
        exact (and_iff_right heq).symm
      · rw [update_of_ne hj]
  · intro q pages hx
    refine ⟨hinv.big q pages hx, fun heq => ?_⟩
    have hx : h.Has z (.big q pages) := hx
    cases hinv.start_inj hx hhas (heq.trans hb)

/-! The parts of a heap with one more or one less arena. -/

omit [DecidableEq κ] in
/-- An arena after one was added or removed is that one or another. -/
lemma update_eq_some {a : Option (Arena κ)}
    (hA : update arena p a q = some A) : q = p ∧ a = some A ∨ q ≠ p ∧ arena q = some A := by
  by_cases hq : q = p
  · subst hq
    rw [update_self] at hA
    exact Or.inl ⟨rfl, hA⟩
  · rw [update_of_ne hq] at hA
    exact Or.inr ⟨hq, hA⟩

omit [DecidableEq κ] in
lemma update_none_eq_some (hA : update arena p none q = some A) :
    q ≠ p ∧ arena q = some A :=
  (update_eq_some hA).resolve_left fun hnew => Option.some_ne_none A hnew.2.symm

omit [DecidableEq κ] in
/-- The parts of an arena that stays. -/
lemma has_of_ne {a : Option (Arena κ)} (harena : h'.arena = update h.arena p a) (hp : x.page ≠ p) :
    h'.Has z x ↔ h.Has z x := by
  cases x with
  | header q | block q k i | big q pages =>
    have hq : h'.arena q = h.arena q := by
      rw [harena]
      exact update_of_ne hp ..
    simp [Has, hq]

omit [DecidableEq κ] in
/-- A part after an arena was added is new or old. -/
lemma has_update_some (harena : h'.arena = update h.arena p (some A)) (hx : h'.Has z x) :
    x.page ≠ p ∧ h.Has z x ∨ x.page = p := by
  by_cases hp : x.page = p
  · exact Or.inr hp
  · exact Or.inl ⟨hp, (has_of_ne harena hp).mp hx⟩

omit [DecidableEq κ] in
/-- A part after an arena was removed is one of another arena. -/
lemma has_update_none (harena : h'.arena = update h.arena p none) :
    h'.Has z x ↔ x.page ≠ p ∧ h.Has z x := by
  by_cases hp : x.page = p
  · refine iff_of_false (fun hx => ?_) fun hx => hx.1 hp
    have hq : h'.arena x.page = none := by
      rw [harena, hp]
      exact update_self ..
    cases x with
    | header q | block q k i | big q pages =>
      have hq : h'.arena q = none := hq
      simp [Has, hq] at hx
  · rw [and_iff_right hp, has_of_ne harena hp]

omit [DecidableEq κ] in
/-- A part of another arena stays when an arena is added. -/
lemma has_of_update_some (harena : h'.arena = update h.arena p (some A)) (hfresh : h.Fresh p A.pages)
    (hpos : 0 < A.pages) (hwf : h.Wf z) (hx : h.Has z x) : x.page ≠ p ∧ h'.Has z x := by
  obtain ⟨B, hB, _⟩ := hwf.inside hx
  have hp : x.page ≠ p := by
    rintro rfl
    have := hwf.pages_pos _ B hB
    have := hfresh _ B hB
    omega
  exact ⟨hp, (has_of_ne harena hp).mpr hx⟩

omit [DecidableEq κ] in
/-- The arenas with a new one that is fresh do not overlap. -/
lemma Wf.apart_update (hwf : h.Wf z) (hfresh : h.Fresh p A.pages) (hpos : 0 < A.pages) :
    (∀ q B, update h.arena p (some A) q = some B → ∀ r C, update h.arena p (some A) r = some C →
      q ≠ r → q + B.pages ≤ r ∨ r + C.pages ≤ q) ∧
      ∀ q B, update h.arena p (some A) q = some B → 0 < B.pages := by
  constructor
  · intro q B hB r C hC hne
    rcases update_eq_some hB with ⟨hq, hBA⟩ | ⟨_, hB⟩
    · rcases update_eq_some hC with ⟨hr, _⟩ | ⟨_, hC⟩
      · exact absurd (hq.trans hr.symm) hne
      · rw [hq, ← Option.some.inj hBA]
        exact hfresh r C hC
    · rcases update_eq_some hC with ⟨hr, hCA⟩ | ⟨_, hC⟩
      · rw [hr, ← Option.some.inj hCA]
        exact (hfresh q B hB).symm
      · exact hwf.apart q B hB r C hC hne
  · intro q B hB
    rcases update_eq_some hB with ⟨_, hBA⟩ | ⟨_, hB⟩
    · rw [← Option.some.inj hBA]
      exact hpos
    · exact hwf.pages_pos q B hB

omit [DecidableEq κ] in
lemma Wf.apart_erase (hwf : h.Wf z) :
    (∀ q B, update h.arena p none q = some B → ∀ r C, update h.arena p none r = some C →
      q ≠ r → q + B.pages ≤ r ∨ r + C.pages ≤ q) ∧ ∀ q B, update h.arena p none q = some B → 0 < B.pages := by
  constructor
  · intro q B hB r C hC
    exact hwf.apart q B (update_none_eq_some hB).2 r C (update_none_eq_some hC).2
  · intro q B hB
    exact hwf.pages_pos q B (update_none_eq_some hB).2

lemma Inv.addSmall (hinv : h.Inv z) (hfresh : h.Fresh p 1) (hfree : h.free k = []) :
    (h.addSmall z p k).Inv z := by
  have harena : (h.addSmall z p k).arena = update h.arena p (some (.small k)) := rfl
  obtain ⟨hapart, hpos⟩ := hinv.apart_update (A := .small k) hfresh Nat.one_pos
  have hkeep {x : Piece κ} (hx : h.Has z x) := has_of_update_some harena hfresh Nat.one_pos hinv.toWf hx
  -- the new blocks are no addresses of old parts
  have hnew {x : Piece κ} (hx : h.Has z x) : x.start z ∉ blocks z p k := by
    intro hmem
    obtain ⟨i, hi, heq⟩ := mem_blocks.mp hmem
    have hfits := block_fits hi
    have := z.block_pos k
    have hstart : p * z.page + z.header + i * z.block k = x.start z := heq
    obtain ⟨_, _, _, hlt, _⟩ := hinv.inside hx
    have hdisj := hinv.fresh_disjoint hfresh hx
    rw [Nat.add_mul] at hfits hdisj
    omega
  refine ⟨⟨hapart, hpos, ?_, ?_⟩, ?_, ?_, ?_⟩
  · exact forall_update (nodup_blocks p k) fun j _ => hinv.nodup j
  · refine forall_update (P := fun j l => ∀ b ∈ l, ∃ q i, (h.addSmall z p k).Has z (.block q j i) ∧
      Piece.start z (.block q j i) = b) ?_ fun j _ b hb => ?_
    · intro b hb
      obtain ⟨i, hi, rfl⟩ := mem_blocks.mp hb
      exact ⟨p, i, ⟨update_self .., hi⟩, rfl⟩
    · obtain ⟨q, i, hhas, rfl⟩ := hinv.free j b hb
      exact ⟨q, i, (hkeep hhas).2, rfl⟩
  · intro b hb
    obtain ⟨x, hx, hblock, rfl⟩ := hinv.live b hb
    exact ⟨x, (hkeep hx).2, hblock, rfl⟩
  · intro q j i hx
    show Piece.start z (.block q j i) ∈ h.live ↔ Piece.start z (.block q j i) ∉ update h.free k (blocks z p k) j
    rcases has_update_some harena hx with ⟨_, hold⟩ | hpage
    · rw [hinv.split q j i hold]
      by_cases hj : j = k
      · subst hj
        rw [update_self, hfree]
        exact ⟨fun _ => hnew hold, fun _ => List.not_mem_nil⟩
      · rw [update_of_ne hj]
    · obtain rfl : q = p := hpage
      have hself : (h.addSmall z q k).arena q = some (.small k) := update_self ..
      obtain rfl : k = j := Arena.small.inj (Option.some.inj (hself.symm.trans hx.1))
      have hmem : Piece.start z (.block q k i) ∈ blocks z q k := mem_blocks.mpr ⟨i, hx.2, rfl⟩
      rw [update_self]
      refine iff_of_false (fun hlive => ?_) fun hnot => hnot hmem
      obtain ⟨x, hold, _, heq⟩ := hinv.live _ hlive
      rw [← heq] at hmem
      exact hnew hold hmem
  · intro q pages hx
    rcases has_update_some harena hx with ⟨_, hold⟩ | hpage
    · exact hinv.big q pages hold
    · obtain rfl : q = p := hpage
      have hself : (h.addSmall z q k).arena q = some (.small k) := update_self ..
      cases hself.symm.trans hx

lemma Inv.dropSmall (hinv : h.Inv z) (hp : h.arena p = some (.small k))
    (hall : ∀ b ∈ blocks z p k, b ∈ h.free k) : (h.dropSmall z p k).Inv z := by
  have harena : (h.dropSmall z p k).arena = update h.arena p none := rfl
  have hhas {x : Piece κ} : (h.dropSmall z p k).Has z x ↔ x.page ≠ p ∧ h.Has z x := has_update_none harena
  obtain ⟨hapart, hpos⟩ := hinv.apart_erase (p := p)
  -- the blocks of the arena are the blocks with its page
  have hpage {q : ℕ} {j : κ} {i : ℕ} (hx : h.Has z (.block q j i)) :
      Piece.start z (.block q j i) ∈ blocks z p k ↔ q = p := by
    constructor
    · intro hmem
      rw [← div_page_of_mem_blocks (mem_blocks.mpr ⟨i, hx.2, rfl⟩ : Piece.start z (.block q j i) ∈ blocks z q j)]
      exact div_page_of_mem_blocks hmem
    · rintro rfl
      obtain rfl : j = k := Arena.small.inj (Option.some.inj (hx.1.symm.trans hp))
      exact mem_blocks.mpr ⟨i, hx.2, rfl⟩
  refine ⟨⟨hapart, hpos, ?_, ?_⟩, ?_, ?_, ?_⟩
  · exact forall_update ((hinv.nodup k).filter _) fun j _ => hinv.nodup j
  · refine forall_update (P := fun j l => ∀ b ∈ l, ∃ q i, (h.dropSmall z p k).Has z (.block q j i) ∧
      Piece.start z (.block q j i) = b) ?_ fun j hj b hb => ?_
    · intro b hb
      obtain ⟨hmem, hnot⟩ := List.mem_filter.mp hb
      obtain ⟨q, i, hx, rfl⟩ := hinv.free k b hmem
      refine ⟨q, i, hhas.mpr ⟨?_, hx⟩, rfl⟩
      exact fun hq => of_decide_eq_true hnot ((hpage hx).mpr hq)
    · obtain ⟨q, i, hx, rfl⟩ := hinv.free j b hb
      refine ⟨q, i, hhas.mpr ⟨?_, hx⟩, rfl⟩
      rintro rfl
      exact hj (Arena.small.inj (Option.some.inj (hx.1.symm.trans hp)))
  · intro b hb
    obtain ⟨x, hx, hblock, rfl⟩ := hinv.live b hb
    refine ⟨x, hhas.mpr ⟨?_, hx⟩, hblock, rfl⟩
    -- a live block of the arena would be a free one
    intro hxp
    cases x with
    | header q => exact hblock
    | block q j i =>
      have hmem := (hpage hx).mpr hxp
      obtain rfl : q = p := hxp
      obtain rfl : j = k := Arena.small.inj (Option.some.inj (hx.1.symm.trans hp))
      exact (hinv.split q j i hx).mp hb (hall _ hmem)
    | big q pages =>
      obtain rfl : q = p := hxp
      cases hp.symm.trans hx
  · intro q j i hx
    obtain ⟨hq, hold⟩ := hhas.mp hx
    have hq : ¬q = p := hq
    show Piece.start z (.block q j i) ∈ h.live ↔ Piece.start z (.block q j i) ∉ update h.free k _ j
    rw [hinv.split q j i hold]
    by_cases hj : j = k
    · subst hj
      rw [update_self, List.mem_filter, decide_eq_true_iff, hpage hold, and_iff_left hq]
    · rw [update_of_ne hj]
  · intro q pages hx
    exact hinv.big q pages (hhas.mp hx).2

omit [DecidableEq κ] in
lemma Inv.addBig (hinv : h.Inv z) (hfresh : h.Fresh p pages) (hpages : 0 < pages) :
    (h.addBig z p pages).Inv z := by
  have harena : (h.addBig z p pages).arena = update h.arena p (some (.big pages)) := rfl
  obtain ⟨hapart, hpos⟩ := hinv.apart_update (A := .big pages) hfresh hpages
  have hkeep {x : Piece κ} (hx : h.Has z x) := has_of_update_some harena hfresh hpages hinv.toWf hx
  have hself : (h.addBig z p pages).arena p = some (.big pages) := update_self ..
  refine ⟨⟨hapart, hpos, hinv.nodup, ?_⟩, ?_, ?_, ?_⟩
  · intro k b hb
    obtain ⟨q, i, hhas, rfl⟩ := hinv.free k b hb
    exact ⟨q, i, (hkeep hhas).2, rfl⟩
  · intro b hb
    rcases hb with rfl | hb
    · exact ⟨.big p pages, hself, trivial, rfl⟩
    · obtain ⟨x, hx, hblock, rfl⟩ := hinv.live b hb
      exact ⟨x, (hkeep hx).2, hblock, rfl⟩
  · intro q j i hx
    rcases has_update_some harena hx with ⟨_, hold⟩ | hpage
    · have hne : Piece.start z (.block q j i) ≠ Piece.start z (.big p pages) := by
        obtain ⟨_, _, hlo, hlt, hhi⟩ := hinv.inside hold
        have hdisj := hinv.fresh_disjoint hfresh hold
        have := z.header_lt
        have hmul : (p + 1) * z.page ≤ (p + pages) * z.page := Nat.mul_le_mul_right _ (by omega)
        rw [Nat.add_mul] at hmul
        show _ ≠ p * z.page + z.header
        omega
      exact (Set.mem_insert_iff.trans (or_iff_right hne)).trans (hinv.split q j i hold)
    · obtain rfl : q = p := hpage
      cases hself.symm.trans hx.1
  · intro q pages' hx
    rcases has_update_some harena hx with ⟨_, hold⟩ | hpage
    · exact Set.mem_insert_of_mem _ (hinv.big q pages' hold)
    · obtain rfl : q = p := hpage
      exact Set.mem_insert ..

omit [DecidableEq κ] in
lemma Inv.dropBig (hinv : h.Inv z) (hp : h.arena p = some (.big pages)) : (h.dropBig z p pages).Inv z := by
  have harena : (h.dropBig z p pages).arena = update h.arena p none := rfl
  have hhas {x : Piece κ} : (h.dropBig z p pages).Has z x ↔ x.page ≠ p ∧ h.Has z x := has_update_none harena
  have hbig : h.Has z (.big p pages) := hp
  obtain ⟨hapart, hpos⟩ := hinv.apart_erase
  refine ⟨⟨hapart, hpos, hinv.nodup, ?_⟩, ?_, ?_, ?_⟩
  · intro k b hb
    obtain ⟨q, i, hx, rfl⟩ := hinv.free k b hb
    refine ⟨q, i, hhas.mpr ⟨?_, hx⟩, rfl⟩
    rintro rfl
    cases hp.symm.trans hx.1
  · intro b hb
    obtain ⟨x, hx, hblock, rfl⟩ := hinv.live b hb.1
    refine ⟨x, hhas.mpr ⟨?_, hx⟩, hblock, rfl⟩
    intro hxp
    cases x with
    | header q => exact hblock
    | block q j i =>
      obtain rfl : q = p := hxp
      cases hp.symm.trans hx.1
    | big q pages' =>
      obtain rfl : q = p := hxp
      exact hb.2 rfl
  · intro q j i hx
    obtain ⟨hq, hold⟩ := hhas.mp hx
    have hne : Piece.start z (.block q j i) ≠ Piece.start z (.big p pages) := by
      intro heq
      cases hinv.start_inj hold hbig heq
    have hlive : Piece.start z (.block q j i) ∈ (h.dropBig z p pages).live ↔ Piece.start z (.block q j i) ∈ h.live :=
      and_iff_left hne
    exact hlive.trans (hinv.split q j i hold)
  · intro q pages' hx
    obtain ⟨hq, hold⟩ := hhas.mp hx
    refine ⟨hinv.big q pages' hold, fun heq => hq ?_⟩
    have hpiece := hinv.start_inj hold hbig heq
    exact (Piece.big.inj hpiece).1

end Operations

end Heap

end OsLabs.Lib
