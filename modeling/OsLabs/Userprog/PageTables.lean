import OsLabs.Userprog.PageDir

/-!
# The pages of a directory

`Tables` says what the entries for the addresses of the process are, and `frameOf` which frame an entry has. `pagedir_destroy`
gives back the frames, the tables and the directory, each of them once (`pagedirDestroy_freed`): `Freed R m m' F` says that memory
is as in `m` but for the pages `F`, which are given back.
-/

namespace OsLabs.Userprog

open Lib Threads Function

/-! ## Giving pages back -/

/-- The pages of the two pools. -/
def pagesOf (K U : List ℕ) : PoolId → List ℕ
  | .kernel => K
  | .user => U

@[simp] lemma update_pagesOf_kernel (K U K' : List ℕ) : update (pagesOf K U) .kernel K' = pagesOf K' U := by
  funext p
  cases p <;> rfl

@[simp] lemma update_pagesOf_user (K U U' : List ℕ) : update (pagesOf K U) .user U' = pagesOf K U' := by
  funext p
  cases p <;> rfl

lemma pagesOf_nil : pagesOf [] [] = fun _ => [] := by
  funext p
  cases p <;> rfl

/-- The pages `F` are given back, and nothing else has changed. -/
structure Freed (R : Ram) (m m' : Memory) (F : Set ℕ) : Prop where
  sound : m'.Sound R
  sublist : ∀ p, (m'.pages p).Sublist (m.pages p)
  pages : ∀ p x, x ∈ m'.pages p ↔ x ∈ m.pages p ∧ x ∉ F
  bytes : ∀ x, x ∉ F → m'.bytes x = m.bytes x
  heap : m'.heap = m.heap

section Freed

variable {R : Ram} {m m' : Memory} {F : Set ℕ} {p : PoolId} {x : ℕ}

lemma Freed.refl (h : m.Sound R) : Freed R m m ∅ where
  sound := h
  sublist p := List.Sublist.refl _
  pages p x := by simp
  bytes _ _ := rfl
  heap := rfl

lemma inRam_of_hasPage (h : (R.pools p).hasPage x) : InRam x := by
  have hbounds := R.page_bounds h
  have hlt := R.page_lt h
  unfold InRam
  omega

/-- One more page is given back. -/
lemma Freed.insert (h : Freed R m m' F) (hm : m.Sound R) (hx : x ∈ m.pages p) (hF : x ∉ F) :
    ∃ m'', m'.pallocFreePage R x = .ok m'' ∧ Freed R m m'' (insert x F) := by
  have hx' : x ∈ m'.pages p := (h.pages p x).mpr ⟨hx, hF⟩
  refine ⟨_, Memory.Extends.release_eq hx' (h.sound.pool p x hx'), ?_⟩
  constructor
  · exact (h.sound.erase p x).setPage x _
  · intro q
    rw [Memory.setPage_pages]
    by_cases hq : q = p
    · rw [hq, Memory.setPages_self]
      exact List.erase_sublist.trans (h.sublist p)
    · rw [Memory.setPages_of_ne hq]
      exact h.sublist q
  · intro q y
    rw [Memory.setPage_pages, Set.mem_insert_iff, not_or]
    by_cases hq : q = p
    · rw [hq, Memory.setPages_self, (h.sound.nodup p).mem_erase_iff, h.pages]
      exact ⟨fun hy => ⟨hy.2.1, hy.1, hy.2.2⟩, fun hy => ⟨hy.2.1, hy.1, hy.2.2⟩⟩
    · rw [Memory.setPages_of_ne hq, h.pages]
      refine and_congr_right fun hy => ⟨fun hyF => ⟨?_, hyF⟩, fun hyF => hyF.2⟩
      -- a page is in one pool only
      rintro rfl
      exact hq (R.pool_unique (hm.pool p y hx) (hm.pool q y hy))
  · intro y hy
    rw [Set.mem_insert_iff, not_or] at hy
    rw [Memory.setPage_of_ne hy.1]
    exact h.bytes y hy.2
  · exact h.heap

end Freed

/-! ## Entries -/

/-- The frame of an entry. -/
def frameOf (e : ℕ) : Option ℕ :=
  if e &&& 1 ≠ 0 then some (e / 4096 + 0xc0000) else none

lemma frameOf_pte_none : frameOf (pte none) = none := rfl

variable {x : ℕ}

lemma frameOf_pte_some {w : Bool} (hx : InRam x) : frameOf (pte (some (x, w))) = some x := by
  have hpage : pte (some (x, w)) / 4096 + 0xc0000 = x := by
    obtain ⟨hlo, hhi⟩ := hx
    cases w
    · show ((x - 0xc0000) * 4096 + 5) / 4096 + 0xc0000 = x
      omega
    · show ((x - 0xc0000) * 4096 + 7) / 4096 + 0xc0000 = x
      omega
  rw [frameOf, if_pos ((pte_present _).mpr rfl), hpage]

/-- The entries for the addresses of the process. -/
structure Tables (m : Memory) (pd : ℕ) (tables : ℕ → Option ℕ) (entries : ℕ → ℕ) : Prop where
  dir : ∀ i < 768, m.word pd i = pde (tables i)
  table : ∀ i < 768, ∀ t, tables i = some t → ∀ j < 1024, m.word t j = entries (1024 * i + j)
  absent : ∀ i < 768, tables i = none → ∀ j < 1024, entries (1024 * i + j) &&& 1 = 0

/-- The directory, the tables and the frames are different pages that are in use. -/
structure Disposable (m : Memory) (pd : ℕ) (tables : ℕ → Option ℕ) (entries : ℕ → ℕ) : Prop where
  pd_mem : pd ∈ m.pages .kernel
  table_mem : ∀ i < 768, ∀ t, tables i = some t → t ∈ m.pages .kernel
  ne_pd : ∀ i < 768, ∀ t, tables i = some t → t ≠ pd
  tables_inj : ∀ i < 768, ∀ j < 768, ∀ t, tables i = some t → tables j = some t → i = j
  frame_mem : ∀ u < 786432, ∀ x, frameOf (entries u) = some x → ∃ p, x ∈ m.pages p
  frame_ne : ∀ u < 786432, ∀ x, frameOf (entries u) = some x → x ≠ pd ∧ ∀ i < 768, tables i ≠ some x
  frames_inj : ∀ u < 786432, ∀ v < 786432, ∀ x, frameOf (entries u) = some x → frameOf (entries v) = some x → u = v

section Destroy

variable {R : Ram} {m m' : Memory} {pd : ℕ} {tables : ℕ → Option ℕ} {entries : ℕ → ℕ} {c d : ℕ}

/-- The frames of the pages before `c`, and the tables before `d`. -/
def freedUpTo (tables : ℕ → Option ℕ) (entries : ℕ → ℕ) (c d : ℕ) : Set ℕ :=
  { x | (∃ u < c, frameOf (entries u) = some x) ∨ ∃ i < d, tables i = some x }

lemma word_lt (m : Memory) (x i : ℕ) : m.word x i < 2 ^ 32 :=
  le32_lt _ _

/-- The frame of an entry that is in use. -/
lemma pteGetPage_of_frameOf {e x : ℕ} (he : e < 2 ^ 32) (hx : InRam x) (h : frameOf e = some x) :
    e &&& 1 ≠ 0 ∧ pteGetPage e = .ok x := by
  unfold frameOf at h
  by_cases hpresent : e &&& 1 ≠ 0
  · rw [if_pos hpresent] at h
    have heq : e / 4096 + 0xc0000 = x := Option.some.inj h
    have hentry : e = (x - 0xc0000) * 4096 + e % 4096 := by omega
    exact ⟨hpresent, hx.ptovPage hentry (Nat.mod_lt e (by omega))⟩
  · rw [if_neg hpresent] at h
    cases h

lemma freedUpTo_succ_frame (h : frameOf (entries c) = some x) :
    freedUpTo tables entries (c + 1) d = insert x (freedUpTo tables entries c d) := by
  ext y
  simp only [freedUpTo, Set.mem_ofPred_eq, Set.mem_insert_iff, Nat.exists_lt_succ_right, h, Option.some.injEq, eq_comm]
  rw [or_right_comm, or_comm]

lemma freedUpTo_succ_noFrame (h : frameOf (entries c) = none) :
    freedUpTo tables entries (c + 1) d = freedUpTo tables entries c d := by
  simp only [freedUpTo, Nat.exists_lt_succ_right, h, reduceCtorEq, or_false]

lemma freedUpTo_succ_table {t : ℕ} (h : tables d = some t) :
    freedUpTo tables entries c (d + 1) = insert t (freedUpTo tables entries c d) := by
  ext y
  simp only [freedUpTo, Set.mem_ofPred_eq, Set.mem_insert_iff, Nat.exists_lt_succ_right, h, Option.some.injEq, eq_comm]
  rw [← or_assoc, or_comm]

lemma freedUpTo_succ_noTable (h : tables d = none) : freedUpTo tables entries c (d + 1) = freedUpTo tables entries c d := by
  simp only [freedUpTo, Nat.exists_lt_succ_right, h, reduceCtorEq, or_false]

lemma freedUpTo_noFrames (h : ∀ u, c ≤ u → u < c + d → frameOf (entries u) = none) (i : ℕ) :
    freedUpTo tables entries (c + d) i = freedUpTo tables entries c i := by
  induction d with
  | zero => rfl
  | succ d ih =>
    rw [← Nat.add_assoc, freedUpTo_succ_noFrame (h (c + d) (by omega) (by omega)), ih fun u hle hlt => h u hle (by omega)]

/-- A table that is not given back yet is as it was. -/
lemma Freed.word_eq {F : Set ℕ} (h : Freed R m m' F) (hx : x ∉ F) (i : ℕ) : m'.word x i = m.word x i :=
  Memory.word_congr (h.bytes x hx)

variable (ht : Tables m pd tables entries) (hd : Disposable m pd tables entries)

include hd

lemma Disposable.pd_notMem (c : ℕ) (hc : c ≤ 786432) (hle : d ≤ 768) : pd ∉ freedUpTo tables entries c d := by
  rintro (⟨u, hu, hframe⟩ | ⟨i, hi, htable⟩)
  · exact (hd.frame_ne u (by omega) pd hframe).1 rfl
  · exact hd.ne_pd i (by omega) pd htable rfl

lemma Disposable.table_notMem {i t : ℕ} (hi : i < 768) (htable : tables i = some t) (hc : c ≤ 786432) (hle : d ≤ i) :
    t ∉ freedUpTo tables entries c d := by
  rintro (⟨u, hu, hframe⟩ | ⟨j, hj, hj'⟩)
  · exact (hd.frame_ne u (by omega) t hframe).2 i hi htable
  · have heq := hd.tables_inj i hi j (by omega) t htable hj'
    omega

lemma Disposable.frame_notMem (hc : c < 786432) (hframe : frameOf (entries c) = some x) (hle : d ≤ 768) :
    x ∉ freedUpTo tables entries c d := by
  rintro (⟨u, hu, hu'⟩ | ⟨i, hi, htable⟩)
  · have heq := hd.frames_inj u (by omega) c hc x hu' hframe
    omega
  · exact (hd.frame_ne c hc x hframe).2 i (by omega) htable

include ht

/-- The inner loop frees the frames of its table. -/
lemma freeFrames_freed (hm : m.Sound R) {i t : ℕ} (hi : i < 768) (htable : tables i = some t)
    (h : Freed R m m' (freedUpTo tables entries (1024 * i) i)) :
    ∃ m'', freeFrames R m' t = .ok m'' ∧ Freed R m m'' (freedUpTo tables entries (1024 * i + 1024) i) := by
  have hstep : ∀ j < 1024, ∀ m' : Memory, Freed R m m' (freedUpTo tables entries (1024 * i + j) i) →
      ∃ m'', (do
        if m'.word t j &&& 1 ≠ 0 then
          let page ← pteGetPage (m'.word t j)
          m'.pallocFreePage R page
        else return m' : KernelM Memory) = .ok m'' ∧
        Freed R m m'' (freedUpTo tables entries (1024 * i + (j + 1)) i) := by
    intro j hj m' h
    have hword : m'.word t j = entries (1024 * i + j) := by
      rw [h.word_eq (hd.table_notMem hi htable (by omega) (Nat.le_refl i)), ht.table i hi t htable j hj]
    have hlt : entries (1024 * i + j) < 2 ^ 32 := by
      rw [← hword]
      exact word_lt m' t j
    rw [hword, ← Nat.add_assoc]
    cases hframe : frameOf (entries (1024 * i + j)) with
    | none =>
      have habsent : ¬(entries (1024 * i + j) &&& 1 ≠ 0) := by
        intro hpresent
        rw [frameOf, if_pos hpresent] at hframe
        cases hframe
      rw [if_neg habsent, freedUpTo_succ_noFrame hframe]
      exact ⟨m', rfl, h⟩
    | some x =>
      obtain ⟨p, hx⟩ := hd.frame_mem _ (by omega) x hframe
      obtain ⟨hpresent, hpage⟩ := pteGetPage_of_frameOf hlt (inRam_of_hasPage (hm.pool p x hx)) hframe
      rw [if_pos hpresent, hpage, freedUpTo_succ_frame hframe]
      exact h.insert hm hx (hd.frame_notMem (by omega) hframe (by omega))
  exact foldlM_range hstep h

/-- The outer loop frees all frames and tables. -/
lemma freeTables_freed (hm : m.Sound R) :
    ∃ m', freeTables R m pd = .ok m' ∧ Freed R m m' (freedUpTo tables entries 786432 768) := by
  have hstep : ∀ i < 768, ∀ m' : Memory, Freed R m m' (freedUpTo tables entries (1024 * i) i) →
      ∃ m'', (do
        if m'.word pd i &&& 1 ≠ 0 then
          let pt ← pdeGetPt (m'.word pd i)
          let m' ← freeFrames R m' pt
          m'.pallocFreePage R pt
        else return m' : KernelM Memory) = .ok m'' ∧
        Freed R m m'' (freedUpTo tables entries (1024 * (i + 1)) (i + 1)) := by
    intro i hi m' h
    rw [h.word_eq (hd.pd_notMem _ (by omega) (by omega)), ht.dir i hi, show 1024 * (i + 1) = 1024 * i + 1024 by omega]
    cases htable : tables i with
    | none =>
      rw [freedUpTo_succ_noTable htable, freedUpTo_noFrames fun u hle hlt => ?_]
      · exact ⟨m', rfl, h⟩
      · -- without a table there is no frame
        have hzero := ht.absent i hi htable (u - 1024 * i) (by omega)
        rw [show 1024 * i + (u - 1024 * i) = u by omega] at hzero
        exact if_neg (not_not.mpr hzero)
    | some t =>
      have htram : InRam t := inRam_of_hasPage (hm.pool .kernel t (hd.table_mem i hi t htable))
      rw [if_pos ((pde_present _).mpr rfl), pdeGetPt_pde htram, except_ok_bind]
      obtain ⟨m₁, hframes, h₁⟩ := freeFrames_freed ht hd hm hi htable h
      rw [hframes, freedUpTo_succ_table htable]
      exact h₁.insert hm (hd.table_mem i hi t htable) (hd.table_notMem hi htable (by omega) (Nat.le_refl i))
  have hstart : freedUpTo tables entries (1024 * 0) 0 = ∅ := by
    ext x
    simp [freedUpTo]
  unfold freeTables
  apply foldlM_range hstep
  rw [hstart]
  exact Freed.refl hm

/-- `pagedir_destroy` frees the frames, the tables and the directory. -/
lemma pagedirDestroy_freed (hm : m.Sound R) (hinit : pd ≠ R.initPageDir) :
    ∃ m', pagedirDestroy R m (some pd) = .ok m' ∧ Freed R m m' (insert pd (freedUpTo tables entries 786432 768)) := by
  obtain ⟨m₁, hrun, h₁⟩ := freeTables_freed ht hd hm
  obtain ⟨m', hfree, h'⟩ := h₁.insert hm hd.pd_mem (hd.pd_notMem _ (Nat.le_refl _) (Nat.le_refl _))
  refine ⟨m', ?_, h'⟩
  rw [pagedirDestroy, if_neg hinit, hrun]
  exact hfree

end Destroy

end OsLabs.Userprog
