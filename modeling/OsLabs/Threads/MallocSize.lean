import OsLabs.Lib.WordBytes
import OsLabs.Threads.MallocRuns

/-!
# How large blocks are

`block_size` of the block that `malloc` returns is `usableSize`, which is large enough unless the number of pages is
computed modulo `2 ^ 32`. `calloc` multiplies modulo `2 ^ 32` as well and notices an overflow only if the product becomes
smaller than a factor.
-/

namespace OsLabs.Threads

open Lib LibKernel

variable {D : DescsAddr} {s : MallocState} {h : Heap (Fin 7)}

/-! ## `malloc` -/

lemma blockSize_class (k : Fin 7) : (desc k).blockSize ≤ 1024 ∧ (desc k).blockSize % 4 = 0 := by
  revert k
  decide

/-- The number of pages is 0 or too small for the largest sizes. -/
lemma le_usableSize_iff {size : ℕ} (hsize : size < 2 ^ 32) (hpages : pageCnt size ≠ 0) :
    size ≤ usableSize size ↔ size < 2 ^ 32 - 11 := by
  unfold usableSize
  unfold pageCnt at *
  cases hfind : findDesc size with
  | some k =>
    have hfits : size ≤ (desc k).blockSize := by simpa using List.find?_some hfind
    have hsmall := (blockSize_class k).1
    exact iff_of_true hfits (by omega)
  | none =>
    rw [hfind] at hpages
    dsimp only at hpages ⊢
    omega

/-- The block is somewhere in the kernel pool, so that its pages are. -/
lemma HasBlock.bounds (hwf : h.Wf sizes) (hpool : InPool h) {b n : ℕ} (hb : HasBlock h b n) :
    0 < n ∧ 0xc0100 * 4096 + 12 + n ≤ 2 ^ 32 - 4096 := by
  obtain ⟨x, hx, hblock, rfl, hstop⟩ := hb
  obtain ⟨A, hA, hlo, hlt, hhi⟩ := hwf.inside hx
  obtain ⟨hge, hlast⟩ := hpool _ A hA
  have hhi : x.stop sizes ≤ (x.page + A.pages) * 4096 := hhi
  have hstart : x.page * 4096 + 12 ≤ x.start sizes := by
    cases x with
    | header p => exact hblock.elim
    | block p k i =>
      show p * 4096 + 12 ≤ p * 4096 + 12 + i * _
      omega
    | big p pages => exact Nat.le_refl (p * 4096 + 12)
  omega

lemma HasBlock.pageCnt_ne_zero (hwf : h.Wf sizes) (hpool : InPool h) {b size : ℕ}
    (hb : HasBlock h b (usableSize size)) : pageCnt size ≠ 0 := by
  intro hzero
  have hpos := (hb.bounds hwf hpool).1
  unfold usableSize at hpos
  cases hfind : findDesc size with
  | some k =>
    rw [pageCnt, hfind] at hzero
    cases hzero
  | none =>
    rw [hfind, hzero] at hpos
    cases hpos

lemma Rep.blockSize_of_hasBlock (hr : Rep D s h) {b n : ℕ} (hb : HasBlock h b n) : blockSize D s.mem b = .ok n := by
  obtain ⟨x, hx, hblock, rfl, hstop⟩ := hb
  rw [hr.blockSize_eq hx hblock, hstop, Nat.add_sub_cancel_left]

/-- `malloc` returns enough memory exactly if the number of pages does not wrap around. -/
theorem malloc_enough_iff (hreach : (mallocMachine D).Reachable s) {size : UInt32} {page : Option ℕ} {p : ℕ}
    {s' : MallocState} (hmalloc : malloc D s size page = .ok (p, s')) (hp : p ≠ 0) :
    ∃ u, blockSize D s'.mem p = .ok u ∧ (size.toNat ≤ u ↔ size.toNat < 2 ^ 32 - 11) := by
  obtain ⟨h, hi⟩ := mallocMachine_inv hreach
  rcases malloc_spec hi.toRep size page with ⟨hr, -⟩ | ⟨hr, -⟩ | ⟨b, s'', h', hr, ha, hblock, -⟩
  · cases hr.symm.trans hmalloc
  · exact absurd (Prod.mk.inj (Except.ok.inj (hmalloc.symm.trans hr))).1 hp
  · obtain ⟨rfl, rfl⟩ := Prod.mk.inj (Except.ok.inj (hmalloc.symm.trans hr))
    have hpages := hblock.pageCnt_ne_zero ha.rep.inv.toWf ha.rep.pool
    exact ⟨_, ha.rep.blockSize_of_hasBlock hblock, le_usableSize_iff size.toNat_lt hpages⟩

/-- A state without blocks, after `malloc_init`. -/
def exampleStart : MallocState :=
  mallocStart exampleDescs fun _ => 0

lemma exampleStart_reachable : (mallocMachine exampleDescs).Reachable exampleStart :=
  .init ⟨_, rfl⟩

/-- A request for 5000 bytes gets two pages. -/
theorem malloc_enough_iff_twoPages : ∃ s' u, malloc exampleDescs exampleStart 5000 (some 0xc0100) = .ok (0xc010000c, s') ∧
    blockSize exampleDescs s'.mem 0xc010000c = .ok u ∧ 5000 ≤ u := by
  have hrun : (malloc exampleDescs exampleStart 5000 (some 0xc0100)).toOption.map Prod.fst = some 0xc010000c := by
    decide +kernel
  obtain ⟨⟨p, s'⟩, hmalloc, rfl⟩ := except_exists_of_map hrun
  obtain ⟨u, hu, henough⟩ := malloc_enough_iff exampleStart_reachable hmalloc (by decide)
  exact ⟨s', u, hmalloc, hu, henough.mpr (by decide)⟩

/-- A request for all but one of the `2 ^ 32` bytes gets one page. -/
theorem malloc_wraps : ∃ s', malloc exampleDescs exampleStart 0xffffffff (some 0xc0100) = .ok (0xc010000c, s') ∧
    blockSize exampleDescs s'.mem 0xc010000c = .ok 4084 := by
  have hrun : (malloc exampleDescs exampleStart 0xffffffff (some 0xc0100)).toOption.map
      (fun r => (r.1, (blockSize exampleDescs r.2.mem 0xc010000c).toOption.map id)) = some (0xc010000c, some 4084) := by
    decide +kernel
  obtain ⟨⟨p, s'⟩, hmalloc, hr⟩ := except_exists_of_map hrun
  obtain ⟨rfl, hsize⟩ := Prod.mk.inj hr
  obtain ⟨u, hu, rfl⟩ := except_exists_of_map hsize
  exact ⟨s', hmalloc, hu⟩

/-! ## `calloc` -/

/-- `calloc`. -/
def calloc (D : DescsAddr) (s : MallocState) (a b : UInt32) (page : Option ℕ) : MallocM (ℕ × MallocState) :=
  let size := a * b
  if size < a ∨ size < b then .ok (0, s)
  else do
    let (p, s) ← malloc D s size page
    return (p, if p ≠ 0 then { s with mem := setBytes s.mem p 0 size.toNat } else s)

/-- Blocks begin at words. -/
lemma start_aligned {x : Piece (Fin 7)} (hx : h.Has sizes x) (hblock : x.IsBlock) : x.start sizes % 4 = 0 := by
  cases x with
  | header p => exact hblock.elim
  | block p k i =>
    obtain ⟨c, hc⟩ := Nat.dvd_of_mod_eq_zero (blockSize_class k).2
    have hstart : Piece.start sizes (.block p k i) = p * 4096 + 12 + i * (desc k).blockSize := rfl
    rw [hstart, hc, Nat.mul_left_comm]
    omega
  | big p pages =>
    have hstart : Piece.start sizes (.big p pages : Piece (Fin 7)) = p * 4096 + 12 := rfl
    omega

/-- The pool can have the pages that `malloc` needs for the size. -/
def Satisfiable (size : ℕ) : Prop :=
  0 < pageCnt size ∧ 0xc0100 + pageCnt size < 2 ^ 20

/-- The first pages of the pool are a block if nothing is in use. -/
lemma malloc_satisfiable (mem : Words) {size : UInt32} (hsize : size ≠ 0) (hsat : Satisfiable size.toNat) :
    ∃ p s', malloc D (mallocStart D mem) size (some 0xc0100) = .ok (p, s') ∧ p ≠ 0 := by
  have hfresh : FreshPages (mallocStart D mem) 0xc0100 (pageCnt size.toNat) :=
    ⟨Nat.le_refl _, hsat.2, fun r hr => by cases hr⟩
  rcases malloc_spec (mallocStart_inv mem).toRep size (some 0xc0100) with
    ⟨-, p, hp, hstale⟩ | ⟨-, hzero | hpages | hnone⟩ | ⟨b, s', h', hr, ha, -⟩
  · cases hp
    exact absurd hfresh hstale
  · exact absurd hzero hsize
  · exact absurd hpages (Nat.pos_iff_ne_zero.mp hsat.1)
  · cases hnone
  · refine ⟨b, s', hr, ha.rep.ne_zero ?_⟩
    rw [ha.live]
    exact Set.mem_insert ..

/-- A block that `malloc` returns has pages of the pool. -/
lemma HasBlock.satisfiable (hwf : h.Wf sizes) (hpool : InPool h) {b size : ℕ}
    (hb : HasBlock h b (usableSize size)) : Satisfiable size := by
  have hpages := hb.pageCnt_ne_zero hwf hpool
  have hbounds := (hb.bounds hwf hpool).2
  refine ⟨Nat.pos_of_ne_zero hpages, ?_⟩
  unfold usableSize at hbounds
  cases hfind : findDesc size with
  | some k =>
    rw [pageCnt, hfind]
    show 0xc0100 + 1 < 2 ^ 20
    omega
  | none =>
    rw [hfind] at hbounds
    dsimp only at hbounds
    omega

/-- What `calloc` is to do for the numbers `a` and `b`, in every state: nothing is returned if the product does not fit, and
otherwise a block that is large enough, if `malloc` does not wrap around, and zero. -/
def CallocSafe (D : DescsAddr) (a b : UInt32) : Prop :=
  ∀ s, (mallocMachine D).Reachable s → ∀ page p s', calloc D s a b page = .ok (p, s') →
    (2 ^ 32 ≤ a.toNat * b.toNat → p = 0) ∧
      (p ≠ 0 → a.toNat * b.toNat < 2 ^ 32 - 11 →
        (∃ u, blockSize D s'.mem p = .ok u ∧ a.toNat * b.toNat ≤ u) ∧
          ∀ i < a.toNat * b.toNat, loadByte s'.mem (p + i) = 0)

/-- Within the block, `memset` changes its own words only. -/
lemma Rep.setBytes (hr : Rep D s h) {b n size : ℕ} (hb : HasBlock h b n) (hlive : b ∈ h.live) (hle : size ≤ n) (v : ℕ) :
    Rep D { s with mem := setBytes s.mem b v size } h := by
  obtain ⟨x, hx, hblock, rfl, hstop⟩ := hb
  have haligned := start_aligned hx hblock
  refine ⟨hr.inv, hr.pool, hr.arenas, hr.encodes.changeBlock hr.inv hr.pool hx hblock hlive fun y hy => ?_⟩
  exact storeBytes_of_ne fun i hi => by omega

end OsLabs.Threads
