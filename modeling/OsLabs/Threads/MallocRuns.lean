import OsLabs.Threads.MallocHeap

/-!
# The heap invariant

Every reachable state of the allocator represents a heap of size classes (`Rep`): its invariant holds, memory holds its
lists and headers, and `free_cnt` is the number of free blocks. Each call of `malloc` or `free` is one or two operations
of the heap.
-/

namespace OsLabs.Threads

open Lib LibKernel Function

variable {D : DescsAddr} {s : MallocState} {h : Heap (Fin 7)} {i : ℕ}

/-- The state represents a heap. -/
structure Rep (D : DescsAddr) (s : MallocState) (h : Heap (Fin 7)) : Prop where
  inv : h.Inv sizes
  pool : InPool h
  arenas : ∀ p n, (p, n) ∈ s.arenas ↔ ∃ A, h.arena p = some A ∧ A.pages = n
  encodes : Encodes D s.mem h (h.cntOf sizes)

/-! ## Loops -/

section Loops

variable {mem : Words} {cnt : ℕ → ℕ} {p : ℕ} {k : Fin 7}

lemma take_blocks_succ (hi : i < (desc k).blocksPerArena) :
    (Heap.blocks sizes p k).take (i + 1) =
      (Heap.blocks sizes p k).take i ++ [Piece.start sizes (.block p k i)] := by
  have hi : i < (Heap.blocks sizes p k).length := by
    simpa [Heap.blocks, sizes] using hi
  rw [List.take_succ_eq_append_getElem hi]
  simp [Heap.blocks]

/-- A loop over the blocks of an arena that changes the list of their class from `l i` to `l (i + 1)` in round `i`. -/
lemma blocksLoop_spec (hwf : h.Wf sizes) (hpool : InPool h) (hp : h.arena p = some (.small k))
    {f : Words → ℕ → Option Words} {l : ℕ → List ℕ} {all : List ℕ}
    (hall : ∀ b ∈ all, ∃ q j, h.Has sizes (.block q k j) ∧ Piece.start sizes (.block q k j) = b)
    (hsub : ∀ i, l i ⊆ all) (hnodup : ∀ i, (l i).Nodup)
    (hop : ∀ i < (desc k).blocksPerArena, ∀ m, IsList m (freeList D k) (l i) →
      ∃ m', f m (Piece.start sizes (.block p k i)) = some m' ∧ IsList m' (freeList D k) (l (i + 1)) ∧
        ∀ y, Outside (nodes (freeList D k) all) y → m' y = m y)
    (he : Encodes D mem (h.setFree k (l 0)) cnt) :
    ∃ mem', (List.range (desc k).blocksPerArena).foldlM (fun m i => do
        let b ← arenaToBlock D m (p * 4096) i
        listOp (f m b)) mem = Except.ok mem' ∧
      Encodes D mem' (h.setFree k (l (desc k).blocksPerArena)) cnt ∧
        ∀ y, Outside (nodes (freeList D k) all) y → mem' y = mem y := by
  refine foldlM_range (P := fun i m => Encodes D m (h.setFree k (l i)) cnt ∧
    ∀ y, Outside (nodes (freeList D k) all) y → m y = mem y) (fun i hi m hm => ?_) ⟨he, fun _ _ => rfl⟩
  obtain ⟨he, hsame⟩ := hm
  have hhas : h.Has sizes (.block p k i) := ⟨hp, hi⟩
  have hlist := he.lists k
  rw [show (h.setFree k (l i)).free k = l i from update_self ..] at hlist
  obtain ⟨m', hrun, hlist', hframe⟩ := hop i hi m hlist
  refine ⟨m', ?_, ?_, fun y hy => ?_⟩
  · rw [he.arenaToBlock hpool hhas, except_ok_bind, hrun]
    rfl
  · refine he.setList (hwf.setFree (hnodup i) fun b hb => hall b (hsub i hb)) hpool rfl ?_ hlist' hall hframe
    show update h.free k _ = update (update h.free k _) k _
    rw [update_idem]
  · rw [hframe y hy, hsame y hy]

lemma take_blocks_length : (Heap.blocks sizes p k).take (desc k).blocksPerArena = Heap.blocks sizes p k :=
  List.take_of_length_le (by simp [Heap.blocks, sizes])

/-- A block comes once. -/
lemma not_mem_take_blocks (hi : i < (desc k).blocksPerArena) :
    Piece.start sizes (.block p k i) ∉ (Heap.blocks sizes p k).take i := by
  have hnodup := (Heap.nodup_blocks (z := sizes) p k).sublist (List.take_sublist (i + 1) _)
  rw [take_blocks_succ hi, List.nodup_append] at hnodup
  exact fun hin => hnodup.2.2 _ hin _ (List.mem_singleton_self _) rfl

/-- All blocks of a new arena are put into the list. -/
lemma pushBlocks_spec (hwf : h.Wf sizes) (hpool : InPool h) (hp : h.arena p = some (.small k))
    (he : Encodes D mem (h.setFree k []) cnt) :
    ∃ mem', pushBlocks D mem k (p * 4096) = .ok mem' ∧ Encodes D mem' (h.setFree k (Heap.blocks sizes p k)) cnt ∧
      ∀ y, Outside (nodes (freeList D k) (Heap.blocks sizes p k)) y → mem' y = mem y := by
  have hall (b : ℕ) (hb : b ∈ Heap.blocks sizes p k) :
      ∃ q j, h.Has sizes (.block q k j) ∧ Piece.start sizes (.block q k j) = b := by
    obtain ⟨j, hj, rfl⟩ := Heap.mem_blocks.mp hb
    exact ⟨p, j, ⟨hp, hj⟩, rfl⟩
  have hloop := blocksLoop_spec hwf hpool hp (f := fun m b => listPushBack m (freeList D k) b)
    (l := (Heap.blocks sizes p k).take) hall (fun i => List.take_subset ..)
    (fun i => (Heap.nodup_blocks p k).sublist (List.take_sublist ..)) (fun i hi m hlist => ?_) he
  · rw [take_blocks_length] at hloop
    exact hloop
  · have hhas : h.Has sizes (.block p k i) := ⟨hp, hi⟩
    have hge := hpool.start_ge hwf hhas
    have hapart (y : ℕ) (hy : y ∈ nodes (freeList D k) ((Heap.blocks sizes p k).take i)) :
        Apart (Piece.start sizes (.block p k i)) y := by
      have hnode : IsNode D h k (Piece.start sizes (.block p k i)) := Or.inr ⟨p, i, hhas, rfl⟩
      refine hnode.apart hwf hpool (isNode_of_mem k (fun b hb => hall b (List.mem_of_mem_take hb)) hy) ?_
      rintro rfl
      have hbelow := D.below
      have hk := freeList_bounds D k
      rcases mem_nodes.mp hy with heq | hin | heq
      · omega
      · exact not_mem_take_blocks hi hin
      · omega
    obtain ⟨m', hpush, hlist', hframe⟩ := listPushBack_spec hlist (by omega) hapart
    rw [← take_blocks_succ hi] at hlist' hframe
    exact ⟨m', hpush, hlist', fun y hy => hframe y (hy.subset (nodes_subset (List.take_subset ..)))⟩

/-- All blocks of an arena are taken out of the list. -/
lemma removeBlocks_spec (hwf : h.Wf sizes) (hpool : InPool h) (hp : h.arena p = some (.small k))
    (hall : ∀ b ∈ Heap.blocks sizes p k, b ∈ h.free k) (he : Encodes D mem h cnt) :
    ∃ mem', removeBlocks D mem k (p * 4096) = .ok mem' ∧
      Encodes D mem' (h.setFree k ((h.free k).filter fun b => b ∉ Heap.blocks sizes p k)) cnt ∧
      ∀ y, Outside (nodes (freeList D k) (h.free k)) y → mem' y = mem y := by
  have hstart : h.setFree k ((h.free k).diff ((Heap.blocks sizes p k).take 0)) = h := by
    rw [List.take_zero, List.diff_nil, Heap.setFree, update_eq_self]
  have hloop := blocksLoop_spec hwf hpool hp (f := fun m b => LibKernel.listRemove m b)
    (l := fun i => (h.free k).diff ((Heap.blocks sizes p k).take i)) (hwf.free k) (fun i => List.diff_subset ..)
    (fun i => (hwf.nodup k).sublist (List.diff_sublist ..)) (fun i hi m hlist => ?_) (by rw [hstart]; exact he)
  · rw [take_blocks_length, (hwf.nodup k).sdiff_eq_filter] at hloop
    exact hloop
  · -- the block is still in the list
    have hin : Piece.start sizes (.block p k i) ∈ (h.free k).diff ((Heap.blocks sizes p k).take i) := by
      rw [(hwf.nodup k).mem_sdiff_iff]
      exact ⟨hall _ (Heap.mem_blocks.mpr ⟨i, hi, rfl⟩), not_mem_take_blocks hi⟩
    obtain ⟨m', hremove, hlist', hframe⟩ := listRemove_spec hlist hin
    rw [← List.diff_nil (List.erase _ _), ← List.diff_cons, ← List.diff_append, ← take_blocks_succ hi] at hlist'
    exact ⟨m', hremove, hlist', fun y hy => hframe y (hy.subset (nodes_subset (List.diff_subset ..)))⟩

end Loops

/-! ## Pages -/

section Pages

variable {h' : Heap (Fin 7)} {p : ℕ} {A : Arena (Fin 7)}

lemma Rep.fresh (hr : Rep D s h) {n : ℕ} (hfresh : FreshPages s p n) : h.Fresh p n := by
  intro q B hB
  exact hfresh.2.2 (q, B.pages) ((hr.arenas q B.pages).mpr ⟨B, hB, rfl⟩)

lemma InPool.insert (hpool : InPool h) (hlo : 0xc0100 ≤ p) (hhi : p + A.pages < 2 ^ 20)
    (harena : h'.arena = update h.arena p (some A)) : InPool h' := by
  intro q B hB
  rw [harena] at hB
  rcases Heap.update_eq_some hB with ⟨rfl, hnew⟩ | ⟨_, hold⟩
  · rw [← Option.some.inj hnew]
    exact ⟨hlo, hhi⟩
  · exact hpool q B hold

lemma InPool.erase (hpool : InPool h) (harena : h'.arena = update h.arena p none) : InPool h' := by
  intro q B hB
  rw [harena] at hB
  exact hpool q B (Heap.update_none_eq_some hB).2

/-- Pages that were got are those of an arena. -/
lemma Rep.arenas_insert (hr : Rep D s h) (hfresh : h.Fresh p A.pages) (hpos : 0 < A.pages) (q n : ℕ) :
    (q, n) ∈ (p, A.pages) :: s.arenas ↔ ∃ B, update h.arena p (some A) q = some B ∧ B.pages = n := by
  rw [List.mem_cons, hr.arenas]
  by_cases hq : q = p
  · subst hq
    have hnone : ¬∃ B, h.arena q = some B ∧ B.pages = n := by
      rintro ⟨B, hB, -⟩
      have := hr.inv.pages_pos q B hB
      have := hfresh q B hB
      omega
    rw [update_self, or_iff_left hnone, Prod.mk.injEq, and_iff_right rfl]
    constructor
    · rintro rfl
      exact ⟨A, rfl, rfl⟩
    · rintro ⟨B, hB, rfl⟩
      rw [Option.some.inj hB]
  · rw [update_of_ne hq]
    refine or_iff_right fun heq => hq ?_
    exact (Prod.mk.inj heq).1

/-- Pages that were given back are no arena. -/
lemma Rep.arenas_erase (hr : Rep D s h) (hp : h.arena p = some A) (q n : ℕ) :
    (q, n) ∈ s.arenas.filter (fun r => r ≠ (p, A.pages)) ↔
      ∃ B, update h.arena p none q = some B ∧ B.pages = n := by
  rw [List.mem_filter, hr.arenas, decide_eq_true_iff]
  by_cases hq : q = p
  · subst hq
    rw [update_self]
    refine iff_of_false ?_ fun hex => by obtain ⟨B, hB, -⟩ := hex; cases hB
    rintro ⟨⟨B, hB, rfl⟩, hne⟩
    rw [hp] at hB
    exact hne (by rw [Option.some.inj hB])
  · rw [update_of_ne hq]
    exact and_iff_left fun heq => hq (Prod.mk.inj heq).1

end Pages

/-! ## Allocation -/

/-- The blocks that stay live keep their place and their contents. -/
def Kept (h h' : Heap (Fin 7)) (mem mem' : Words) : Prop :=
  ∀ x, h.Has sizes x → x.IsBlock → x.start sizes ∈ h.live → x.start sizes ∈ h'.live →
    h'.Has sizes x ∧ ∀ y, x.start sizes ≤ y → y < x.stop sizes → mem' y = mem y

variable {mem : Words} {x : Piece (Fin 7)} {y p b n : ℕ} {k : Fin 7} {page : Option ℕ} {s' : MallocState}
  {h' : Heap (Fin 7)}

lemma Kept.trans {h₁ h₂ : Heap (Fin 7)} {mem₁ mem₂ : Words} (hk : Kept h h₁ mem mem₁)
    (hk' : Kept h₁ h₂ mem₁ mem₂) (hlive : h.live ∩ h₂.live ⊆ h₁.live) : Kept h h₂ mem mem₂ := by
  intro x hx hblock hold hnew
  have hmid := hlive ⟨hold, hnew⟩
  obtain ⟨hx', hsame⟩ := hk x hx hblock hold hmid
  obtain ⟨hx'', hsame'⟩ := hk' x hx' hblock hmid hnew
  refine ⟨hx'', fun y hlo hhi => ?_⟩
  rw [hsame' y hlo hhi, hsame y hlo hhi]

/-- The words of a live block are no words of the nodes of a free list. -/
lemma outside_of_live (hinv : h.Inv sizes) (hpool : InPool h) (k : Fin 7) (hx : h.Has sizes x)
    (hblock : x.IsBlock) (hlive : x.start sizes ∈ h.live) (hlo : x.start sizes ≤ y) (hhi : y < x.stop sizes) :
    Outside (nodes (freeList D k) (h.free k)) y := by
  intro z hz
  have := node_apart_live hinv hpool hx hblock hlive hz
  omega

/-- The words of a block are no words of a header. -/
lemma ne_header_of_block (hwf : h.Wf sizes) (hx : h.Has sizes x) (hblock : x.IsBlock) {A : Arena (Fin 7)}
    (hp : h.arena p = some A) (hlo : x.start sizes ≤ y) (hhi : y < x.stop sizes) (hi : i < 12) :
    y ≠ p * 4096 + i := by
  have hdisj := apart_header hwf hx hblock hp
  omega

section Rep

variable (hr : Rep D s h)
include hr

/-- The first block of a free list is taken. -/
lemma takeBlock_spec {rest : List ℕ} (hfree : h.free k = b :: rest) :
    ∃ mem, takeBlock D s k = .ok (b, { s with mem }) ∧ Rep D { s with mem } (h.take k b rest) ∧
      Kept h (h.take k b rest) s.mem mem := by
  have hinv := hr.inv.take hfree
  obtain ⟨p, i, hhas, hstart⟩ := hr.inv.free k b (by rw [hfree]; exact List.mem_cons_self ..)
  have hlist := hr.encodes.lists k
  rw [hfree] at hlist
  obtain ⟨mem, hpop, hlist', hframe⟩ := listPopFront_spec hlist
  have he : Encodes D mem (h.take k b rest) (h.cntOf sizes) :=
    hr.encodes.setList hr.inv.toWf hr.pool rfl rfl hlist' (fun c hc => hr.inv.free k c (by rw [hfree]; exact hc)) hframe
  have hdiv : b / 4096 = p := by
    rw [← hstart]
    exact (block_offset hhas).1
  -- the heap before is the one after with the block in the list again
  have hcnt (q : ℕ) : h.cntOf sizes q =
      update ((h.take k b rest).cntOf sizes) p ((h.take k b rest).cntOf sizes p + 1) q := by
    have harena : h.arena = (h.take k b rest).arena := rfl
    refine Heap.cntOf_cons harena ?_ hdiv hhas.1 q
    show h.free = update (update h.free k rest) k (b :: update h.free k rest k)
    rw [update_self, update_idem, ← hfree, update_eq_self]
  have hself : h.cntOf sizes p = (h.take k b rest).cntOf sizes p + 1 := by
    rw [hcnt, update_self]
  have hlt : h.cntOf sizes p < 2 ^ 32 := by
    have hle : h.freeCnt sizes p k ≤ (desc k).blocksPerArena := hr.inv.freeCnt_le p k
    have := blocksPerArena_bounds k
    rw [Heap.cntOf_small hhas.1]
    omega
  have hword : sub32 (mem (p * 4096 + 8)) 1 = (h.take k b rest).cntOf sizes p := by
    rw [(he.header p _ hhas.1).2.2, sub32_eq (by omega) hlt, hself, Nat.add_sub_cancel]
  have harena : blockToArena D mem b = .ok (p * 4096) := by
    rw [← hstart]
    exact he.blockToArena_block hr.pool hhas
  refine ⟨update mem (p * 4096 + 8) ((h.take k b rest).cntOf sizes p), ?_, ⟨hinv, hr.pool, hr.arenas, ?_⟩,
    fun x hx hblock hlive _ => ⟨hx, fun y hlo hhi => ?_⟩⟩
  · rw [takeBlock, hpop, listOp, except_ok_bind]
    dsimp only
    rw [harena, except_ok_bind, hword]
    rfl
  · refine he.setCnt hinv.toWf hr.pool hhas.1 fun q hq => ?_
    rw [hcnt, update_of_ne hq]
  · rw [update_of_ne (ne_header_of_block hr.inv.toWf hx hblock hhas.1 hlo hhi (by omega))]
    refine hframe y ?_
    rw [← hfree]
    exact outside_of_live hr.inv hr.pool k hx hblock hlive hlo hhi

/-- The header of an arena in fresh pages is not written into a block. -/
lemma Rep.writeHeader_eq (hx : h.Has sizes x) (hfresh : h.Fresh p n) (hn : 0 < n)
    (hlo : x.start sizes ≤ y) (hhi : y < x.stop sizes) (d c : ℕ) :
    writeHeader s.mem (p * 4096) d c y = s.mem y := by
  have hdisj : x.stop sizes ≤ p * 4096 ∨ (p + n) * 4096 ≤ x.start sizes := hr.inv.fresh_disjoint hfresh hx
  unfold writeHeader
  rw [update_of_ne (by omega), update_of_ne (by omega), update_of_ne (by omega)]

/-- A new arena for a class without free blocks. -/
lemma refill_spec (hfree : h.free k = []) (hfresh : FreshPages s p 1) :
    ∃ mem, refill D s k (some p) = .ok (some { s with mem, arenas := (p, 1) :: s.arenas }) ∧
      Rep D { s with mem, arenas := (p, 1) :: s.arenas } (h.addSmall sizes p k) ∧
      Kept h (h.addSmall sizes p k) s.mem mem := by
  have hpages := hr.fresh hfresh
  have hinv := hr.inv.addSmall hpages hfree
  have hpool : InPool (h.addSmall sizes p k) := hr.pool.insert (A := .small k) hfresh.1 hfresh.2.1 rfl
  have hempty : listEmpty s.mem (freeList D k) := (hr.encodes.lists k).empty_iff.mpr hfree
  have hlists : ((h.addSmall sizes p k).setFree k []).free = h.free := by
    show update (update h.free k _) k [] = h.free
    rw [update_idem, ← hfree, update_eq_self]
  have he := hr.encodes.addArena (g := (h.addSmall sizes p k).setFree k []) hr.inv.toWf (A := .small k) hpages
    Nat.one_pos hfresh.1 rfl hlists (desc k).blocksPerArena
  obtain ⟨mem, hpush, he', hframe⟩ := pushBlocks_spec hinv.toWf hpool (update_self ..) he
  have hget : pallocGetMultiple s 1 (some p) = .ok (some (p, { s with arenas := (p, 1) :: s.arenas })) := by
    exact if_pos hfresh
  have hsame : (h.addSmall sizes p k).setFree k (Heap.blocks sizes p k) = h.addSmall sizes p k := by
    unfold Heap.setFree Heap.addSmall
    rw [update_idem]
  rw [hsame] at he'
  refine ⟨mem, ?_, ⟨hinv, hpool, hr.arenas_insert (A := .small k) hpages Nat.one_pos, ?_⟩,
    fun x hx hblock hlive _ => ?_⟩
  · rw [refill, if_pos hempty, hget, except_ok_bind]
    dsimp only
    rw [show writeHeader s.mem (p * 4096) (descAddr D k) (desc k).blocksPerArena =
      writeHeader s.mem (p * 4096) (descWord D (.small k)) (desc k).blocksPerArena from rfl, hpush]
    rfl
  · exact he'.congr_cnt fun q _ _ => Heap.cntOf_addSmall hfree q
  · have hx' : (h.addSmall sizes p k).Has sizes x :=
      (Heap.has_of_update_some (A := .small k) rfl hpages Nat.one_pos hr.inv.toWf hx).2
    refine ⟨hx', fun y hlo hhi => ?_⟩
    have hout := outside_of_live (D := D) hinv hpool k hx' hblock hlive hlo hhi
    rw [show (h.addSmall sizes p k).free k = Heap.blocks sizes p k from update_self ..] at hout
    rw [hframe y hout, hr.writeHeader_eq hx hpages Nat.one_pos hlo hhi]

/-- The number of pages that `malloc` asks for, if it asks. -/
def pageCnt (size : ℕ) : ℕ :=
  match findDesc size with
  | none => (size + 12 + 4095) % 2 ^ 32 / 4096
  | some _ => 1

/-- The bytes of the block that `malloc` returns, if it returns one. -/
def usableSize (size : ℕ) : ℕ :=
  match findDesc size with
  | none => 4096 * pageCnt size - 12
  | some k => (desc k).blockSize

/-- A block with `n` bytes. -/
def HasBlock (h : Heap (Fin 7)) (b n : ℕ) : Prop :=
  ∃ x, h.Has sizes x ∧ x.IsBlock ∧ x.start sizes = b ∧ x.stop sizes = b + n

/-- What a successful `malloc` does: a block that was not live is, and at most one arena is new. -/
structure Allocates (D : DescsAddr) (s : MallocState) (h : Heap (Fin 7)) (n : ℕ) (page : Option ℕ) (b : ℕ)
    (s' : MallocState) (h' : Heap (Fin 7)) : Prop where
  rep : Rep D s' h'
  new : b ∉ h.live
  live : h'.live = insert b h.live
  arenas : s'.arenas = s.arenas ∨ ∃ p, page = some p ∧ s'.arenas = (p, n) :: s.arenas
  same : s'.live = s.live
  used : h.Used sizes → h'.Used sizes

/-- A free block is not live. -/
lemma Rep.free_not_live (hb : b ∈ h.free k) : b ∉ h.live := by
  obtain ⟨p, i, hhas, rfl⟩ := hr.inv.free k b hb
  exact fun hlive => (hr.inv.split p k i hhas).mp hlive hb

/-- A block is not NULL. -/
lemma Rep.ne_zero (hb : b ∈ h.live) : b ≠ 0 := by
  obtain ⟨x, hx, _, rfl⟩ := hr.inv.live b hb
  have := hr.pool.start_ge hr.inv.toWf hx
  omega

omit hr in
lemma Allocates.subset (ha : Allocates D s h n page b s' h') : s.arenas ⊆ s'.arenas := by
  rcases ha.arenas with hsame | ⟨p, -, hcons⟩
  · rw [hsame]
    exact List.Subset.refl _
  · rw [hcons]
    exact List.subset_cons_self ..

lemma mallocBig_spec {size : ℕ} (hcnt : (size + 12 + 4095) % 2 ^ 32 / 4096 = n) :
    (mallocBig s size page = .error .disabled ∧ ∃ p, page = some p ∧ ¬FreshPages s p n) ∨
      mallocBig s size page = .ok (0, s) ∧ (n = 0 ∨ page = none) ∨
      ∃ b s' h', mallocBig s size page = .ok (b, s') ∧ Allocates D s h n page b s' h' ∧
        HasBlock h' b (4096 * n - 12) ∧ Kept h h' s.mem s'.mem := by
  unfold mallocBig pallocGetMultiple
  dsimp only
  rw [hcnt]
  by_cases hn : n = 0
  · rw [if_pos hn]
    exact Or.inr (Or.inl ⟨rfl, Or.inl hn⟩)
  · rw [if_neg hn]
    cases page with
    | none => exact Or.inr (Or.inl ⟨rfl, Or.inr rfl⟩)
    | some p =>
      by_cases hfresh : FreshPages s p n
      · dsimp only
        rw [if_pos hfresh]
        have hpages := hr.fresh hfresh
        have hpos : 0 < n := Nat.pos_of_ne_zero hn
        have hpool : InPool (h.addBig sizes p n) := hr.pool.insert (A := .big n) hfresh.1 hfresh.2.1 rfl
        have he := hr.encodes.addArena (g := h.addBig sizes p n) hr.inv.toWf (A := .big n) hpages hpos hfresh.1 rfl
          rfl n
        refine Or.inr (Or.inr ⟨_, _, h.addBig sizes p n, rfl, ⟨⟨hr.inv.addBig hpages hpos, hpool,
          hr.arenas_insert (A := .big n) hpages hpos, he.congr_cnt fun q _ _ => Heap.cntOf_addBig p n q⟩, ?_, rfl,
          Or.inr ⟨p, rfl, rfl⟩, rfl, fun hused => ?_⟩, ?_, fun x hx hblock _ _ => ?_⟩)
        · -- a live block is no part of fresh pages
          intro hlive
          obtain ⟨x, hx, hblock, heq⟩ := hr.inv.live _ hlive
          obtain ⟨B, hB, -⟩ := hr.inv.inside hx
          have hdiv := Heap.start_div hx hblock
          rw [heq] at hdiv
          have hdiv : (p * 4096 + 12) / 4096 = x.page := hdiv
          have := hr.inv.pages_pos _ B hB
          have := hpages _ B hB
          omega
        · refine hused.insert rfl fun q B hB => ?_
          rcases Heap.update_eq_some hB with ⟨rfl, -⟩ | ⟨-, hold⟩
          · refine Or.inr ?_
            show (q * 4096 + 12) / 4096 = q
            omega
          · exact Or.inl hold
        · have hbig : (h.addBig sizes p n).Has sizes (.big p n) := update_self ..
          refine ⟨_, hbig, trivial, rfl, ?_⟩
          show (p + n) * 4096 = p * 4096 + 12 + (4096 * n - 12)
          omega
        · refine ⟨(Heap.has_of_update_some (A := .big n) rfl hpages hpos hr.inv.toWf hx).2, fun y hlo hhi => ?_⟩
          exact hr.writeHeader_eq hx hpages hpos hlo hhi 0 n
      · dsimp only
        rw [if_neg hfresh]
        exact Or.inl ⟨rfl, p, rfl, hfresh⟩

/-- `malloc` fails, or returns a new block. It fails only without pages, and only a page that is not there is no possible
answer to it. -/
lemma malloc_spec (size : UInt32) (page : Option ℕ) :
    (malloc D s size page = .error .disabled ∧ ∃ p, page = some p ∧ ¬FreshPages s p (pageCnt size.toNat)) ∨
      malloc D s size page = .ok (0, s) ∧ (size = 0 ∨ pageCnt size.toNat = 0 ∨ page = none) ∨
      ∃ b s' h', malloc D s size page = .ok (b, s') ∧ Allocates D s h (pageCnt size.toNat) page b s' h' ∧
        HasBlock h' b (usableSize size.toNat) ∧ Kept h h' s.mem s'.mem := by
  unfold malloc usableSize pageCnt
  by_cases hsize : size = 0
  · rw [if_pos hsize]
    exact Or.inr (Or.inl ⟨rfl, Or.inl hsize⟩)
  · rw [if_neg hsize]
    cases findDesc size.toNat with
    | none => exact (mallocBig_spec hr rfl).imp_right (Or.imp_left (And.imp_right Or.inr))
    | some k =>
      dsimp only
      cases hfree : h.free k with
      | cons b rest =>
        -- the list has a block
        have hempty : ¬listEmpty s.mem (freeList D k) := by
          rw [(hr.encodes.lists k).empty_iff, hfree]
          exact List.cons_ne_nil b rest
        obtain ⟨mem, htake, hr', hkept⟩ := takeBlock_spec hr hfree
        have hmem : b ∈ h.free k := by
          rw [hfree]
          exact List.mem_cons_self ..
        obtain ⟨p, i, hhas, hstart⟩ := hr.inv.free k b hmem
        rw [refill, if_neg hempty]
        refine Or.inr (Or.inr ⟨b, _, _, htake, ⟨hr', ?_, rfl, Or.inl rfl, rfl, ?_⟩,
          ⟨.block p k i, hhas, trivial, hstart, by rw [block_stop, hstart]⟩, hkept⟩)
        · exact hr.free_not_live hmem
        · exact fun hused => hused.insert rfl fun q B hB => Or.inl hB
      | nil =>
        have hempty : listEmpty s.mem (freeList D k) := (hr.encodes.lists k).empty_iff.mpr hfree
        cases page with
        | none =>
          rw [refill, if_pos hempty]
          exact Or.inr (Or.inl ⟨rfl, Or.inr (Or.inr rfl)⟩)
        | some p =>
          by_cases hfresh : FreshPages s p 1
          · obtain ⟨mem, hrefill, hr', hkept⟩ := refill_spec hr hfree hfresh
            -- the first block of the new arena
            obtain ⟨b, rest, hblocks⟩ : ∃ b rest, Heap.blocks sizes p k = b :: rest := by
              apply List.exists_cons_of_ne_nil
              have := (blocksPerArena_bounds k).1
              simp [Heap.blocks, sizes]
              omega
            have hfree' : (h.addSmall sizes p k).free k = b :: rest := (update_self ..).trans hblocks
            have hmem : b ∈ Heap.blocks sizes p k := by
              rw [hblocks]
              exact List.mem_cons_self ..
            obtain ⟨mem', htake, hr'', hkept'⟩ := takeBlock_spec hr' hfree'
            obtain ⟨i, hi, hstart⟩ := Heap.mem_blocks.mp hmem
            have hhas : (h.addSmall sizes p k).Has sizes (.block p k i) := ⟨update_self .., hi⟩
            rw [hrefill]
            refine Or.inr (Or.inr ⟨b, _, _, htake, ⟨hr'', ?_, rfl, Or.inr ⟨p, rfl, rfl⟩, rfl, fun hused => ?_⟩,
              ⟨.block p k i, hhas, trivial, hstart, by rw [block_stop, hstart]⟩, hkept.trans hkept' Set.inter_subset_left⟩)
            · exact hr'.free_not_live (by rw [hfree']; exact List.mem_cons_self ..)
            · refine hused.insert rfl fun q B hB => ?_
              rcases Heap.update_eq_some hB with ⟨rfl, -⟩ | ⟨-, hold⟩
              · exact Or.inr (Heap.div_page_of_mem_blocks hmem)
              · exact Or.inl hold
          · refine Or.inl ⟨?_, p, rfl, hfresh⟩
            have hget : pallocGetMultiple s 1 (some p) = .error .disabled := by
              exact if_neg hfresh
            rw [refill, if_pos hempty, hget]
            rfl

/-! ## Release -/

/-- What `free` does: the block is no longer live, and no arena is new. -/
structure Releases (D : DescsAddr) (s : MallocState) (h : Heap (Fin 7)) (b : ℕ) (s' : MallocState)
    (h' : Heap (Fin 7)) : Prop where
  rep : Rep D s' h'
  live : h'.live = h.live \ {b}
  arenas : s'.arenas ⊆ s.arenas
  same : s'.live = s.live
  used : h.Used sizes → h'.Used sizes

omit hr in
lemma pallocFreeMultiple_eq (hp : 0 < p) (hn : 0 < n) (hmem : (p, n) ∈ s.arenas) :
    pallocFreeMultiple s (p * 4096) n = .ok { s with
      mem := fill s.mem (p * 4096) (4096 * n)
      arenas := s.arenas.filter fun r => r ≠ (p, n) } := by
  have hdiv : p * 4096 / 4096 = p := by omega
  unfold pallocFreeMultiple
  rw [if_neg (by omega), if_neg (by omega), hdiv, if_neg (not_not.mpr hmem)]

omit hr in
/-- The blocks of the other arenas keep their contents if nothing but the pages of one arena changes. -/
lemma kept_of_drop {mem' : Words} (hwf : h.Wf sizes) {A : Arena (Fin 7)} (hp : h.arena p = some A)
    (harena : h'.arena = update h.arena p none) (hinv : h'.Inv sizes)
    (hframe : ∀ y, y < p * 4096 ∨ (p + A.pages) * 4096 ≤ y → mem' y = mem y) : Kept h h' mem mem' := by
  intro x hx hblock _ hlive
  -- a block that is live afterwards is one of another arena
  have hx' : h'.Has sizes x := by
    obtain ⟨z, hz, hzblock, heq⟩ := hinv.live _ hlive
    rwa [← hwf.start_inj ((Heap.has_update_none harena).mp hz).2 hx heq]
  obtain ⟨B, hB, hlo, -, hhi⟩ := hwf.inside hx
  have hne := ((Heap.has_update_none harena).mp hx').1
  have hapart := hwf.apart x.page B hB p A hp hne
  have hlo : x.page * 4096 ≤ x.start sizes := hlo
  have hhi : x.stop sizes ≤ (x.page + B.pages) * 4096 := hhi
  exact ⟨hx', fun y hylo hyhi => hframe y (by omega)⟩

/-- The pages of a big block are given back. -/
lemma freeBig_spec {pages : ℕ} (hp : h.arena p = some (.big pages)) :
    ∃ s' h', pallocFreeMultiple s (p * 4096) pages = .ok s' ∧ Releases D s h (p * 4096 + 12) s' h' ∧
      Kept h h' s.mem s'.mem := by
  have hge := (hr.pool p _ hp).1
  have hpos : 0 < pages := hr.inv.pages_pos p _ hp
  have hpages := pallocFreeMultiple_eq (by omega) hpos ((hr.arenas p pages).mpr ⟨_, hp, rfl⟩)
  have hnone (k : Fin 7) (b : ℕ) (hb : b ∈ h.free k) : b / 4096 < p ∨ p + pages ≤ b / 4096 := by
    obtain ⟨q, i, hhas, rfl⟩ := hr.inv.free k b hb
    rw [(block_offset hhas).1]
    have hne : q ≠ p := by
      rintro rfl
      cases hp.symm.trans hhas.1
    have hapart : q + 1 ≤ p ∨ p + pages ≤ q := hr.inv.apart q _ hhas.1 p _ hp hne
    omega
  refine ⟨_, h.dropBig sizes p pages, hpages, ⟨⟨hr.inv.dropBig hp, hr.pool.erase rfl, hr.arenas_erase hp, ?_⟩, rfl,
    List.filter_subset_self .., rfl, fun hused => hused.erase rfl fun q A hA => ?_⟩, ?_⟩
  · exact hr.encodes.dropArena (g := h.dropBig sizes p pages) hr.inv.toWf hp hr.pool hnone rfl rfl fun q hq => Heap.cntOf_dropBig hq
  · obtain ⟨hq, hA⟩ := Heap.update_none_eq_some hA
    refine ⟨hA, fun heq => absurd ?_ hq⟩
    have heq : (p * 4096 + 12) / 4096 = q := heq
    omega
  · refine kept_of_drop hr.inv.toWf hp rfl (hr.inv.dropBig hp) fun y hy => ?_
    have hy : y < p * 4096 ∨ (p + pages) * 4096 ≤ y := hy
    exact if_neg (by omega)

/-- A block of a class is put back; an arena without live blocks is given back. -/
lemma freeSmall_spec (hhas : h.Has sizes (.block p k i))
    (hlive : Piece.start sizes (.block p k i) ∈ h.live) :
    ∃ s' h', freeSmall D s k (p * 4096) (Piece.start sizes (.block p k i)) = .ok s' ∧
      Releases D s h (Piece.start sizes (.block p k i)) s' h' ∧ Kept h h' s.mem s'.mem := by
  have hinv := hr.inv.give hhas hlive
  have hge := hr.pool.start_ge hr.inv.toWf hhas
  have hnode : IsNode D h k (Piece.start sizes (.block p k i)) := Or.inr ⟨p, i, hhas, rfl⟩
  have hdiv := (block_offset hhas).1
  have hstop := block_stop p k i
  generalize hb : Piece.start sizes (.block p k i) = b at *
  have hbelow := D.below
  have hk := freeList_bounds D k
  have hnot : b ∉ h.free k := by
    rw [← hb]
    exact (hr.inv.split p k i hhas).mp (hb ▸ hlive)
  -- `memset`
  have he : Encodes D (fill s.mem b (desc k).blockSize) h (h.cntOf sizes) := by
    refine hr.encodes.changeBlock hr.inv hr.pool hhas trivial (hb ▸ hlive) fun y hy => ?_
    unfold fill
    rw [if_neg (by omega)]
  -- `list_push_front`
  have hapart (y : ℕ) (hy : y ∈ nodes (freeList D k) (h.free k)) : Apart b y := by
    refine hnode.apart hr.inv.toWf hr.pool (isNode_of_mem k (hr.inv.free k) hy) ?_
    rintro rfl
    rcases mem_nodes.mp hy with heq | hin | heq
    · omega
    · exact hnot hin
    · omega
  obtain ⟨mem, hpush, hlist, hframe⟩ := listPushFront_spec (he.lists k) (by omega) hapart
  have hwf := hinv.toWf
  have hblocks (c : ℕ) (hc : c ∈ b :: h.free k) :
      ∃ q j, h.Has sizes (.block q k j) ∧ Piece.start sizes (.block q k j) = c := by
    rcases List.mem_cons.mp hc with rfl | hc
    · exact ⟨p, i, hhas, hb⟩
    · exact hr.inv.free k c hc
  have he : Encodes D mem (h.give k b) (h.cntOf sizes) :=
    he.setList hr.inv.toWf hr.pool rfl rfl hlist hblocks hframe
  -- `++a->free_cnt`
  have harena : (h.give k b).arena = h.arena := rfl
  have hcnt (q : ℕ) : (h.give k b).cntOf sizes q = update (h.cntOf sizes) p (h.cntOf sizes p + 1) q :=
    Heap.cntOf_cons harena rfl hdiv hhas.1 q
  have hself : (h.give k b).cntOf sizes p = h.cntOf sizes p + 1 := by
    rw [hcnt, update_self]
  have hfreeCnt : (h.give k b).cntOf sizes p = (h.give k b).freeCnt sizes p k := Heap.cntOf_small hhas.1
  have hle : (h.give k b).freeCnt sizes p k ≤ (desc k).blocksPerArena := hwf.freeCnt_le p k
  have hbounds := blocksPerArena_bounds k
  have hword : (mem (p * 4096 + 8) + 1) % 2 ^ 32 = (h.give k b).cntOf sizes p := by
    rw [(he.header p _ hhas.1).2.2]
    omega
  have he : Encodes D (update mem (p * 4096 + 8) ((h.give k b).cntOf sizes p)) (h.give k b)
      ((h.give k b).cntOf sizes) := by
    refine he.setCnt hwf hr.pool hhas.1 fun q hq => ?_
    rw [hcnt, update_of_ne hq]
  have hkept : Kept h (h.give k b) s.mem (update mem (p * 4096 + 8) ((h.give k b).cntOf sizes p)) := by
    intro x hx hblock _ hlive'
    refine ⟨hx, fun y hlo hhi => ?_⟩
    have hne : x.start sizes ≠ b := fun heq => hlive'.2 heq
    have hdisj := hr.inv.disjoint hx hhas fun heq => hne (by rw [heq, hb])
    have hout := outside_of_live (D := D) hinv hr.pool k (show (h.give k b).Has sizes x from hx) hblock hlive' hlo hhi
    rw [show (h.give k b).free k = b :: h.free k from update_self ..] at hout
    rw [update_of_ne (ne_header_of_block hr.inv.toWf hx hblock hhas.1 hlo hhi (by omega)), hframe y hout]
    exact if_neg (by omega)
  rw [freeSmall, hpush, listOp, except_ok_bind, hword]
  by_cases hfull : (desc k).blocksPerArena ≤ (h.give k b).cntOf sizes p
  · -- the arena has no live block
    have hall := (hwf.freeCnt_eq_iff p k).mp (by show _ = (desc k).blocksPerArena; omega)
    obtain ⟨mem', hremove, he', hframe'⟩ := removeBlocks_spec hwf hr.pool hhas.1 hall he
    have hpages := pallocFreeMultiple_eq (s := { s with mem := mem' }) (by omega) Nat.one_pos
      ((hr.arenas p 1).mpr ⟨_, hhas.1, rfl⟩)
    have hdrop := hinv.dropSmall hhas.1 hall
    rw [if_pos hfull, if_neg (by omega), hremove, except_ok_bind, hpages]
    have hwf' : ((h.give k b).setFree k
        (((h.give k b).free k).filter fun c => c ∉ Heap.blocks sizes p k)).Wf sizes :=
      hwf.setFree ((hwf.nodup k).filter _) fun c hc => hwf.free k c (List.mem_of_mem_filter hc)
    have hnone (j : Fin 7) (c : ℕ) (hc : c ∈ ((h.give k b).setFree k
        (((h.give k b).free k).filter fun c => c ∉ Heap.blocks sizes p k)).free j) : c / 4096 < p ∨ p + 1 ≤ c / 4096 := by
      obtain ⟨q, n, hhas', rfl⟩ := hdrop.free j c hc
      have hq := ((Heap.has_update_none rfl).mp hhas').1
      rw [(block_offset hhas').1]
      have hq : q ≠ p := hq
      omega
    refine ⟨_, (h.give k b).dropSmall sizes p k, rfl, ⟨⟨hdrop, InPool.erase hr.pool rfl, hr.arenas_erase hhas.1, ?_⟩, rfl,
      List.filter_subset_self .., rfl, fun hused => hused.erase rfl fun q A hA => ?_⟩, ?_⟩
    · exact he'.dropArena (g := (h.give k b).dropSmall sizes p k) hwf' hhas.1 hr.pool hnone rfl rfl fun q hq => Heap.cntOf_dropSmall hq
    · obtain ⟨hq, hA⟩ := Heap.update_none_eq_some hA
      exact ⟨hA, fun heq => absurd (heq.symm.trans hdiv) hq⟩
    · have hkept' : Kept (h.give k b) (h.give k b) (update mem (p * 4096 + 8) ((h.give k b).cntOf sizes p)) mem' :=
        fun x hx hblock hlive' _ => ⟨hx, fun y hlo hhi =>
          hframe' y (outside_of_live hinv hr.pool k hx hblock hlive' hlo hhi)⟩
      have hpage : Kept (h.give k b) ((h.give k b).dropSmall sizes p k) mem' (fill mem' (p * 4096) (4096 * 1)) := by
        refine kept_of_drop hwf hhas.1 rfl hdrop fun y hy => ?_
        have hy : y < p * 4096 ∨ (p + 1) * 4096 ≤ y := hy
        exact if_neg (by omega)
      exact (hkept.trans hkept' Set.inter_subset_right).trans hpage Set.inter_subset_right
  · -- another block of the arena is live
    rw [if_neg hfull]
    refine ⟨_, h.give k b, rfl, ⟨⟨hinv, hr.pool, hr.arenas, he⟩, rfl, List.Subset.refl _, rfl, fun hused => ?_⟩, hkept⟩
    refine hused.erase rfl fun q A hA => ⟨hA, fun hq => ?_⟩
    obtain rfl : p = q := hdiv.symm.trans hq
    have hsome : ¬∀ c ∈ Heap.blocks sizes p k, c ∈ (h.give k b).free k := by
      intro hall
      have heq : (h.give k b).freeCnt sizes p k = (desc k).blocksPerArena := (hwf.freeCnt_eq_iff p k).mpr hall
      omega
    push Not at hsome
    obtain ⟨c, hc, hcnot⟩ := hsome
    obtain ⟨j, hj, rfl⟩ := Heap.mem_blocks.mp hc
    exact ⟨_, (hinv.split p k j ⟨hhas.1, hj⟩).mpr hcnot, Heap.div_page_of_mem_blocks hc⟩

lemma free_spec (hb : b ∈ h.live) :
    ∃ s' h', free D s b = .ok s' ∧ Releases D s h b s' h' ∧ Kept h h' s.mem s'.mem := by
  have hne := hr.ne_zero hb
  obtain ⟨x, hx, hblock, rfl⟩ := hr.inv.live b hb
  rw [free, if_neg hne]
  cases x with
  | header p => exact hblock.elim
  | block p k i =>
    rw [hr.encodes.blockToArena_block hr.pool hx, except_ok_bind, hr.encodes.arenaDesc_small hx.1]
    exact freeSmall_spec hr hx hb
  | big p pages =>
    have hcnt : s.mem (p * 4096 + 8) = pages := by
      rw [(hr.encodes.header p _ hx).2.2]
      exact Heap.cntOf_big hx
    have haddr : Piece.start sizes (.big p pages) = p * 4096 + 12 := rfl
    rw [haddr]
    rw [hr.encodes.blockToArena_big hr.pool hx, except_ok_bind, hr.encodes.arenaDesc_big hx]
    rw [hcnt]
    exact freeBig_spec hr hx

/-! ## Runs -/

/-- What every reachable state satisfies: it represents a heap with the live blocks, and every arena has one. -/
structure HeapInv (D : DescsAddr) (s : MallocState) (h : Heap (Fin 7)) : Prop extends Rep D s h where
  used : h.Used sizes
  nodup : s.live.Nodup
  live : ∀ b, b ∈ s.live ↔ b ∈ h.live

omit hr in
/-- The block that `malloc` returns is added to the live ones. -/
lemma Allocates.inv (ha : Allocates D s h n page b s' h') (hi : HeapInv D s h) :
    HeapInv D { s' with live := b :: s'.live } h' := by
  refine ⟨⟨ha.rep.inv, ha.rep.pool, ha.rep.arenas, ha.rep.encodes⟩, ha.used hi.used, ?_, ?_⟩
  · refine List.nodup_cons.mpr ⟨?_, by rw [ha.same]; exact hi.nodup⟩
    rw [ha.same, hi.live]
    exact ha.new
  · intro c
    rw [List.mem_cons, ha.same, hi.live, ha.live]
    exact Set.mem_insert_iff.symm

omit hr in
lemma Releases.inv (hrel : Releases D s h b s' h') (hi : HeapInv D s h) :
    HeapInv D { s' with live := s'.live.erase b } h' := by
  refine ⟨⟨hrel.rep.inv, hrel.rep.pool, hrel.rep.arenas, hrel.rep.encodes⟩, hrel.used hi.used, ?_, ?_⟩
  · show (s'.live.erase b).Nodup
    rw [hrel.same]
    exact hi.nodup.erase b
  · intro c
    show c ∈ s'.live.erase b ↔ c ∈ h'.live
    rw [hrel.same, hrel.live, hi.nodup.mem_erase_iff, hi.live]
    exact and_comm

/-- `block_size` is the number of bytes up to the end of the block. -/
lemma Rep.blockSize_eq (hx : h.Has sizes x) (hblock : x.IsBlock) :
    blockSize D s.mem (x.start sizes) = .ok (x.stop sizes - x.start sizes) := by
  cases x with
  | header p => exact hblock.elim
  | block p k i =>
    rw [hr.encodes.blockSize_block hr.pool hx, block_stop, Nat.add_sub_cancel_left]
  | big p pages =>
    have hpos : 0 < pages := hr.inv.pages_pos p _ hx
    refine (hr.encodes.blockSize_big hr.pool hx (Heap.cntOf_big hx) hpos).trans (congrArg Except.ok ?_)
    show 4096 * pages - 12 = (p + pages) * 4096 - (p * 4096 + 12)
    omega

/-- What a client writes does not change the heap. -/
lemma Rep.write (hlive : ∀ b, b ∈ s.live → b ∈ h.live) {addr : ℕ} (hword : ClientWord D s addr)
    (v : ℕ) : Rep D { s with mem := update s.mem addr v } h := by
  refine ⟨hr.inv, hr.pool, hr.arenas, ?_⟩
  obtain ⟨-, ⟨b, hb, hlo, hhi⟩ | ⟨hdescs, hpages⟩⟩ := hword
  · -- a word of a live block
    obtain ⟨x, hx, hblock, rfl⟩ := hr.inv.live b (hlive b hb)
    rw [hr.blockSize_eq hx hblock] at hhi
    have hhi : addr + 4 ≤ x.start sizes + (x.stop sizes - x.start sizes) := hhi
    refine hr.encodes.changeBlock hr.inv hr.pool hx hblock (hlive _ hb) fun y hy => ?_
    exact update_of_ne (by omega) ..
  · -- a word that is not the allocator's
    have hout {x : Piece (Fin 7)} (hx : h.Has sizes x) : addr + 4 ≤ x.start sizes ∨ x.stop sizes ≤ addr := by
      obtain ⟨A, hA, hlo, -, hhi⟩ := hr.inv.inside hx
      have hlo : x.page * 4096 ≤ x.start sizes := hlo
      have hhi : x.stop sizes ≤ (x.page + A.pages) * 4096 := hhi
      have := hpages _ ((hr.arenas x.page A.pages).mpr ⟨A, hA, rfl⟩)
      omega
    refine hr.encodes.congr hr.inv.toWf (fun k x hnode _ => ?_) fun p A hA i hi => ?_
    · have hk := freeList_bounds D k
      rcases hnode with ⟨c, hc, rfl⟩ | ⟨p, i, hhas, rfl⟩
      · exact ⟨update_of_ne (by omega) .., update_of_ne (by omega) ..⟩
      · have := hout hhas
        rw [block_stop] at this
        have := blockSize_ge k
        exact ⟨update_of_ne (by omega) .., update_of_ne (by omega) ..⟩
    · have hheader : h.Has sizes (.header p) := ⟨A, hA⟩
      have hapart : addr + 4 ≤ p * 4096 ∨ p * 4096 + 12 ≤ addr := hout hheader
      exact update_of_ne (by omega) ..

end Rep

/-- A step keeps the invariant, no assertion fails, and arenas are added by `malloc` and removed by `free`. -/
lemma mallocExec_spec (hi : HeapInv D s h) (a : HeapAction) :
    Ensures (fun _ => False)
      (fun s' => (s.arenas ⊆ s'.arenas ∨ s'.arenas ⊆ s.arenas) ∧ ∃ h', HeapInv D s' h') (mallocExec D s a) := by
  cases a with
  | malloc size page =>
    rw [mallocExec]
    rcases malloc_spec hi.toRep size page with ⟨hr, -⟩ | ⟨hr, -⟩ | ⟨b, s', h', hr, ha, -⟩
    · rw [hr]
      exact .disabled
    · rw [hr]
      exact ⟨Or.inl (List.Subset.refl _), h, hi⟩
    · have hb : b ∈ h'.live := by
        rw [ha.live]
        exact Set.mem_insert ..
      rw [hr, except_ok_bind]
      dsimp only
      rw [if_neg (ha.rep.ne_zero hb)]
      exact ⟨Or.inl ha.subset, h', ha.inv hi⟩
  | free p =>
    refine Ensures.ite (fun hp => ?_) fun _ => .disabled
    by_cases hzero : p = 0
    · -- NULL is no live block
      have hnot : 0 ∉ s.live := fun hmem => hi.ne_zero ((hi.live 0).mp hmem) rfl
      rw [hzero, free, if_pos rfl, except_ok_bind, List.erase_of_not_mem hnot]
      exact ⟨Or.inl (List.Subset.refl _), h, hi⟩
    · have hmem := hp.resolve_left hzero
      obtain ⟨s', h', hr, hrel, -⟩ := free_spec hi.toRep ((hi.live p).mp hmem)
      rw [hr]
      exact ⟨Or.inr hrel.arenas, h', hrel.inv hi⟩
  | write addr v =>
    refine Ensures.ite (fun hword => ?_) fun _ => .disabled
    exact ⟨Or.inl (List.Subset.refl _), h, hi.toRep.write (fun b => (hi.live b).mp) hword v, hi.used, hi.nodup, hi.live⟩

/-- The lists that `malloc_init` has initialised. -/
lemma foldl_listInit {ks : List (Fin 7)} (h : k ∈ ks ∨ IsList mem (freeList D k) []) :
    IsList (ks.foldl (fun mem j => listInit mem (freeList D j)) mem) (freeList D k) [] := by
  induction ks generalizing mem with
  | nil => exact h.resolve_left List.not_mem_nil
  | cons j ks ih =>
    have hj := freeList_bounds D j
    obtain ⟨hinit, hframe⟩ := listInit_spec mem (show freeList D j ≠ 0 by omega)
    apply ih
    by_cases hk : k = j
    · rw [hk]
      exact Or.inr hinit
    · refine (h.imp_left fun hmem => (List.mem_cons.mp hmem).resolve_left hk).imp_right fun hlist => ?_
      -- the lists of two descriptors do not overlap
      refine hlist.congr fun y hy => hframe y ?_
      by_contra hin
      refine hy fun x hx => ?_
      rcases mem_nodes.mp hx with rfl | hmem | rfl
      · unfold freeList descAddr at hin ⊢
        omega
      · cases hmem
      · unfold freeList descAddr at hin ⊢
        omega

/-- A heap without arenas. -/
def emptyHeap : Heap (Fin 7) where
  arena _ := none
  free _ := []
  live := ∅

lemma mallocStart_inv (mem : Words) : HeapInv D (mallocStart D mem) emptyHeap := by
  have hnone {p : ℕ} {A : Arena (Fin 7)} (hA : emptyHeap.arena p = some A) : False := by cases hA
  have hhas {x : Piece (Fin 7)} (hx : emptyHeap.Has sizes x) : False := by
    cases x with
    | header p => exact hnone hx.choose_spec
    | block p k i => exact hnone hx.1
    | big p pages => exact hnone (show emptyHeap.arena p = some (.big pages) from hx)
  refine ⟨⟨⟨⟨fun p A hA => (hnone hA).elim, fun p A hA => (hnone hA).elim, fun _ => List.nodup_nil, ?_⟩, ?_, ?_, ?_⟩, ?_, ?_, ?_⟩,
    fun p A hA => (hnone hA).elim, List.nodup_nil, fun b => ?_⟩
  · intro k b hb
    cases hb
  · intro b hb
    exact hb.elim
  · intro p k i hx
    exact (hhas hx).elim
  · intro p pages hx
    exact (hhas hx).elim
  · intro p A hA
    exact (hnone hA).elim
  · intro p n
    exact iff_of_false List.not_mem_nil fun ⟨A, hA, _⟩ => hnone hA
  · exact ⟨fun k => foldl_listInit (Or.inl (List.mem_finRange k)), fun p A hA => (hnone hA).elim⟩
  · exact iff_of_false List.not_mem_nil fun hb => hb

lemma mallocMachine_inv (hreach : (mallocMachine D).Reachable s) : ∃ h, HeapInv D s h := by
  refine hreach.invariant (fun s hs => ?_) fun s a s' _ hs hstep => ?_
  · obtain ⟨mem, rfl⟩ := hs
    exact ⟨emptyHeap, mallocStart_inv mem⟩
  · obtain ⟨h, hi⟩ := hs
    exact ((mallocExec_spec hi a).of_eq_ok (Machine.ofExec_step.mp hstep)).2

/-! ## The heap -/

/-- The free lists in memory are `free`. Live blocks overlap neither each other nor headers nor nodes of free lists,
`free_cnt` is the number of free blocks of the arena, and the free lists stay inside of the arenas. -/
structure HeapSound (D : DescsAddr) (s : MallocState) (free : Fin 7 → List ℕ) : Prop where
  lists : ∀ k, IsList s.mem (freeList D k) (free k)
  nodup : s.live.Nodup
  size : ∀ b ∈ s.live, ∃ n, blockSize D s.mem b = .ok n ∧ 0 < n
  blocks : ∀ b ∈ s.live, ∀ c ∈ s.live, b ≠ c → ∀ m n, blockSize D s.mem b = .ok m → blockSize D s.mem c = .ok n →
    b + m ≤ c ∨ c + n ≤ b
  headers : ∀ b ∈ s.live, ∀ n, blockSize D s.mem b = .ok n → ∀ r ∈ s.arenas, b + n ≤ r.1 * 4096 ∨ r.1 * 4096 + 12 ≤ b
  nodes : ∀ b ∈ s.live, ∀ n, blockSize D s.mem b = .ok n → ∀ k, ∀ x ∈ nodes (freeList D k) (free k),
    b + n ≤ x ∨ x + 8 ≤ b
  freeCnt : ∀ r ∈ s.arenas, ∀ k, arenaDesc D s.mem (r.1 * 4096) = .ok (some k) →
    s.mem (r.1 * 4096 + 8) = (free k).countP fun b => b / 4096 = r.1
  inside : ∀ k, ∀ b ∈ free k, ∃ r ∈ s.arenas, r.1 * 4096 ≤ b ∧ b + 8 ≤ (r.1 + r.2) * 4096

lemma HeapInv.sound (hi : HeapInv D s h) : HeapSound D s h.free := by
  have hpiece {b : ℕ} (hb : b ∈ s.live) :
      ∃ x, h.Has sizes x ∧ x.IsBlock ∧ x.start sizes = b ∧ x.start sizes ∈ h.live ∧
        x.start sizes < x.stop sizes ∧ blockSize D s.mem b = .ok (x.stop sizes - b) := by
    have hlive := (hi.live b).mp hb
    obtain ⟨x, hx, hblock, rfl⟩ := hi.inv.live b hlive
    obtain ⟨_, _, _, hlt, _⟩ := hi.inv.inside hx
    exact ⟨x, hx, hblock, rfl, hlive, hlt, hi.blockSize_eq hx hblock⟩
  refine ⟨hi.encodes.lists, hi.nodup, fun b hb => ?_, fun b hb c hc hne m n hm hn => ?_, fun b hb n hn r hr => ?_,
    fun b hb n hn k x hnode => ?_, fun r hr k hk => ?_, fun k b hb => ?_⟩
  · obtain ⟨x, _, _, rfl, _, hlt, hsize⟩ := hpiece hb
    exact ⟨_, hsize, by omega⟩
  · obtain ⟨x, hx, _, rfl, _, hlt, hsize⟩ := hpiece hb
    obtain ⟨y, hy, _, rfl, _, hlt', hsize'⟩ := hpiece hc
    obtain rfl := Except.ok.inj (hsize.symm.trans hm)
    obtain rfl := Except.ok.inj (hsize'.symm.trans hn)
    have := hi.inv.disjoint hx hy fun heq => hne (by rw [heq])
    omega
  · obtain ⟨x, hx, hblock, rfl, _, hlt, hsize⟩ := hpiece hb
    obtain rfl := Except.ok.inj (hsize.symm.trans hn)
    obtain ⟨A, hA, _⟩ := (hi.arenas r.1 r.2).mp hr
    have hdisj := apart_header hi.inv.toWf hx hblock hA
    omega
  · obtain ⟨x, hx, hblock, rfl, hlive, hlt, hsize⟩ := hpiece hb
    obtain rfl := Except.ok.inj (hsize.symm.trans hn)
    have := node_apart_live hi.inv hi.pool hx hblock hlive hnode
    omega
  · obtain ⟨A, hA, _⟩ := (hi.arenas r.1 r.2).mp hr
    cases A with
    | small j =>
      have hj := hi.encodes.arenaDesc_small hA
      obtain rfl : j = k := Option.some.inj (Except.ok.inj (hj.symm.trans hk))
      rw [(hi.encodes.header r.1 _ hA).2.2, Heap.cntOf_small hA]
      rfl
    | big pages => cases (hi.encodes.arenaDesc_big hA).symm.trans hk
  · obtain ⟨p, i, hhas, rfl⟩ := hi.inv.free k b hb
    obtain ⟨hlo, hhi⟩ := block_within hhas
    exact ⟨(p, 1), (hi.arenas p 1).mpr ⟨_, hhas.1, rfl⟩, Nat.le_of_add_right_le hlo,
      (Nat.add_le_add_left (by omega) _).trans hhi⟩

/-- An arena has a live block as long as it is not given back. -/
lemma HeapInv.used_iff (hi : HeapInv D s h) {r : ℕ × ℕ}
    (hsame : ∀ r' ∈ s.arenas, r'.1 = r.1 → r' = r) : r ∉ s.arenas ↔ ∀ b ∈ s.live, b / 4096 ≠ r.1 := by
  constructor
  · intro hr b hb hdiv
    obtain ⟨x, hx, hblock, rfl⟩ := hi.inv.live b ((hi.live b).mp hb)
    obtain ⟨A, hA, _⟩ := hi.inv.inside hx
    have hpage : x.start sizes / 4096 = x.page := Heap.start_div hx hblock
    have hmem := (hi.arenas x.page A.pages).mpr ⟨A, hA, rfl⟩
    exact hr (hsame _ hmem (hpage.symm.trans hdiv) ▸ hmem)
  · intro hall hr
    obtain ⟨A, hA, _⟩ := (hi.arenas r.1 r.2).mp hr
    obtain ⟨b, hb, hdiv⟩ := hi.used r.1 A hA
    exact hall b ((hi.live b).mpr hb) hdiv

/-- An arena is known by its first page. -/
lemma Rep.arenas_inj (hr : Rep D s h) {r r' : ℕ × ℕ} (hmem : r ∈ s.arenas) (hmem' : r' ∈ s.arenas) (heq : r'.1 = r.1) :
    r' = r := by
  obtain ⟨A, hA, hn⟩ := (hr.arenas r.1 r.2).mp hmem
  obtain ⟨B, hB, hn'⟩ := (hr.arenas r'.1 r'.2).mp hmem'
  rw [heq, hA] at hB
  obtain rfl := Option.some.inj hB
  exact Prod.ext heq (hn'.symm.trans hn)

/-- In every reachable state the heap is sound. A step gives an arena back exactly if it leaves no live block in it, a
`malloc` that returns NULL changes nothing, and no assertion fails. -/
theorem heap_invariant (hreach : (mallocMachine D).Reachable s) :
    (∃ free, HeapSound D s free) ∧
      (∀ a s', mallocExec D s a = .ok s' → ∀ r ∈ s.arenas, r ∉ s'.arenas ↔ ∀ b ∈ s'.live, b / 4096 ≠ r.1) ∧
      (∀ size page s', malloc D s size page = .ok (0, s') → s' = s) ∧
      ∀ a f, mallocExec D s a ≠ .error (.fault f) := by
  obtain ⟨h, hi⟩ := mallocMachine_inv hreach
  refine ⟨⟨h.free, hi.sound⟩, fun a s' hstep r hr => ?_, fun size page s' hmalloc => ?_,
    fun a f hfault => (mallocExec_spec hi a).of_eq_fault hfault⟩
  · obtain ⟨hsub, h', hi'⟩ := (mallocExec_spec hi a).of_eq_ok hstep
    refine hi'.used_iff fun r' hr' heq => ?_
    rcases hsub with hsub | hsub
    · exact hi'.arenas_inj (hsub hr) hr' heq
    · exact hi.arenas_inj hr (hsub hr') heq
  · rcases malloc_spec hi.toRep size page with ⟨hr, -⟩ | ⟨hr, -⟩ | ⟨b, s'', h', hr, ha, -⟩
    · cases hr.symm.trans hmalloc
    · exact (Prod.mk.inj (Except.ok.inj (hmalloc.symm.trans hr))).2
    · obtain rfl : 0 = b := (Prod.mk.inj (Except.ok.inj (hmalloc.symm.trans hr))).1
      refine absurd rfl (ha.rep.ne_zero (b := 0) ?_)
      rw [ha.live]
      exact Set.mem_insert ..

/-- An address for `descs`. -/
def exampleDescs : DescsAddr where
  addr := 0xc0020000
  pos := by decide
  below := by decide

/-- A block of 1024 bytes in a new arena is given out and freed, and the arena is given back. -/
theorem heap_invariant_oneBlock :
    ∃ s s' : MallocState, (mallocMachine exampleDescs).run (mallocStart exampleDescs fun _ => 0)
        [.malloc 600 (some 0xc0100)] = some s ∧ s.live = [0xc010000c] ∧ s.arenas = [(0xc0100, 1)] ∧
      mallocExec exampleDescs s (.free 0xc010000c) = .ok s' ∧ (0xc0100, 1) ∉ s'.arenas ∧
      ∃ free, HeapSound exampleDescs s free := by
  have hrun : ((mallocMachine exampleDescs).run (mallocStart exampleDescs fun _ => 0) [.malloc 600 (some 0xc0100)]).map
      (fun s => (s.live, s.arenas, ((mallocMachine exampleDescs).step s (.free 0xc010000c)).map MallocState.live)) =
      some ([0xc010000c], [(0xc0100, 1)], some []) := by
    decide +kernel
  obtain ⟨s, hrun, hs⟩ := Option.map_eq_some_iff.mp hrun
  obtain ⟨hlive, hs⟩ := Prod.mk.inj hs
  obtain ⟨harenas, hs⟩ := Prod.mk.inj hs
  obtain ⟨s', hfree, hempty⟩ := Option.map_eq_some_iff.mp hs
  have hfree : mallocExec exampleDescs s (.free 0xc010000c) = .ok s' := Machine.ofExec_step.mp hfree
  obtain ⟨hsound, hback, -⟩ := heap_invariant (D := exampleDescs) ⟨_, _, ⟨_, rfl⟩, hrun⟩
  refine ⟨s, s', hrun, hlive, harenas, hfree, ?_, hsound⟩
  refine (hback _ s' hfree _ (by rw [harenas]; exact List.mem_singleton_self _)).mpr fun b hb => ?_
  rw [hempty] at hb
  cases hb

end OsLabs.Threads
