import OsLabs.Filesys.Disk
import OsLabs.Threads.MallocRuns
import OsLabs.Threads.Palloc

/-!
# Pages and blocks

What a process gets from `palloc_get_page` and `malloc` while it is loaded. The environment decides which free page an
allocation gets, or that it gets none. A page is its number and its contents; the words of the allocator are those of
`Threads.Malloc`.

`Extends R m₀ e blocks m` says that memory is as in `m₀`, with the pages `e` and the blocks `blocks` allocated in addition.
There is one rule for each function, and if nothing is left then the same pages are allocated as before
(`Extends.allocated_eq`).
-/

namespace OsLabs.Userprog

open Lib Threads Function

/-! ## The model -/

/-- What stays: the amount of memory, the pools, and the addresses of `descs` and of `init_page_dir`. -/
structure Ram where
  initRamPages : ℕ
  pools : PoolId → Pool
  descs : DescsAddr
  initPageDir : ℕ
  layout : PoolLayout pools
  low : ptov 256 ≤ (pools .kernel).usedMapPage
  high : (pools .user).base + (pools .user).usedMap.bitCnt ≤ ptov initRamPages
  small : initRamPages ≤ 16384

/-- Memory after `palloc_init`. -/
def Ram.ofInit {initRamPages userPageLimit : ℕ} (hlo : 256 ≤ initRamPages) (hhi : initRamPages ≤ 16384)
    {junk : PoolId → ℕ → BitVec 32} {pools : PoolId → Pool}
    (h : pallocInit initRamPages userPageLimit junk = some pools) (descs : DescsAddr) (initPageDir : ℕ) : Ram where
  initRamPages
  pools
  descs
  initPageDir
  layout := (pallocInit_spec hlo hhi h).1
  low := (pallocInit_spec hlo hhi h).2.2.1
  high := (pallocInit_spec hlo hhi h).2.2.2
  small := hhi

structure Memory where
  /-- The pages that `palloc_get_page` has returned and that were not given back. -/
  pages : PoolId → List ℕ
  heap : MallocState
  bytes : ℕ → ℕ → UInt8
  /-- The number of allocations that the environment has decided. -/
  calls : ℕ

/-- What can fail. -/
inductive Fault where
  /-- A page is given back that was not got. -/
  | palloc
  /-- `PAL_ASSERT`, when there is no page. -/
  | outOfPages
  /-- An assertion of `pagedir.c`, `pte.h` or `vaddr.h`. -/
  | pagedir
  /-- An assertion of `load_segment`. -/
  | segment
  /-- A loop that does not end. -/
  | loop
  | heap (h : Halt MallocAssert)
  | fs (p : Filesys.Panic)

abbrev KernelM := Except Fault

variable (R : Ram) (env : ℕ → Option ℕ)

namespace Memory

/-- No page of a pool that is in use. -/
def IsFree (m : Memory) (x : ℕ) : Prop :=
  x ∉ m.pages .kernel ∧ x ∉ m.pages .user ∧ ∀ r ∈ m.heap.arenas, x < r.1 ∨ r.1 + r.2 ≤ x

instance (m : Memory) (x : ℕ) : Decidable (m.IsFree x) := inferInstanceAs (Decidable (_ ∧ _ ∧ _))

/-- The page that the next allocation gets: what the environment wants, if it is free. -/
def offer (m : Memory) (p : PoolId) : Option ℕ :=
  (env m.calls).filter fun x => (R.pools p).hasPage x ∧ m.IsFree x

/-- Memory with the contents of a page replaced. -/
def setPage (m : Memory) (x : ℕ) (page : ℕ → UInt8) : Memory :=
  { m with bytes := update m.bytes x page }

/-- Memory with other pages of a pool in use. -/
def setPages (m : Memory) (p : PoolId) (xs : List ℕ) : Memory :=
  { m with pages := update m.pages p xs }

/-- `palloc_get_page`. `zero` is for `PAL_ZERO`. -/
def pallocGetPage (m : Memory) (p : PoolId) (zero : Bool) : Option ℕ × Memory :=
  match offer R env m p with
  | none => (none, { m with calls := m.calls + 1 })
  | some x =>
    let m := { m.setPages p (x :: m.pages p) with calls := m.calls + 1 }
    (some x, if zero then m.setPage x fun _ => 0 else m)

/-- A page of a pool is given back. -/
def release (m : Memory) (p : PoolId) (x : ℕ) : KernelM Memory :=
  if x ∈ m.pages p then
    .ok ((m.setPages p ((m.pages p).erase x)).setPage x fun _ => 0xcc)
  else .error .palloc

/-- `palloc_free_page`. -/
def pallocFreePage (m : Memory) (x : ℕ) : KernelM Memory :=
  if x = 0 then .ok m
  else if (R.pools .kernel).hasPage x then m.release .kernel x
  else if (R.pools .user).hasPage x then m.release .user x
  else .error .palloc

/-- What the allocator of blocks does. -/
def heapCall {α : Type} : MallocM α → KernelM α
  | .ok a => .ok a
  | .error e => .error (.heap e)

/-- `malloc`, and `calloc` of one element: what is in the block is kept elsewhere. -/
def malloc (m : Memory) (size : UInt32) : KernelM (ℕ × Memory) := do
  let (b, heap) ← heapCall (Threads.malloc R.descs m.heap size (offer R env m .kernel))
  let heap := if b = 0 then heap else { heap with live := b :: heap.live }
  return (b, { m with heap, calls := m.calls + 1 })

/-- `free`. -/
def free (m : Memory) (b : ℕ) : KernelM Memory := do
  let heap ← heapCall (mallocExec R.descs m.heap (.free b))
  return { m with heap }

/-- The pages of a pool that are allocated. -/
def allocated (m : Memory) : PoolId → Set ℕ
  | .kernel => { x | x ∈ m.pages .kernel ∨ ∃ r ∈ m.heap.arenas, r.1 ≤ x ∧ x < r.1 + r.2 }
  | .user => { x | x ∈ m.pages .user }

end Memory

/-! ## The pools -/

variable {R env}

lemma Ram.page_bounds {p : PoolId} {x : ℕ} (h : (R.pools p).hasPage x) :
    0xc0100 ≤ x ∧ x < 0xc0000 + R.initRamPages := by
  obtain ⟨hlo, hhi⟩ := h
  have hlow := R.low
  have hhigh := R.high
  have hk := R.layout.kernelMap
  have hke := R.layout.kernelEnd
  have hu := R.layout.userMap
  unfold ptov at hlow hhigh
  cases p <;> omega

lemma Ram.page_lt {p : PoolId} {x : ℕ} (h : (R.pools p).hasPage x) : x < 0xc4000 := by
  have hbounds := R.page_bounds h
  have hsmall := R.small
  omega

/-- A page is in one pool only. -/
lemma Ram.pool_unique {p q : PoolId} {x : ℕ} (hp : (R.pools p).hasPage x) (hq : (R.pools q).hasPage x) : q = p := by
  by_contra hne
  exact (R.layout.disjoint hp).1 q hne hq

namespace Memory

variable {m m₀ : Memory} {e : PoolId → List ℕ} {blocks : List ℕ} {p : PoolId} {x : ℕ}

@[simp] lemma setPage_pages (page : ℕ → UInt8) : (m.setPage x page).pages = m.pages := rfl

lemma setPage_self (page : ℕ → UInt8) : (m.setPage x page).bytes x = page :=
  update_self ..

lemma setPage_of_ne {y : ℕ} (h : y ≠ x) (page : ℕ → UInt8) : (m.setPage x page).bytes y = m.bytes y :=
  update_of_ne h ..

lemma setPage_setPage (page page' : ℕ → UInt8) : (m.setPage x page).setPage x page' = m.setPage x page' := by
  unfold setPage
  rw [update_idem]

lemma setPages_self (xs : List ℕ) : (m.setPages p xs).pages p = xs :=
  update_self ..

lemma setPages_of_ne {q : PoolId} (h : q ≠ p) (xs : List ℕ) : (m.setPages p xs).pages q = m.pages q :=
  update_of_ne h ..

/-! ## What is allocated -/

/-- No page is allocated twice, those of the pools are from there, and the allocator has other ones. -/
structure Sound (R : Ram) (m : Memory) : Prop where
  nodup : ∀ p, (m.pages p).Nodup
  pool : ∀ p, ∀ x ∈ m.pages p, (R.pools p).hasPage x
  apart : ∀ p, ∀ x ∈ m.pages p, ∀ r ∈ m.heap.arenas, x < r.1 ∨ r.1 + r.2 ≤ x
  heap : ∃ h, HeapInv R.descs m.heap h

lemma Sound.setPage (h : m.Sound R) (x : ℕ) (page : ℕ → UInt8) : (m.setPage x page).Sound R :=
  ⟨h.nodup, h.pool, h.apart, h.heap⟩

lemma Sound.tick (h : m.Sound R) (n : ℕ) : { m with calls := n }.Sound R :=
  ⟨h.nodup, h.pool, h.apart, h.heap⟩

/-- Pages of a pool are got or given back. -/
lemma Sound.setPages (h : m.Sound R) {xs : List ℕ} (hnodup : xs.Nodup)
    (hmem : ∀ y ∈ xs, y ∈ m.pages p ∨
      (R.pools p).hasPage y ∧ ∀ r ∈ m.heap.arenas, y < r.1 ∨ r.1 + r.2 ≤ y) : (m.setPages p xs).Sound R := by
  refine ⟨fun q => ?_, fun q y hy => ?_, fun q y hy => ?_, h.heap⟩
  · by_cases hq : q = p
    · rw [hq, setPages_self]
      exact hnodup
    · rw [setPages_of_ne hq]
      exact h.nodup q
  · by_cases hq : q = p
    · subst hq
      rw [setPages_self] at hy
      exact (hmem y hy).elim (h.pool q y) fun hnew => hnew.1
    · rw [setPages_of_ne hq] at hy
      exact h.pool q y hy
  · by_cases hq : q = p
    · subst hq
      rw [setPages_self] at hy
      exact (hmem y hy).elim (h.apart q y) fun hnew => hnew.2
    · rw [setPages_of_ne hq] at hy
      exact h.apart q y hy

lemma Sound.insert (h : m.Sound R) (hpage : (R.pools p).hasPage x) (hfree : m.IsFree x) :
    (m.setPages p (x :: m.pages p)).Sound R := by
  obtain ⟨hkernel, huser, harenas⟩ := hfree
  have hnot : x ∉ m.pages p := by
    cases p
    · exact hkernel
    · exact huser
  refine h.setPages (List.nodup_cons.mpr ⟨hnot, h.nodup p⟩) fun y hy => ?_
  rcases List.mem_cons.mp hy with rfl | hy
  · exact Or.inr ⟨hpage, harenas⟩
  · exact Or.inl hy

lemma Sound.erase (h : m.Sound R) (p) (x : ℕ) : (m.setPages p ((m.pages p).erase x)).Sound R :=
  h.setPages ((h.nodup p).erase x) fun _ hy => Or.inl (List.mem_of_mem_erase hy)

/-- Memory is as in `m₀`, and the pages `e` and the blocks `blocks` are allocated in addition. -/
structure Extends (R : Ram) (m₀ : Memory) (e : PoolId → List ℕ) (blocks : List ℕ) (m : Memory) : Prop where
  base : m₀.Sound R
  sound : m.Sound R
  pages : ∀ p, m.pages p = e p ++ m₀.pages p
  bytes : ∀ p, ∀ x ∈ m₀.pages p, m.bytes x = m₀.bytes x
  nodup : blocks.Nodup
  new : ∀ b ∈ blocks, b ∉ m₀.heap.live
  live : ∀ b, b ∈ m.heap.live ↔ b ∈ blocks ∨ b ∈ m₀.heap.live
  arenas : m₀.heap.arenas ⊆ m.heap.arenas

namespace Extends

lemma refl (h : m.Sound R) : Extends R m (fun _ => []) [] m where
  base := h
  sound := h
  pages _ := rfl
  bytes _ _ _ := rfl
  nodup := List.nodup_nil
  new _ hb := absurd hb List.not_mem_nil
  live b := by simp
  arenas := List.Subset.refl _

section Extends

variable (h : Extends R m₀ e blocks m)
include h

lemma mem_pages (hx : x ∈ e p) : x ∈ m.pages p := by
  rw [h.pages]
  exact List.mem_append_left _ hx

lemma hasPage (hx : x ∈ e p) : (R.pools p).hasPage x :=
  h.sound.pool p x (h.mem_pages hx)

/-- A page is in one pool only. -/
lemma ne {q : PoolId} {y : ℕ} (hx : x ∈ e p) (hy : y ∈ e q) (hne : p ≠ q) : x ≠ y := by
  rintro rfl
  exact hne (R.pool_unique (h.hasPage hy) (h.hasPage hx))

lemma nodup_pages (p) : (e p).Nodup := by
  have hnodup := h.sound.nodup p
  rw [h.pages] at hnodup
  exact hnodup.of_append_left

/-- The additional pages are not among the old ones. -/
lemma not_old (hx : x ∈ e p) (q : PoolId) : x ∉ m₀.pages q := by
  intro hold
  obtain rfl := R.pool_unique (h.hasPage hx) (h.base.pool q x hold)
  have hnodup := h.sound.nodup q
  rw [h.pages] at hnodup
  exact (List.nodup_append.mp hnodup).2.2 x hx x hold rfl

/-- Nothing more is allocated. -/
lemma trans {m' : Memory} (hx : Extends R m (fun _ => []) [] m') :
    Extends R m₀ e blocks m' where
  base := h.base
  sound := hx.sound
  pages p := (hx.pages p).trans (h.pages p)
  bytes p x hold := by
    rw [hx.bytes p x ?_]
    · exact h.bytes p x hold
    · rw [h.pages]
      exact List.mem_append_right _ hold
  nodup := h.nodup
  new := h.new
  live b := by
    rw [hx.live, h.live]
    simp
  arenas := List.Subset.trans h.arenas hx.arenas

/-- A write to one of the additional pages. -/
lemma setPage (hx : x ∈ e p) (page : ℕ → UInt8) :
    Extends R m₀ e blocks (m.setPage x page) where
  base := h.base
  sound := h.sound.setPage x page
  pages := h.pages
  bytes q y hy := by
    have hne : y ≠ x := by
      rintro rfl
      exact h.not_old hx q hy
    rw [setPage_of_ne hne]
    exact h.bytes q y hy
  nodup := h.nodup
  new := h.new
  live := h.live
  arenas := h.arenas

/-- `palloc_get_page` fails, or returns a page that was not allocated. -/
lemma pallocGetPage (env) (p) (zero : Bool) :
    (∃ m', Memory.pallocGetPage R env m p zero = (none, m') ∧ Extends R m₀ e blocks m' ∧ m'.bytes = m.bytes) ∨
      ∃ x m', Memory.pallocGetPage R env m p zero = (some x, m') ∧
        Extends R m₀ (update e p (x :: e p)) blocks m' ∧
        m'.bytes = (if zero then update m.bytes x fun _ => 0 else m.bytes) := by
  unfold Memory.pallocGetPage
  cases hoffer : offer R env m p with
  | none => exact Or.inl ⟨_, rfl, ⟨h.base, h.sound.tick _, h.pages, h.bytes, h.nodup, h.new, h.live, h.arenas⟩, rfl⟩
  | some x =>
    obtain ⟨-, hok⟩ := Option.filter_eq_some_iff.mp hoffer
    obtain ⟨hpage, hfree⟩ := of_decide_eq_true hok
    have hext : Extends R m₀ (update e p (x :: e p)) blocks
        { m.setPages p (x :: m.pages p) with calls := m.calls + 1 } := by
      refine ⟨h.base, (h.sound.insert hpage hfree).tick _, fun q => ?_, h.bytes, h.nodup, h.new, h.live, h.arenas⟩
      show (m.setPages p (x :: m.pages p)).pages q = _
      by_cases hq : q = p
      · rw [hq, setPages_self, update_self, h.pages]
        rfl
      · rw [setPages_of_ne hq, update_of_ne hq]
        exact h.pages q
    have hmem : x ∈ update e p (x :: e p) p := by
      rw [update_self]
      exact List.mem_cons_self ..
    refine Or.inr ⟨x, _, rfl, ?_, ?_⟩
    · cases zero with
      | false => exact hext
      | true => exact hext.setPage hmem _
    · cases zero <;> rfl

omit h in
lemma release_eq (hx : x ∈ m.pages p) (hpool : (R.pools p).hasPage x) :
    Memory.pallocFreePage R m x = .ok ((m.setPages p ((m.pages p).erase x)).setPage x fun _ => 0xcc) := by
  have hbounds := R.page_bounds hpool
  rw [Memory.pallocFreePage, if_neg (by omega)]
  cases p with
  | kernel =>
    rw [if_pos hpool]
    exact if_pos hx
  | user =>
    have hkernel : ¬(R.pools .kernel).hasPage x := (R.layout.disjoint hpool).1 .kernel (by decide)
    rw [if_neg hkernel, if_pos hpool]
    exact if_pos hx

/-- `palloc_free_page` of one of the additional pages. -/
lemma pallocFreePage (hx : x ∈ e p) :
    ∃ m', Memory.pallocFreePage R m x = .ok m' ∧ Extends R m₀ (update e p ((e p).erase x)) blocks m' ∧
      m'.bytes = update m.bytes x fun _ => 0xcc := by
  refine ⟨_, release_eq (h.mem_pages hx) (h.hasPage hx), ?_, rfl⟩
  have hset := h.setPage hx fun _ => 0xcc
  refine ⟨h.base, (h.sound.erase p x).setPage x _, fun q => ?_, hset.bytes, h.nodup, h.new, h.live, h.arenas⟩
  rw [setPage_pages]
  by_cases hq : q = p
  · rw [hq, setPages_self, update_self, h.pages, List.erase_append_left _ hx]
  · rw [setPages_of_ne hq, update_of_ne hq]
    exact h.pages q

/-- `palloc_free_page` of a page that was allocated before. -/
lemma pallocFreePage_old (hx : x ∈ m₀.pages p) :
    ∃ m', Memory.pallocFreePage R m x = .ok m' ∧
      Extends R ((m₀.setPages p ((m₀.pages p).erase x)).setPage x fun _ => 0xcc) e blocks m' ∧
      m'.bytes = update m.bytes x fun _ => 0xcc := by
  have hnot : x ∉ e p := fun hmem => h.not_old hmem p hx
  have hmem : x ∈ m.pages p := by
    rw [h.pages]
    exact List.mem_append_right _ hx
  refine ⟨_, release_eq hmem (h.base.pool p x hx), ?_, rfl⟩
  refine ⟨(h.base.erase p x).setPage x _, (h.sound.erase p x).setPage x _, fun q => ?_, fun q y hy => ?_, h.nodup, h.new,
    h.live, h.arenas⟩
  · rw [setPage_pages, setPage_pages]
    by_cases hq : q = p
    · rw [hq, setPages_self, setPages_self, h.pages, List.erase_append_right _ hnot]
    · rw [setPages_of_ne hq, setPages_of_ne hq]
      exact h.pages q
  · by_cases hyx : y = x
    · rw [hyx, setPage_self, setPage_self]
    · rw [setPage_of_ne hyx, setPage_of_ne hyx]
      rw [setPage_pages] at hy
      apply h.bytes q y
      by_cases hq : q = p
      · subst hq
        rw [setPages_self] at hy
        exact List.mem_of_mem_erase hy
      · rw [setPages_of_ne hq] at hy
        exact hy

/-! ## Blocks -/

omit h in
/-- The page that the allocator is offered is not in use. -/
lemma fresh_of_offer (hoffer : offer R env m .kernel = some x) : FreshPages m.heap x 1 ∧ m.IsFree x := by
  obtain ⟨-, hok⟩ := Option.filter_eq_some_iff.mp hoffer
  obtain ⟨hpage, hfree⟩ := of_decide_eq_true hok
  have hbounds := R.page_bounds hpage
  have hlt := R.page_lt hpage
  refine ⟨⟨hbounds.1, by omega, fun r hr => ?_⟩, hfree⟩
  have hapart := hfree.2.2 r hr
  omega

lemma ne_zero : 0 ∉ blocks := by
  intro hzero
  obtain ⟨g, hg⟩ := h.sound.heap
  exact hg.ne_zero ((hg.live 0).mp ((h.live 0).mpr (Or.inl hzero))) rfl

/-- `malloc` of a block that fits into an arena fails, or returns a new block. -/
lemma malloc (env) (size : UInt32)
    (hsize : pageCnt size.toNat = 1) :
    ∃ b m', Memory.malloc R env m size = .ok (b, m') ∧ m'.bytes = m.bytes ∧
      Extends R m₀ e (if b = 0 then blocks else b :: blocks) m' := by
  obtain ⟨g, hg⟩ := h.sound.heap
  unfold Memory.malloc
  have hexec := mallocExec_spec hg (.malloc size (offer R env m .kernel))
  rw [mallocExec] at hexec
  rcases malloc_spec hg.toRep size (offer R env m .kernel) with ⟨-, x, hoffer, hstale⟩ | ⟨hr, -⟩ | ⟨b, s', g', hr, ha, -⟩
  · rw [hsize] at hstale
    exact absurd (fresh_of_offer hoffer).1 hstale
  · refine ⟨0, { m with calls := m.calls + 1 }, by rw [hr]; rfl, rfl, ?_⟩
    exact ⟨h.base, h.sound.tick _, h.pages, h.bytes, h.nodup, h.new, h.live, h.arenas⟩
  · rw [hr, except_ok_bind] at hexec
    have hb : b ≠ 0 := by
      apply ha.rep.ne_zero
      rw [ha.live]
      exact Set.mem_insert ..
    dsimp only at hexec
    rw [if_neg hb] at hexec
    obtain ⟨-, k, hk⟩ := hexec.of_eq_ok rfl
    have hnew : b ∉ m.heap.live := by
      rw [hg.live]
      exact ha.new
    have hnot : b ∉ blocks ∧ b ∉ m₀.heap.live := by
      rw [← not_or, ← h.live]
      exact hnew
    refine ⟨b, { m with heap := { s' with live := b :: s'.live }, calls := m.calls + 1 }, ?_, rfl, ?_⟩
    · rw [hr, heapCall, except_ok_bind]
      dsimp only
      rw [if_neg hb]
      rfl
    rw [if_neg hb]
    refine ⟨h.base, ⟨h.sound.nodup, h.sound.pool, fun q y hy r hr' => ?_, k, hk⟩, h.pages, h.bytes, ?_, ?_, ?_, ?_⟩
    · have hr' : r ∈ s'.arenas := hr'
      -- a new arena is in a page that was free
      rcases ha.arenas with hsame | ⟨x, hoffer, hcons⟩
      · rw [hsame] at hr'
        exact h.sound.apart q y hy r hr'
      · rw [hcons, List.mem_cons] at hr'
        rcases hr' with rfl | hr'
        · have hfree := (fresh_of_offer hoffer).2
          have hne : y ≠ x := by
            rintro rfl
            cases q
            · exact hfree.1 hy
            · exact hfree.2.1 hy
          omega
        · exact h.sound.apart q y hy r hr'
    · exact List.nodup_cons.mpr ⟨hnot.1, h.nodup⟩
    · intro c hc
      rcases List.mem_cons.mp hc with rfl | hc
      · exact hnot.2
      · exact h.new c hc
    · intro c
      show c ∈ b :: s'.live ↔ _
      rw [ha.same, List.mem_cons, List.mem_cons, h.live, or_assoc]
    · exact List.Subset.trans h.arenas ha.subset

omit h in
/-- An arena that was there before has a live block, so it stays. -/
lemma arenas_kept {h₀ g : MallocState} {k₀ k : Heap (Fin 7)} (hi₀ : HeapInv R.descs h₀ k₀) (hi : HeapInv R.descs g k)
    (hlive : ∀ b ∈ h₀.live, b ∈ g.live) {r : ℕ × ℕ} (hr : r ∈ h₀.arenas)
    (hsame : ∀ r' ∈ g.arenas, r'.1 = r.1 → r' = r) : r ∈ g.arenas := by
  by_contra hgone
  have hunused := (hi.used_iff hsame).mp hgone
  refine (hi₀.used_iff fun r' hr' heq => hi₀.arenas_inj hr hr' heq).mpr (fun b hb => hunused b (hlive b hb)) hr

/-- `free` of NULL, or of one of the additional blocks. -/
lemma free {b : ℕ} (hb : b = 0 ∨ b ∈ blocks) :
    ∃ m', Memory.free R m b = .ok m' ∧ m'.bytes = m.bytes ∧ Extends R m₀ e (blocks.erase b) m' := by
  obtain ⟨g, hg⟩ := h.sound.heap
  have hexec := mallocExec_spec hg (.free b)
  unfold Memory.free
  rcases hb with rfl | hb
  · have hnot : 0 ∉ m.heap.live := fun hmem => hg.ne_zero ((hg.live 0).mp hmem) rfl
    have hrun : mallocExec R.descs m.heap (.free 0) = .ok m.heap := by
      rw [mallocExec, Threads.free, if_pos rfl, except_ok_bind, List.erase_of_not_mem hnot]
      rfl
    refine ⟨m, by rw [hrun]; rfl, rfl, ?_⟩
    rw [List.erase_of_not_mem h.ne_zero]
    exact h
  · have hmem : b ∈ m.heap.live := (h.live b).mpr (Or.inl hb)
    obtain ⟨s', g', hr, hrel, -⟩ := free_spec hg.toRep ((hg.live b).mp hmem)
    have hrun : mallocExec R.descs m.heap (.free b) = .ok { s' with live := s'.live.erase b } := by
      rw [mallocExec, if_pos (Or.inr hmem), hr]
      rfl
    obtain ⟨-, k, hk⟩ := hexec.of_eq_ok hrun
    have hlive : ∀ c, c ∈ s'.live.erase b ↔ c ∈ blocks.erase b ∨ c ∈ m₀.heap.live := by
      intro c
      rw [hrel.same, hg.nodup.mem_erase_iff, h.nodup.mem_erase_iff, h.live]
      constructor
      · rintro ⟨hne, hc | hc⟩
        · exact Or.inl ⟨hne, hc⟩
        · exact Or.inr hc
      · rintro (hc | hc)
        · exact ⟨hc.1, Or.inl hc.2⟩
        · refine ⟨?_, Or.inr hc⟩
          rintro rfl
          exact h.new c hb hc
    refine ⟨{ m with heap := { s' with live := s'.live.erase b } }, by rw [hrun]; rfl, rfl, h.base, ?_, h.pages, h.bytes,
      h.nodup.erase b, ?_, hlive, ?_⟩
    · exact ⟨h.sound.nodup, h.sound.pool, fun q y hy r hr' => h.sound.apart q y hy r (hrel.arenas hr'), k, hk⟩
    · exact fun c hc => h.new c (List.mem_of_mem_erase hc)
    · intro r hr'
      obtain ⟨g₀, hg₀⟩ := h.base.heap
      refine arenas_kept hg₀ hk (fun c hc => (hlive c).mpr (Or.inr hc)) hr' fun r' hmem' heq => ?_
      exact hg.arenas_inj (h.arenas hr') (hrel.arenas hmem') heq

end Extends

/-- If nothing is left then the same pages are allocated as before. -/
lemma allocated_eq (h : Extends R m₀ (fun _ => []) [] m) (p) : m.allocated p = m₀.allocated p := by
  obtain ⟨g, hg⟩ := h.sound.heap
  obtain ⟨g₀, hg₀⟩ := h.base.heap
  have harenas : ∀ r, r ∈ m.heap.arenas ↔ r ∈ m₀.heap.arenas := by
    intro r
    refine ⟨fun hr => ?_, fun hr => h.arenas hr⟩
    refine arenas_kept hg hg₀ (fun b hb => ?_) hr fun r' hr' heq => ?_
    · rcases (h.live b).mp hb with hnil | hold
      · exact absurd hnil List.not_mem_nil
      · exact hold
    · exact hg.arenas_inj hr (h.arenas hr') heq
  ext x
  cases p with
  | kernel =>
    show x ∈ m.pages .kernel ∨ (∃ r ∈ m.heap.arenas, _) ↔ x ∈ m₀.pages .kernel ∨ ∃ r ∈ m₀.heap.arenas, _
    rw [h.pages]
    simp only [harenas, List.nil_append]
  | user =>
    show x ∈ m.pages .user ↔ x ∈ m₀.pages .user
    rw [h.pages, List.nil_append]

end Extends

end Memory

/-- Memory of 512 pages. -/
def exampleRam : Ram where
  initRamPages := 512
  pools
    | .kernel => ⟨0xc0100, ⟨127, fun _ => 0⟩, 0xc0101⟩
    | .user => ⟨0xc0180, ⟨127, fun _ => 0⟩, 0xc0181⟩
  descs := exampleDescs
  initPageDir := 0xc0101
  layout := ⟨by decide, by decide, by decide, fun p => by cases p <;> decide⟩
  low := by decide
  high := by decide
  small := by decide

end OsLabs.Userprog
