import OsLabs.LibKernel.Bitmap

/-!
# The page pools

`palloc_init`, `init_pool` and `page_from_pool` of `threads/palloc.c`. Memory from 1 MB on is split between the two pools,
and each pool starts with the pages of its own bitmap. Pages are given by their numbers.

`pallocInit_spec` is the layout that comes out: the pages of the kernel bitmap, the kernel pages, those of the user bitmap
and the user pages follow each other, and every page is free.
-/

namespace OsLabs.Threads

open LibKernel

/-- The two pools. -/
inductive PoolId where
  | kernel
  | user
deriving DecidableEq

/-- `struct pool` without its lock: the bitmap, with the page that it starts in, and the first page of the pool. -/
structure Pool where
  usedMapPage : ℕ
  usedMap : Bitmap
  base : ℕ

/-- `ptov`, for page numbers. -/
def ptov (page : ℕ) : ℕ :=
  0xc0000 + page

/-- `init_pool`, for memory with the contents `junk`. It panics if the bitmap does not fit. -/
def initPool (base pageCnt : ℕ) (junk : ℕ → BitVec 32) : Option Pool :=
  let bmPages := (Bitmap.bufSize pageCnt + 4095) / 4096
  if bmPages > pageCnt then none
  else do
    let usedMap ← Bitmap.createInBuf (pageCnt - bmPages) (bmPages * 4096) junk
    return { usedMapPage := base, usedMap, base := base + bmPages }

/-- `palloc_init`. -/
def pallocInit (initRamPages userPageLimit : ℕ) (junk : PoolId → ℕ → BitVec 32) : Option (PoolId → Pool) := do
  let freeStart := ptov 256
  let freeEnd := ptov initRamPages
  let freePages := freeEnd - freeStart
  let userPages := if freePages / 2 > userPageLimit then userPageLimit else freePages / 2
  let kernelPages := freePages - userPages
  let kernel ← initPool freeStart kernelPages (junk .kernel)
  let user ← initPool (freeStart + kernelPages) userPages (junk .user)
  return fun
    | .kernel => kernel
    | .user => user

/-- `page_from_pool`. -/
def Pool.hasPage (p : Pool) (page : ℕ) : Prop :=
  p.base ≤ page ∧ page < p.base + p.usedMap.bitCnt

instance (p : Pool) (page : ℕ) : Decidable (p.hasPage page) := inferInstanceAs (Decidable (_ ∧ _))

/-- The page holds a part of the bitmap. -/
def Pool.hasMapPage (p : Pool) (page : ℕ) : Prop :=
  p.usedMapPage ≤ page ∧ page < p.base

/-! ## The layout -/

/-- The order of the two bitmaps and pools in memory. -/
structure PoolLayout (pools : PoolId → Pool) : Prop where
  kernelMap : (pools .kernel).usedMapPage ≤ (pools .kernel).base
  kernelEnd : (pools .kernel).base + (pools .kernel).usedMap.bitCnt ≤ (pools .user).usedMapPage
  userMap : (pools .user).usedMapPage ≤ (pools .user).base
  small : ∀ p, (pools p).usedMap.bitCnt < 2 ^ 31

variable {pools : PoolId → Pool}

/-- A page of one pool is not in the other one, and in no bitmap. -/
lemma PoolLayout.disjoint (h : PoolLayout pools) {p : PoolId} {page : ℕ}
    (hpage : (pools p).hasPage page) : (∀ q, q ≠ p → ¬(pools q).hasPage page) ∧ ∀ q, ¬(pools q).hasMapPage page := by
  have hke := h.kernelEnd
  have hu := h.userMap
  obtain ⟨hlo, hhi⟩ := hpage
  constructor
  · intro q hq hpage'
    obtain ⟨hlo', hhi'⟩ := hpage'
    cases p <;> cases q
    · exact hq rfl
    · omega
    · omega
    · exact hq rfl
  · intro q hmap
    obtain ⟨hlo', hhi'⟩ := hmap
    cases p <;> cases q <;> omega

lemma initPool_spec {base pageCnt : ℕ} (hcnt : pageCnt < 2 ^ 31) {junk : ℕ → BitVec 32} {p : Pool}
    (h : initPool base pageCnt junk = some p) :
    p.usedMapPage = base ∧ base ≤ p.base ∧ p.base + p.usedMap.bitCnt = base + pageCnt ∧
      ∀ x < p.usedMap.bitCnt, p.usedMap.has x = false := by
  unfold initPool at h
  dsimp only at h
  split at h
  · cases h
  · rename_i hle
    generalize hbm : (Bitmap.bufSize pageCnt + 4095) / 4096 = bmPages at h hle
    -- the bitmap is for fewer pages than the space was computed for
    have hblock : Bitmap.bufSize (pageCnt - bmPages) ≤ bmPages * 4096 := by
      unfold Bitmap.bufSize byteCnt elemCnt at hbm ⊢
      omega
    obtain ⟨usedMap, hcreate, hbits, hclear⟩ :=
      Bitmap.createInBuf_spec (by omega) hblock junk
    rw [hcreate] at h
    obtain rfl := Option.some.inj h
    refine ⟨rfl, Nat.le_add_right .., ?_, ?_⟩
    · show base + bmPages + usedMap.bitCnt = base + pageCnt
      omega
    · intro x hx
      have hx : x < usedMap.bitCnt := hx
      exact hclear x (by omega)

/-- What `palloc_init` leaves, if it does not panic: pools in the memory above 1 MB, with all pages free. -/
lemma pallocInit_spec {initRamPages userPageLimit : ℕ} (hlo : 256 ≤ initRamPages) (hhi : initRamPages ≤ 16384)
    {junk : PoolId → ℕ → BitVec 32}
    (h : pallocInit initRamPages userPageLimit junk = some pools) :
    PoolLayout pools ∧ (∀ p, ∀ x < (pools p).usedMap.bitCnt, (pools p).usedMap.has x = false) ∧
      ptov 256 ≤ (pools .kernel).usedMapPage ∧
      (pools .user).base + (pools .user).usedMap.bitCnt ≤ ptov initRamPages := by
  unfold pallocInit ptov at h
  generalize huser : (if (0xc0000 + initRamPages - (0xc0000 + 256)) / 2 > userPageLimit then userPageLimit
    else (0xc0000 + initRamPages - (0xc0000 + 256)) / 2) = userPages at h
  have hle : userPages ≤ initRamPages - 256 := by
    split at huser <;> omega
  obtain ⟨kernel, hkernel, h⟩ := Option.bind_eq_some_iff.mp h
  obtain ⟨user, huserPool, h⟩ := Option.bind_eq_some_iff.mp h
  obtain rfl := Option.some.inj h
  obtain ⟨hkmap, hkbase, hkend, hkclear⟩ := initPool_spec (by omega) hkernel
  obtain ⟨humap, hubase, huend, huclear⟩ := initPool_spec (by omega) huserPool
  refine ⟨⟨?_, ?_, ?_, ?_⟩, ?_, ?_, ?_⟩
  · show kernel.usedMapPage ≤ kernel.base
    omega
  · show kernel.base + kernel.usedMap.bitCnt ≤ user.usedMapPage
    omega
  · show user.usedMapPage ≤ user.base
    omega
  · intro p
    cases p with
    | kernel =>
      show kernel.usedMap.bitCnt < 2 ^ 31
      omega
    | user =>
      show user.usedMap.bitCnt < 2 ^ 31
      omega
  · intro p
    cases p with
    | kernel => exact hkclear
    | user => exact huclear
  · show 0xc0000 + 256 ≤ kernel.usedMapPage
    omega
  · show user.base + user.usedMap.bitCnt ≤ 0xc0000 + initRamPages
    omega

end OsLabs.Threads
