import OsLabs.Lib.Ensures
import OsLabs.Lib.Ownership
import OsLabs.Threads.Palloc

/-!
# Page ownership under every interleaving

`palloc_get_multiple` and `palloc_free_multiple` by any number of threads. Testing a bit is one step and setting a bit is
one step. A scan runs under the lock of its pool; freeing takes no lock, so bits are cleared in the middle of a scan.

Only the thread that has the lock sets bits. So a bit that the scan has seen clear stays clear until the scan itself sets
it (`PallocPc.Ok`). What a thread has set or not yet cleared and what is owned are then held by one holder each, and their
bits are set: this is `Ownership` of the bits by `Holder`s.
-/

namespace OsLabs.Threads

open Lib LibKernel Function

/-! ## The code -/

/-- Pages that `palloc_get_multiple` returned: the first one, how many, and the pool they were asked from. -/
structure PageRange where
  pool : PoolId
  pages : ℕ
  pageCnt : ℕ
deriving DecidableEq

/-- Where a thread is. Bits are given by the first bit of a group, `i`, and the bit inside of it, `j`. -/
inductive PallocPc where
  | outside
  /-- In `palloc_get_multiple`, before the lock. -/
  | acquire (p : PoolId) (pageCnt : ℕ)
  /-- In `bitmap_scan`, before the test of bit `i + j`. -/
  | scan (p : PoolId) (pageCnt i j : ℕ)
  /-- In `bitmap_set_multiple`, before bit `i + j` is set. -/
  | mark (p : PoolId) (pageCnt i j : ℕ)
  /-- Before the release of the lock, with the result of `bitmap_scan_and_flip`. -/
  | release (p : PoolId) (pageCnt : ℕ) (pageIdx : Option ℕ)
  /-- In `bitmap_all`, called by `palloc_free_multiple`, before the test of bit `i + j`. -/
  | check (p : PoolId) (pageCnt i j : ℕ)
  /-- In `bitmap_set_multiple`, called by `palloc_free_multiple`, before bit `i + j` is cleared. -/
  | clear (p : PoolId) (pageCnt i j : ℕ)
deriving DecidableEq

/-- The pools, their locks, the pages that were given out, and the position of every thread. -/
structure Palloc (T : Type) where
  pools : PoolId → Pool
  lock : PoolId → Option T
  owned : List PageRange
  pc : T → PallocPc

/-- The assertions. -/
inductive PallocAssert where
  /-- One of `bitmap.c`. -/
  | bitmap
  /-- `NOT_REACHED` in `palloc_free_multiple`: the page is in no pool. -/
  | notReached
  /-- The assertion about `bitmap_all` in `palloc_free_multiple`. -/
  | allSet
deriving DecidableEq

variable {T : Type} [DecidableEq T] {x : PoolId × ℕ} {r : PageRange}

def Palloc.goto (s : Palloc T) (t : T) (pc : PallocPc) : Palloc T :=
  { s with pc := update s.pc t pc }

def Palloc.setMap (s : Palloc T) (p : PoolId) (usedMap : Bitmap) : Palloc T :=
  { s with pools := update s.pools p { s.pools p with usedMap } }

/-- The loop of `bitmap_scan` at group `i`: the group is tested if it is in the bitmap. -/
def scanFrom (bitCnt : ℕ) (p : PoolId) (pageCnt i : ℕ) : PallocPc :=
  if i + pageCnt ≤ bitCnt then .scan p pageCnt i 0 else .release p pageCnt none

/-- The pool that `palloc_free_multiple` finds for a page. -/
def poolOf (pools : PoolId → Pool) (page : ℕ) : Option PoolId :=
  if (pools .kernel).hasPage page then some .kernel
  else if (pools .user).hasPage page then some .user
  else none

/-- The next step of a thread. -/
def pallocStep (s : Palloc T) (t : T) : Except (Halt PallocAssert) (Palloc T) :=
  match s.pc t with
  | .outside => .error .disabled
  | .acquire p pageCnt =>
    if s.lock p ≠ none then .error .disabled
    else
      .ok ({ s with lock := update s.lock p (some t) }.goto t
        (scanFrom (s.pools p).usedMap.bitCnt p pageCnt 0))
  | .scan p pageCnt i j =>
    match (s.pools p).usedMap.test (i + j) with
    | none => .error (.fault .bitmap)
    | some true => .ok (s.goto t (scanFrom (s.pools p).usedMap.bitCnt p pageCnt (i + 1)))
    | some false => .ok (s.goto t (if j + 1 < pageCnt then .scan p pageCnt i (j + 1) else .mark p pageCnt i 0))
  | .mark p pageCnt i j =>
    match (s.pools p).usedMap.set (i + j) true with
    | none => .error (.fault .bitmap)
    | some usedMap =>
      .ok ((s.setMap p usedMap).goto t
        (if j + 1 < pageCnt then .mark p pageCnt i (j + 1) else .release p pageCnt (some i)))
  | .release p pageCnt pageIdx =>
    let owned := match pageIdx with
      | none => s.owned
      | some i => ⟨p, (s.pools p).base + i, pageCnt⟩ :: s.owned
    .ok ({ s with lock := update s.lock p none, owned }.goto t .outside)
  | .check p pageCnt i j =>
    match (s.pools p).usedMap.test (i + j) with
    | none => .error (.fault .bitmap)
    | some false => .error (.fault .allSet)
    | some true => .ok (s.goto t (if j + 1 < pageCnt then .check p pageCnt i (j + 1) else .clear p pageCnt i 0))
  | .clear p pageCnt i j =>
    match (s.pools p).usedMap.set (i + j) false with
    | none => .error (.fault .bitmap)
    | some usedMap =>
      .ok ((s.setMap p usedMap).goto t (if j + 1 < pageCnt then .clear p pageCnt i (j + 1) else .outside))

/-- `palloc_free_multiple` up to the first test. The assertions are those of `bitmap_contains`, whose sum is one of
`size_t`. -/
def pallocFree (s : Palloc T) (t : T) (r : PageRange) : Except (Halt PallocAssert) (Palloc T) :=
  if r.pageCnt = 0 then .ok { s with owned := s.owned.erase r }
  else
    match poolOf s.pools r.pages with
    | none => .error (.fault .notReached)
    | some p =>
      let pageIdx := r.pages - (s.pools p).base
      let bitCnt := (s.pools p).usedMap.bitCnt
      if pageIdx ≤ bitCnt ∧ (pageIdx + r.pageCnt) % 2 ^ 32 ≤ bitCnt then
        .ok ({ s with owned := s.owned.erase r }.goto t (.check p r.pageCnt pageIdx 0))
      else .error (.fault .bitmap)

/-- The steps of the allocator. -/
inductive PallocAction (T : Type) where
  /-- A call of `palloc_get_multiple`. -/
  | get (t : T) (p : PoolId) (pageCnt : ℕ)
  /-- A call of `palloc_free_multiple`, on pages that are owned. -/
  | free (t : T) (r : PageRange)
  /-- A step inside of a call. -/
  | step (t : T)

def pallocExec (s : Palloc T) : PallocAction T → Except (Halt PallocAssert) (Palloc T)
  | .get t p pageCnt =>
    if s.pc t ≠ .outside then .error .disabled
    else if pageCnt = 0 then .ok s
    else .ok (s.goto t (.acquire p pageCnt))
  | .free t r =>
    if s.pc t ≠ .outside ∨ r ∉ s.owned then .error .disabled
    else pallocFree s t r
  | .step t => pallocStep s t

/-- The allocator after `palloc_init`. -/
def pallocStart (pools : PoolId → Pool) : Palloc T where
  pools
  lock _ := none
  owned := []
  pc _ := .outside

def pallocMachine (pools : PoolId → Pool) : Machine (Palloc T) (PallocAction T) :=
  .ofExec (fun s => s = pallocStart pools) pallocExec

/-! ## Who holds which bits -/

/-- The bit of a page. -/
def Palloc.bit (s : Palloc T) (x : PoolId × ℕ) : Prop :=
  (s.pools x.1).usedMap.has x.2 = true

/-- The number of pages in a pool. -/
def Palloc.cnt (s : Palloc T) (p : PoolId) : ℕ :=
  (s.pools p).usedMap.bitCnt

/-- The bits that a thread has set and not given out, or has taken back and not cleared. -/
def PallocPc.Holds : PallocPc → PoolId × ℕ → Prop
  | .mark p _ i j, x => x.1 = p ∧ i ≤ x.2 ∧ x.2 < i + j
  | .release p pageCnt (some i), x => x.1 = p ∧ i ≤ x.2 ∧ x.2 < i + pageCnt
  | .check p pageCnt i _, x => x.1 = p ∧ i ≤ x.2 ∧ x.2 < i + pageCnt
  | .clear p pageCnt i j, x => x.1 = p ∧ i + j ≤ x.2 ∧ x.2 < i + pageCnt
  | _, _ => False

/-- The range has the page of this bit. -/
def PageRange.HasBit (r : PageRange) (pools : PoolId → Pool) (x : PoolId × ℕ) : Prop :=
  x.1 = r.pool ∧ r.pages ≤ (pools x.1).base + x.2 ∧ (pools x.1).base + x.2 < r.pages + r.pageCnt

/-- What can hold bits. -/
inductive Holder (T : Type) where
  | range (r : PageRange)
  | thread (t : T)

/-- The bits of a holder. -/
def Palloc.owns (s : Palloc T) : Holder T → PoolId × ℕ → Prop
  | .range r, x => r ∈ s.owned ∧ r.HasBit s.pools x
  | .thread t, x => (s.pc t).Holds x

/-- The pool whose lock the thread has. -/
def PallocPc.lock : PallocPc → Option PoolId
  | .scan p _ _ _ | .mark p _ _ _ | .release p _ _ => some p
  | _ => none

/-- What is known at a position: the group is in the bitmap, and the bits that the scan has seen and not set are clear. -/
def PallocPc.Ok (s : Palloc T) : PallocPc → Prop
  | .outside => True
  | .acquire _ pageCnt => 0 < pageCnt
  | .scan p pageCnt i j => j < pageCnt ∧ i + pageCnt ≤ s.cnt p ∧ ∀ x, i ≤ x → x < i + j → ¬s.bit (p, x)
  | .mark p pageCnt i j => j < pageCnt ∧ i + pageCnt ≤ s.cnt p ∧ ∀ x, i + j ≤ x → x < i + pageCnt → ¬s.bit (p, x)
  | .release p pageCnt pageIdx => 0 < pageCnt ∧ ∀ i, pageIdx = some i → i + pageCnt ≤ s.cnt p
  | .check p pageCnt i j | .clear p pageCnt i j => j < pageCnt ∧ i + pageCnt ≤ s.cnt p

/-- The range is a part of its pool. -/
def PageRange.Inside (r : PageRange) (pools : PoolId → Pool) : Prop :=
  0 < r.pageCnt ∧ (pools r.pool).base ≤ r.pages ∧
    r.pages + r.pageCnt ≤ (pools r.pool).base + (pools r.pool).usedMap.bitCnt

/-- What every reachable state satisfies. -/
structure PallocInv (s : Palloc T) : Prop where
  layout : PoolLayout s.pools
  nodup : s.owned.Nodup
  inside : ∀ r ∈ s.owned, r.Inside s.pools
  ok : ∀ t, (s.pc t).Ok s
  lock : ∀ t p, (s.pc t).lock = some p → s.lock p = some t
  own : Ownership s.owns s.bit Set.univ

/-! ## Frames -/

section Frame

variable {s s' : Palloc T}

variable {pc : PallocPc} {t : T}

omit [DecidableEq T] in
/-- A position stays good when no bit is set in the pool whose lock the thread has. -/
lemma PallocPc.Ok.mono (h : pc.Ok s) (hcnt : ∀ p, s'.cnt p = s.cnt p)
    (hbit : ∀ x, pc.lock = some x.1 → s'.bit x → s.bit x) : pc.Ok s' := by
  cases pc with
  | outside => trivial
  | acquire p pageCnt => exact h
  | scan p pageCnt i j | mark p pageCnt i j =>
    obtain ⟨hj, hle, hclear⟩ := h
    refine ⟨hj, ?_, fun x hlo hhi hset => hclear x hlo hhi (hbit (p, x) rfl hset)⟩
    rw [hcnt]
    exact hle
  | release p pageCnt pageIdx =>
    refine ⟨h.1, fun i hi => ?_⟩
    rw [hcnt]
    exact h.2 i hi
  | check p pageCnt i j | clear p pageCnt i j =>
    refine ⟨h.1, ?_⟩
    rw [hcnt]
    exact h.2

lemma Palloc.goto_pc_self (s : Palloc T) (t : T) (pc : PallocPc) : (s.goto t pc).pc t = pc :=
  update_self ..

lemma Palloc.goto_pc_of_ne {u : T} (h : u ≠ t) (pc) : (s.goto t pc).pc u = s.pc u :=
  update_of_ne h ..

/-- A property of all positions, after one thread has moved. -/
lemma Palloc.goto_forall {P : T → PallocPc → Prop} (hself : P t pc) (hother : ∀ u, u ≠ t → P u (s.pc u))
    (u : T) : P u ((s.goto t pc).pc u) := by
  by_cases hu : u = t
  · subst hu
    rw [Palloc.goto_pc_self]
    exact hself
  · rw [Palloc.goto_pc_of_ne hu]
    exact hother u hu

lemma Palloc.owns_goto {u : T} (hx : (s.goto t pc).owns (.thread u) x) :
    u = t ∧ pc.Holds x ∨ u ≠ t ∧ (s.pc u).Holds x := by
  by_cases hu : u = t
  · subst hu
    rw [Palloc.owns, Palloc.goto_pc_self] at hx
    exact Or.inl ⟨rfl, hx⟩
  · rw [Palloc.owns, Palloc.goto_pc_of_ne hu] at hx
    exact Or.inr ⟨hu, hx⟩

/-- A thread moves on without a change of the bits, and holds no more than before. -/
lemma PallocInv.goto (hs : PallocInv s) (hok : pc.Ok s) (hholds : ∀ x, pc.Holds x → (s.pc t).Holds x)
    (hlock : ∀ p, pc.lock = some p → s.lock p = some t) : PallocInv (s.goto t pc) where
  layout := hs.layout
  nodup := hs.nodup
  inside := hs.inside
  ok u := by
    refine Palloc.goto_forall (P := fun _ pc' => pc'.Ok (s.goto t pc)) ?_ (fun v _ => ?_) u
    · exact hok.mono (fun _ => rfl) fun _ _ h => h
    · exact (hs.ok v).mono (fun _ => rfl) fun _ _ h => h
  lock u := Palloc.goto_forall (P := fun u pc' => ∀ p, pc'.lock = some p → s.lock p = some u) hlock
    (fun v _ => hs.lock v) u
  own := by
    refine hs.own.congr fun h _ x hx => ?_
    cases h with
    | range r => exact hx
    | thread u =>
      rcases Palloc.owns_goto hx with ⟨rfl, hnew⟩ | ⟨_, hx⟩
      · exact hholds x hnew
      · exact hx

/-- One bit is set to `value`, and nothing else changes in the pools. -/
structure SetsBit (s s' : Palloc T) (y : PoolId × ℕ) (value : Bool) : Prop where
  usedMapPage : ∀ p, (s'.pools p).usedMapPage = (s.pools p).usedMapPage
  base : ∀ p, (s'.pools p).base = (s.pools p).base
  cnt : ∀ p, s'.cnt p = s.cnt p
  self : s'.bit y ↔ value = true
  other : ∀ x, x ≠ y → (s'.bit x ↔ s.bit x)

omit [DecidableEq T] in
lemma setMap_spec (s : Palloc T) {p : PoolId} {i : ℕ} (hi : i < s.cnt p) (value : Bool) :
    ∃ usedMap, (s.pools p).usedMap.set i value = some usedMap ∧ SetsBit s (s.setMap p usedMap) (p, i) value := by
  obtain ⟨usedMap, hset, hcnt, hhas⟩ := Bitmap.set_spec hi value
  have hpool (q : PoolId) : (s.setMap p usedMap).pools q =
      { s.pools q with usedMap := if q = p then usedMap else (s.pools q).usedMap } := by
    by_cases hq : q = p
    · rw [hq, if_pos rfl]
      exact update_self ..
    · rw [if_neg hq]
      exact update_of_ne hq ..
  refine ⟨usedMap, hset, fun q => ?_, fun q => ?_, fun q => ?_, ?_, fun x hx => ?_⟩
  · rw [hpool]
  · rw [hpool]
  · rw [Palloc.cnt, hpool]
    dsimp only
    split
    · rename_i hq
      rw [hq]
      exact hcnt
    · rfl
  · rw [Palloc.bit, hpool]
    dsimp only
    rw [if_pos rfl, hhas, if_pos rfl]
  · rw [Palloc.bit, hpool]
    dsimp only
    split
    · rename_i hq
      have hne : x.2 ≠ i := fun h => hx (Prod.ext hq h)
      rw [hhas, if_neg hne, Palloc.bit, hq]
    · rfl

variable {y : PoolId × ℕ} {value : Bool}

section Set

variable (h : SetsBit s s' y value)
include h

omit [DecidableEq T] in
lemma SetsBit.layout (hs : PoolLayout s.pools) : PoolLayout s'.pools := by
  have hcnt (p : PoolId) : (s'.pools p).usedMap.bitCnt = (s.pools p).usedMap.bitCnt := h.cnt p
  constructor
  · rw [h.usedMapPage, h.base]
    exact hs.kernelMap
  · rw [h.usedMapPage, h.base, hcnt]
    exact hs.kernelEnd
  · rw [h.usedMapPage, h.base]
    exact hs.userMap
  · intro p
    rw [hcnt]
    exact hs.small p

omit [DecidableEq T] in
lemma SetsBit.inside (hr : r.Inside s.pools) : r.Inside s'.pools := by
  have hcnt (p : PoolId) : (s'.pools p).usedMap.bitCnt = (s.pools p).usedMap.bitCnt := h.cnt p
  unfold PageRange.Inside
  rw [h.base, hcnt]
  exact hr

omit [DecidableEq T] in
lemma SetsBit.hasBit :
    r.HasBit s'.pools x ↔ r.HasBit s.pools x := by
  unfold PageRange.HasBit
  rw [h.base]

/-- What the holders have after a thread has changed a bit and moved. -/
lemma SetsBit.owns (howned : s'.owned = s.owned) (hpc : s'.pc = s.pc)
    (i : Holder T) (x) (hx : (s'.goto t pc).owns i x) :
    i ≠ .thread t ∧ s.owns i x ∨ i = .thread t ∧ pc.Holds x := by
  cases i with
  | range r =>
    refine Or.inl ⟨by simp, ?_⟩
    obtain ⟨hmem, hbit⟩ := hx
    have hmem : r ∈ s'.owned := hmem
    rw [howned] at hmem
    exact ⟨hmem, h.hasBit.mp hbit⟩
  | thread u =>
    rcases Palloc.owns_goto hx with ⟨rfl, hnew⟩ | ⟨hu, hx⟩
    · exact Or.inr ⟨rfl, hnew⟩
    · rw [hpc] at hx
      exact Or.inl ⟨by simpa using hu, hx⟩

end Set

end Frame

/-! ## The steps -/

variable {s : Palloc T}

variable {t : T} {p : PoolId} {pageCnt i j : ℕ} {pools : PoolId → Pool}

section PallocInv

variable (hs : PallocInv s) {pc : PallocPc}
include hs

/-- A thread that changes a bit and moves, if its new position is right and what the others have seen stays. -/
lemma PallocInv.setBit {usedMap : Bitmap} {value : Bool}
    (hsets : SetsBit s (s.setMap p usedMap) (p, i) value) (hok : pc.Ok (s.setMap p usedMap))
    (hseen : ∀ v ≠ t, ∀ x, (s.pc v).lock = some x.1 → (s.setMap p usedMap).bit x → s.bit x)
    (hlock : ∀ q, pc.lock = some q → s.lock q = some t)
    (hown : Ownership ((s.setMap p usedMap).goto t pc).owns (s.setMap p usedMap).bit Set.univ) :
    PallocInv ((s.setMap p usedMap).goto t pc) := by
  refine ⟨hsets.layout hs.layout, hs.nodup, fun r hr => hsets.inside (hs.inside r hr), ?_, ?_, hown⟩
  · exact Palloc.goto_forall
      (hok.mono (fun _ => rfl) fun _ _ h => h) fun v hv => (hs.ok v).mono hsets.cnt (hseen v hv)
  · exact Palloc.goto_forall (P := fun u pc' => ∀ q, pc'.lock = some q → s.lock q = some u) hlock fun v _ => hs.lock v

omit [DecidableEq T] in
lemma PallocInv.pc_ok (hpc : s.pc t = pc) : pc.Ok s :=
  hpc ▸ hs.ok t

/-- The thread that has the lock sets a bit that it has seen clear. -/
lemma PallocInv.mark (hpc : s.pc t = .mark p pageCnt i j) :
    Ensures (fun _ => False) PallocInv (pallocStep s t) := by
  obtain ⟨hj, hle, hclear⟩ := hs.pc_ok hpc
  have hlock : s.lock p = some t := hs.lock t p (by rw [hpc]; rfl)
  obtain ⟨usedMap, hset, hsets⟩ := setMap_spec s (p := p) (i := i + j) (by omega) true
  have hfree : ¬s.bit (p, i + j) := hclear (i + j) (by omega) (by omega)
  rw [pallocStep, hpc]
  dsimp only
  rw [hset]
  generalize hnext : (if j + 1 < pageCnt then PallocPc.mark p pageCnt i (j + 1) else .release p pageCnt (some i)) = pc
  -- the next position holds the bit in addition
  have hholds (x : PoolId × ℕ) (hx : pc.Holds x) : (s.pc t).Holds x ∨ x = (p, i + j) := by
    have hx : x.1 = p ∧ i ≤ x.2 ∧ x.2 < i + (j + 1) := by
      rw [← hnext] at hx
      split at hx
      · exact hx
      · obtain ⟨hp, hlo, hhi⟩ := hx
        exact ⟨hp, hlo, by omega⟩
    rw [hpc]
    by_cases hlast : x.2 = i + j
    · exact Or.inr (Prod.ext hx.1 hlast)
    · exact Or.inl ⟨hx.1, hx.2.1, by omega⟩
  refine hs.setBit hsets ?_ (fun v hv x hx hbit => ?_) (fun q hq => ?_) ?_
  · rw [← hnext]
    split
    · refine ⟨by omega, ?_, fun x hlo hhi hbit => ?_⟩
      · rw [hsets.cnt]
        exact hle
      · have hne : (p, x) ≠ (p, i + j) := by
          intro heq
          have := congrArg Prod.snd heq
          omega
        exact hclear x (by omega) hhi ((hsets.other _ hne).mp hbit)
    · refine ⟨by omega, fun k hk => ?_⟩
      obtain rfl := Option.some.inj hk
      rw [hsets.cnt]
      exact hle
  · -- another thread that scans has the lock of the other pool
    have hne : x ≠ (p, i + j) := by
      rintro rfl
      have hlock' := hs.lock v p hx
      rw [hlock] at hlock'
      exact hv (Option.some.inj hlock').symm
    exact (hsets.other x hne).mp hbit
  · have hq : some p = some q := by
      rw [← hnext] at hq
      split at hq <;> exact hq
    rw [← Option.some.inj hq]
    exact hlock
  · refine hs.own.take (k := .thread t) hfree (fun k x hx => ?_) (fun x hx => ?_) (hsets.self.mpr rfl)
    · rcases hsets.owns rfl rfl k x hx with ⟨_, hold⟩ | ⟨rfl, hnew⟩
      · exact Or.inl hold
      · rcases hholds x hnew with hold | rfl
        · exact Or.inl hold
        · exact Or.inr ⟨rfl, rfl⟩
    · by_cases hxy : x = (p, i + j)
      · rw [hxy]
        exact hsets.self.mpr rfl
      · exact (hsets.other x hxy).mpr hx

/-- A thread clears a bit of the pages that it frees. -/
lemma PallocInv.clear (hpc : s.pc t = .clear p pageCnt i j) :
    Ensures (fun _ => False) PallocInv (pallocStep s t) := by
  obtain ⟨hj, hle⟩ := hs.pc_ok hpc
  obtain ⟨usedMap, hset, hsets⟩ := setMap_spec s (p := p) (i := i + j) (by omega) false
  rw [pallocStep, hpc]
  dsimp only
  rw [hset]
  generalize hnext : (if j + 1 < pageCnt then PallocPc.clear p pageCnt i (j + 1) else .outside) = pc
  have hholds (x : PoolId × ℕ) (hx : pc.Holds x) : (s.pc t).Holds x ∧ x ≠ (p, i + j) := by
    rw [← hnext] at hx
    split at hx
    · obtain ⟨hp, hlo, hhi⟩ := hx
      rw [hpc]
      refine ⟨⟨hp, by omega, hhi⟩, ?_⟩
      rintro rfl
      omega
    · cases hx
  refine hs.setBit hsets ?_ (fun v _ x _ hx => ?_) (fun q hq => ?_) ?_
  · rw [← hnext]
    split
    · refine ⟨by omega, ?_⟩
      rw [hsets.cnt]
      exact hle
    · trivial
  · -- clearing a bit takes nothing from a scan
    by_cases hxy : x = (p, i + j)
    · rw [hxy] at hx
      cases hsets.self.mp hx
    · exact (hsets.other x hxy).mp hx
  · rw [← hnext] at hq
    split at hq <;> cases hq
  · refine hs.own.drop (k := .thread t) (y := (p, i + j)) (Set.mem_univ _) ?_ (fun k x hx => ?_) ?_ (fun x hxy hx => ?_)
    · show (s.pc t).Holds (p, i + j)
      rw [hpc]
      exact ⟨rfl, Nat.le_refl _, by show i + j < i + pageCnt; omega⟩
    · rcases hsets.owns rfl rfl k x hx with ⟨_, hold⟩ | ⟨rfl, hnew⟩
      · exact hold
      · exact (hholds x hnew).1
    · intro hown
      rcases hsets.owns rfl rfl _ _ hown with ⟨hne, _⟩ | ⟨_, hnew⟩
      · exact hne rfl
      · exact (hholds _ hnew).2 rfl
    · exact (hsets.other x hxy).mpr hx

omit [DecidableEq T] hs in
/-- The loop of `bitmap_scan` goes on with the next group or ends. -/
lemma scanFrom_ok (hpos : 0 < pageCnt) (i : ℕ) : (scanFrom (s.cnt p) p pageCnt i).Ok s := by
  unfold scanFrom
  split
  · rename_i hle
    exact ⟨hpos, hle, fun x hlo hhi => by omega⟩
  · exact ⟨hpos, fun k hk => by cases hk⟩

omit hs in
lemma scanFrom_lock (bitCnt : ℕ) (p) (pageCnt i : ℕ) : (scanFrom bitCnt p pageCnt i).lock = some p := by
  unfold scanFrom
  split <;> rfl

omit hs in
lemma scanFrom_holds {bitCnt : ℕ} : ¬(scanFrom bitCnt p pageCnt i).Holds x := by
  unfold scanFrom
  split <;> exact fun h => h

/-- A bit of the group is tested. -/
lemma PallocInv.scan (hpc : s.pc t = .scan p pageCnt i j) :
    Ensures (fun _ => False) PallocInv (pallocStep s t) := by
  obtain ⟨hj, hle, hclear⟩ := hs.pc_ok hpc
  have hlock : s.lock p = some t := hs.lock t p (by rw [hpc]; rfl)
  have hlt : i + j < (s.pools p).usedMap.bitCnt := by
    show i + j < s.cnt p
    omega
  rw [pallocStep, hpc]
  dsimp only
  rw [Bitmap.test_eq hlt]
  cases hbit : (s.pools p).usedMap.has (i + j) with
  | true =>
    refine hs.goto (scanFrom_ok (by omega) (i + 1)) (fun x hx => absurd hx scanFrom_holds) fun q hq => ?_
    rw [scanFrom_lock] at hq
    rw [← Option.some.inj hq]
    exact hlock
  | false =>
    have hseen (x : ℕ) (hlo : i ≤ x) (hhi : x < i + (j + 1)) : ¬s.bit (p, x) := by
      by_cases hx : x = i + j
      · rw [hx]
        simp [Palloc.bit, hbit]
      · exact hclear x hlo (by omega)
    dsimp only
    split
    · refine hs.goto ⟨by omega, hle, hseen⟩ (fun x hx => absurd hx fun h => h) fun q hq => ?_
      rw [← Option.some.inj hq]
      exact hlock
    · refine hs.goto ⟨by omega, hle, fun x hlo hhi => hseen x (by omega) (by omega)⟩ (fun x hx => ?_) fun q hq => ?_
      · obtain ⟨_, hlo, hhi⟩ := hx
        omega
      · rw [← Option.some.inj hq]
        exact hlock

/-- The bits of the pages that a thread frees are set. -/
lemma PallocInv.check (hpc : s.pc t = .check p pageCnt i j) :
    Ensures (fun _ => False) PallocInv (pallocStep s t) := by
  obtain ⟨hj, hle⟩ := hs.pc_ok hpc
  have hlt : i + j < (s.pools p).usedMap.bitCnt := by
    show i + j < s.cnt p
    omega
  have hset : (s.pools p).usedMap.has (i + j) = true := by
    refine hs.own.taken (.thread t) (Set.mem_univ _) (p, i + j) ?_
    show (s.pc t).Holds (p, i + j)
    rw [hpc]
    exact ⟨rfl, Nat.le_add_right .., by show i + j < i + pageCnt; omega⟩
  rw [pallocStep, hpc]
  dsimp only
  rw [Bitmap.test_eq hlt, hset]
  dsimp only
  split
  · refine hs.goto ⟨by omega, hle⟩ (fun x hx => ?_) fun q hq => by cases hq
    rw [hpc]
    exact hx
  · refine hs.goto ⟨by omega, hle⟩ (fun x hx => ?_) fun q hq => by cases hq
    rw [hpc]
    exact hx

/-- The lock is free, so nobody else is between its acquisition and its release. -/
lemma PallocInv.acquire (hpc : s.pc t = .acquire p pageCnt) :
    Ensures (fun _ => False) PallocInv (pallocStep s t) := by
  have hpos := hs.pc_ok hpc
  rw [pallocStep, hpc]
  refine Ensures.ite (fun _ => .disabled) fun hfree => ?_
  have hfree : s.lock p = none := not_not.mp hfree
  have hs' : PallocInv { s with lock := update s.lock p (some t) } := by
    refine ⟨hs.layout, hs.nodup, hs.inside, fun u => (hs.ok u).mono (fun _ => rfl) fun _ _ h => h, ?_, hs.own⟩
    intro u q hq
    have hne : q ≠ p := by
      rintro rfl
      have hlock := hs.lock u q hq
      rw [hfree] at hlock
      cases hlock
    show update s.lock p (some t) q = some u
    rw [update_of_ne hne]
    exact hs.lock u q hq
  refine hs'.goto (scanFrom_ok hpos 0) (fun x hx => absurd hx scanFrom_holds) fun q hq => ?_
  rw [scanFrom_lock] at hq
  rw [← Option.some.inj hq]
  exact update_self ..

/-- The lock is released by the thread that has it. -/
lemma PallocInv.unlock (hlock : s.lock p = some t) (hpc : pc.lock = none)
    {owned : List PageRange} (hnodup : owned.Nodup) (hinside : ∀ r ∈ owned, r.Inside s.pools) (hok : pc.Ok s)
    (hown : Ownership ({ s with lock := update s.lock p none, owned }.goto t pc).owns s.bit Set.univ) :
    PallocInv ({ s with lock := update s.lock p none, owned }.goto t pc) := by
  refine ⟨hs.layout, hnodup, hinside, fun u => ?_, fun u => ?_, hown⟩
  · refine Palloc.goto_forall (P := fun _ pc' => pc'.Ok
      ({ s with lock := update s.lock p none, owned }.goto t pc)) ?_ (fun v _ => ?_) u
    · exact hok.mono (fun _ => rfl) fun _ _ h => h
    · exact (hs.ok v).mono (fun _ => rfl) fun _ _ h => h
  · refine Palloc.goto_forall (P := fun u pc' => ∀ q, pc'.lock = some q →
      update s.lock p none q = some u) ?_ (fun v hv => ?_) u
    · intro q hq
      rw [hpc] at hq
      cases hq
    · intro q hq
      have hlock' := hs.lock v q hq
      have hne : q ≠ p := by
        rintro rfl
        rw [hlock] at hlock'
        exact hv (Option.some.inj hlock').symm
      rw [update_of_ne hne]
      exact hlock'

/-- The lock is released, and the pages that were found are given out. -/
lemma PallocInv.release {pageIdx : Option ℕ} (hpc : s.pc t = .release p pageCnt pageIdx) :
    Ensures (fun _ => False) PallocInv (pallocStep s t) := by
  obtain ⟨hpos, hle⟩ := hs.pc_ok hpc
  have hlock : s.lock p = some t := hs.lock t p (by rw [hpc]; rfl)
  rw [pallocStep, hpc]
  cases pageIdx with
  | none =>
    refine hs.unlock hlock rfl hs.nodup hs.inside trivial (hs.own.congr fun h _ x hx => ?_)
    cases h with
    | range r => exact hx
    | thread u =>
      rcases Palloc.owns_goto hx with ⟨_, hx⟩ | ⟨_, hx⟩
      · cases hx
      · exact hx
  | some i =>
    have hle : i + pageCnt ≤ s.cnt p := hle i rfl
    obtain ⟨r, hr⟩ : ∃ r, r = PageRange.mk p ((s.pools p).base + i) pageCnt := ⟨_, rfl⟩
    dsimp only
    rw [← hr]
    -- the bits of the range are those that the thread holds
    have hbits (x : PoolId × ℕ) : r.HasBit s.pools x ↔ (s.pc t).Holds x := by
      rw [hpc, hr]
      unfold PageRange.HasBit PallocPc.Holds
      dsimp only
      constructor
      · rintro ⟨hp, hlo, hhi⟩
        rw [hp] at hlo hhi
        exact ⟨hp, by omega, by omega⟩
      · rintro ⟨hp, hlo, hhi⟩
        rw [hp]
        exact ⟨rfl, by omega, by omega⟩
    have hnew : r ∉ s.owned := by
      intro hmem
      have hfirst : r.HasBit s.pools (p, i) := by
        rw [hbits, hpc]
        exact ⟨rfl, Nat.le_refl i, by show i < i + pageCnt; omega⟩
      have heq := hs.own.unique (.range r) (Set.mem_univ _) (.thread t) (Set.mem_univ _) (p, i) ⟨hmem, hfirst⟩
        ((hbits _).mp hfirst)
      cases heq
    refine hs.unlock hlock rfl (List.nodup_cons.mpr ⟨hnew, hs.nodup⟩) (fun r' hr' => ?_) trivial ?_
    · rcases List.mem_cons.mp hr' with rfl | hmem
      · rw [hr]
        exact ⟨hpos, Nat.le_add_right .., by show (s.pools p).base + i + pageCnt ≤ (s.pools p).base + s.cnt p; omega⟩
      · exact hs.inside r' hmem
    · -- the range gets what the thread held
      refine hs.own.move (k := .thread t) (l := .range r) (Set.mem_univ _) fun h x hx => ?_
      cases h with
      | range r' =>
        obtain ⟨hmem, hbit⟩ := hx
        rcases List.mem_cons.mp hmem with rfl | hmem
        · exact Or.inr ⟨rfl, (hbits x).mp hbit⟩
        · exact Or.inl ⟨by simp, hmem, hbit⟩
      | thread u =>
        rcases Palloc.owns_goto hx with ⟨_, hx⟩ | ⟨hu, hx⟩
        · cases hx
        · exact Or.inl ⟨by simpa using hu, hx⟩

lemma pallocStep_spec (t : T) : Ensures (fun _ => False) PallocInv (pallocStep s t) := by
  cases hpc : s.pc t with
  | outside =>
    rw [pallocStep, hpc]
    exact .disabled
  | acquire p pageCnt => exact hs.acquire hpc
  | scan p pageCnt i j => exact hs.scan hpc
  | mark p pageCnt i j => exact hs.mark hpc
  | release p pageCnt pageIdx => exact hs.release hpc
  | check p pageCnt i j => exact hs.check hpc
  | clear p pageCnt i j => exact hs.clear hpc

omit hs in
/-- A page is found in the pool that it is in. -/
lemma PoolLayout.poolOf (h : PoolLayout pools) {page : ℕ} (hpage : (pools p).hasPage page) :
    poolOf pools page = some p := by
  have hother := (h.disjoint hpage).1
  unfold OsLabs.Threads.poolOf
  cases p with
  | kernel => rw [if_pos hpage]
  | user => rw [if_neg (hother .kernel (by decide)), if_pos hpage]

/-- The caller gives its pages back. -/
lemma PallocInv.free (hpc : s.pc t = .outside) (hr : r ∈ s.owned) :
    Ensures (fun _ => False) PallocInv (pallocFree s t r) := by
  obtain ⟨hpos, hlo, hhi⟩ := hs.inside r hr
  have hpool : poolOf s.pools r.pages = some r.pool := hs.layout.poolOf ⟨hlo, by omega⟩
  unfold pallocFree
  rw [if_neg (by omega), hpool]
  dsimp only
  rw [if_pos (by omega)]
  have hother (r' : PageRange) (hr' : r' ∈ s.owned.erase r) : r' ≠ r ∧ r' ∈ s.owned :=
    (hs.nodup.mem_erase_iff).mp hr'
  refine ⟨hs.layout, hs.nodup.erase r, fun r' hr' => hs.inside r' (hother r' hr').2, fun u => ?_, fun u => ?_, ?_⟩
  · refine Palloc.goto_forall (P := fun _ pc' => pc'.Ok ({ s with owned := s.owned.erase r }.goto t
      (.check r.pool r.pageCnt (r.pages - (s.pools r.pool).base) 0))) ?_ (fun v _ => ?_) u
    · refine ⟨hpos, ?_⟩
      show r.pages - (s.pools r.pool).base + r.pageCnt ≤ (s.pools r.pool).usedMap.bitCnt
      omega
    · exact (hs.ok v).mono (fun _ => rfl) fun _ _ h => h
  · exact Palloc.goto_forall (P := fun u pc' => ∀ q, pc'.lock = some q → s.lock q = some u)
      (fun q hq => by cases hq) (fun v _ => hs.lock v) u
  · refine hs.own.move (k := .range r) (l := .thread t) (Set.mem_univ _) fun h x hx => ?_
    cases h with
    | range r' =>
      obtain ⟨hne, hmem⟩ := hother r' hx.1
      exact Or.inl ⟨by simpa using hne, hmem, hx.2⟩
    | thread u =>
      rcases Palloc.owns_goto hx with ⟨rfl, hp, hlo', hhi'⟩ | ⟨_, hx⟩
      · refine Or.inr ⟨rfl, hr, hp, ?_, ?_⟩
        · rw [hp]
          omega
        · rw [hp]
          omega
      · exact Or.inl ⟨by simp, hx⟩

lemma pallocExec_spec (a : PallocAction T) :
    Ensures (fun _ => False) PallocInv (pallocExec s a) := by
  cases a with
  | get t p pageCnt =>
    refine Ensures.ite (fun _ => .disabled) fun _ => Ensures.ite (fun _ => hs) fun hpos => ?_
    exact hs.goto (Nat.pos_of_ne_zero hpos) (fun x hx => absurd hx fun h => h) fun q hq => by cases hq
  | free t r =>
    refine Ensures.ite (fun _ => .disabled) fun hguard => ?_
    rw [not_or, not_not, not_not] at hguard
    exact hs.free hguard.1 hguard.2
  | step t => exact pallocStep_spec hs t

end PallocInv

omit [DecidableEq T] in
lemma pallocStart_inv (h : PoolLayout pools) : PallocInv (pallocStart pools : Palloc T) where
  layout := h
  nodup := List.nodup_nil
  inside r hr := by cases hr
  ok t := trivial
  lock t p hp := by cases hp
  own := by
    constructor
    · intro i _ x hx
      cases i with
      | range r => cases hx.1
      | thread t => cases hx
    · intro i _ j _ x hx
      cases i with
      | range r => cases hx.1
      | thread t => cases hx

lemma pallocMachine_inv (hlayout : PoolLayout pools) (h : (pallocMachine pools).Reachable s) :
    PallocInv s := by
  refine h.invariant (fun s hs => ?_) fun s a s' _ hs hstep => ?_
  · obtain rfl : s = pallocStart pools := hs
    exact pallocStart_inv hlayout
  · exact (pallocExec_spec hs a).of_eq_ok (Machine.ofExec_step.mp hstep)

/-! ## Ownership of pages -/

/-- The page belongs to the range. -/
def PageRange.HasPage (r : PageRange) (page : ℕ) : Prop :=
  r.pages ≤ page ∧ page < r.pages + r.pageCnt

/-- In every reachable state, for every size of memory and every limit for which `palloc_init` does not panic: no page is
owned twice, an owned page is in the pool that it was asked from, not in the other one and in no bitmap, its bit is set,
and no assertion fails. -/
theorem page_ownership {initRamPages userPageLimit : ℕ} (hlo : 256 ≤ initRamPages) (hhi : initRamPages ≤ 16384)
    {junk : PoolId → ℕ → BitVec 32} {pools : PoolId → Pool}
    (hinit : pallocInit initRamPages userPageLimit junk = some pools) (h : (pallocMachine pools).Reachable s) :
    s.owned.Pairwise (fun r r' => ∀ page, ¬(r.HasPage page ∧ r'.HasPage page)) ∧
      (∀ r ∈ s.owned, ∀ page, r.HasPage page →
        (s.pools r.pool).hasPage page ∧ (∀ q, q ≠ r.pool → ¬(s.pools q).hasPage page) ∧
        (∀ q, ¬(s.pools q).hasMapPage page) ∧
        (s.pools r.pool).usedMap.has (page - (s.pools r.pool).base) = true) ∧
      ∀ a f, pallocExec s a ≠ .error (.fault f) := by
  have hs := pallocMachine_inv (pallocInit_spec hlo hhi hinit).1 h
  have hpage {r : PageRange} (hr : r ∈ s.owned) {page : ℕ} (hp : r.HasPage page) :
      (s.pools r.pool).hasPage page ∧ r.HasBit s.pools (r.pool, page - (s.pools r.pool).base) := by
    obtain ⟨hpos, hlo, hhi⟩ := hs.inside r hr
    obtain ⟨hlo', hhi'⟩ := hp
    refine ⟨⟨by omega, by omega⟩, rfl, ?_, ?_⟩
    · show r.pages ≤ (s.pools r.pool).base + (page - (s.pools r.pool).base)
      omega
    · show (s.pools r.pool).base + (page - (s.pools r.pool).base) < r.pages + r.pageCnt
      omega
  refine ⟨?_, fun r hr page hp => ?_, fun a f hfault => (pallocExec_spec hs a).of_eq_fault hfault⟩
  · -- two ranges with a common page would own its bit, so they are the same
    refine hs.nodup.imp_of_mem fun {r r'} hr hr' hne page hboth => hne ?_
    obtain ⟨hin, hbit⟩ := hpage hr hboth.1
    obtain ⟨hin', hbit'⟩ := hpage hr' hboth.2
    have hpool : r.pool = r'.pool := by
      by_contra hpool
      exact (hs.layout.disjoint hin').1 r.pool hpool hin
    rw [← hpool] at hbit'
    have heq := hs.own.unique (.range r) (Set.mem_univ _) (.range r') (Set.mem_univ _) _ ⟨hr, hbit⟩ ⟨hr', hbit'⟩
    cases heq
    rfl
  · obtain ⟨hin, hbit⟩ := hpage hr hp
    obtain ⟨hother, hmap⟩ := hs.layout.disjoint hin
    exact ⟨hin, hother, hmap, hs.own.taken (.range r) (Set.mem_univ _) _ ⟨hr, hbit⟩⟩

/-- Four free pages: each pool has one page for its bitmap and one to give out. A thread gets the one of the kernel pool. -/
theorem page_ownership_onePage :
    ∃ (pools : PoolId → Pool) (s : Palloc Unit), pallocInit 260 2 (fun _ _ => 0) = some pools ∧
      (pallocMachine pools).run (pallocStart pools)
        [.get () .kernel 1, .step (), .step (), .step (), .step ()] = some s ∧
      s.owned = [⟨.kernel, ptov 257, 1⟩] ∧ (s.pools .kernel).hasPage (ptov 257) ∧
      ∀ f, pallocExec s (.free () ⟨.kernel, ptov 257, 1⟩) ≠ .error (.fault f) := by
  obtain ⟨pools, hinit, s, hrun, howned⟩ :
      ∃ pools, pallocInit 260 2 (fun _ _ => 0) = some pools ∧ ∃ s : Palloc Unit,
        (pallocMachine pools).run (pallocStart pools)
          [.get () .kernel 1, .step (), .step (), .step (), .step ()] = some s ∧
        s.owned = [⟨.kernel, ptov 257, 1⟩] := ⟨_, rfl, _, rfl, rfl⟩
  obtain ⟨_, hpage, hfault⟩ := page_ownership (by decide) (by decide) hinit ⟨_, _, rfl, hrun⟩
  refine ⟨pools, s, hinit, hrun, howned, ?_, hfault _⟩
  exact (hpage ⟨.kernel, ptov 257, 1⟩ (by rw [howned]; exact List.mem_singleton_self _) (ptov 257)
    ⟨Nat.le_refl _, Nat.lt_succ_self _⟩).1

end OsLabs.Threads
