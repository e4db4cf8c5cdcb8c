import OsLabs.Threads.MallocSize

/-!
# `realloc`

The machine of the allocator with `realloc` as one more step, for sizes up to `2 ^ 31`. The contents of a block are the
bytes that it has by `block_size`. A larger size could wrap around in `malloc`, and the copy would go past the new block.
-/

namespace OsLabs.Threads

open Lib LibKernel

/-! ## The code -/

section Code

variable (D : DescsAddr)

/-- `realloc`: the new block, 0 for NULL. -/
def realloc (s : MallocState) (oldBlock : ℕ) (newSize : UInt32) (page : Option ℕ) : MallocM (ℕ × MallocState) :=
  if newSize = 0 then do
    let s ← free D s oldBlock
    return (0, s)
  else do
    let (newBlock, s) ← malloc D s newSize page
    if oldBlock ≠ 0 ∧ newBlock ≠ 0 then do
      let oldSize ← blockSize D s.mem oldBlock
      let minSize := if newSize.toNat < oldSize then newSize.toNat else oldSize
      let s ← free D { s with mem := copyBytes s.mem newBlock oldBlock minSize } oldBlock
      return (newBlock, s)
    else return (newBlock, s)

/-- A call of `realloc` on NULL or a live block, with the live blocks afterwards. -/
def reallocCall (s : MallocState) (p : ℕ) (size : UInt32) (page : Option ℕ) : MallocM (ℕ × MallocState) :=
  if (p = 0 ∨ p ∈ s.live) ∧ size.toNat ≤ 2 ^ 31 then do
    let (q, s) ← realloc D s p size page
    return (q, { s with
      live := if size = 0 then s.live.erase p else if q = 0 then s.live else q :: s.live.erase p })
  else .error .disabled

inductive ReallocAction where
  | heap (a : HeapAction)
  /-- A call of `realloc`, with what `palloc_get_multiple` returns if it is called. -/
  | realloc (p : ℕ) (size : UInt32) (page : Option ℕ)

def reallocExec (s : MallocState) : ReallocAction → MallocM MallocState
  | .heap a => mallocExec D s a
  | .realloc p size page => do
    let (_, s) ← reallocCall D s p size page
    return s

def reallocMachine : Machine MallocState ReallocAction :=
  .ofExec (fun s => ∃ mem, s = mallocStart D mem) (reallocExec D)

end Code

variable {D : DescsAddr} {s : MallocState} {h h' : Heap (Fin 7)}

/-! ## Contents -/

/-- The two states have the same bytes in the block. -/
def SameBlock (D : DescsAddr) (s s' : MallocState) (b : ℕ) : Prop :=
  ∃ n, blockSize D s.mem b = .ok n ∧ blockSize D s'.mem b = .ok n ∧
    ∀ i < n, loadByte s'.mem (b + i) = loadByte s.mem (b + i)

/-- The bytes of a block are those of its words. -/
lemma loadByte_eq_of_words {mem mem' : Words} {x : Piece (Fin 7)} (hx : h.Has sizes x) (hblock : x.IsBlock)
    (hwords : ∀ y, x.start sizes ≤ y → y < x.stop sizes → mem' y = mem y) {i : ℕ}
    (hi : x.start sizes + i < x.stop sizes) : loadByte mem' (x.start sizes + i) = loadByte mem (x.start sizes + i) := by
  have haligned := start_aligned hx hblock
  apply loadByte_congr
  apply hwords
  · omega
  · omega

/-- A block that stays live keeps its contents. -/
lemma Kept.sameBlock {s' : MallocState} (hk : Kept h h' s.mem s'.mem) (hr : Rep D s h) (hr' : Rep D s' h') {b : ℕ}
    (hb : b ∈ h.live) (hb' : b ∈ h'.live) : SameBlock D s s' b := by
  obtain ⟨x, hx, hblock, rfl⟩ := hr.inv.live b hb
  obtain ⟨hx', hwords⟩ := hk x hx hblock hb hb'
  refine ⟨_, hr.blockSize_eq hx hblock, hr'.blockSize_eq hx' hblock, fun i hi => ?_⟩
  exact loadByte_eq_of_words hx hblock hwords (by omega)

/-! ## The copy -/

/-- `memcpy` into a block that was not live before. -/
lemma Rep.copyBytes {s₁ : MallocState} (hk : Kept h h' s.mem s₁.mem) (hr : Rep D s₁ h') {b n : ℕ} (hb : HasBlock h' b n)
    (hlive : b ∈ h'.live) (hnew : b ∉ h.live) (src : ℕ) {m : ℕ} (hm : m ≤ n) :
    Rep D { s₁ with mem := copyBytes s₁.mem b src m } h' ∧ Kept h h' s.mem (copyBytes s₁.mem b src m) := by
  obtain ⟨z, hz, hzblock, rfl, hstop⟩ := hb
  have haligned := start_aligned hz hzblock
  have hframe (y : ℕ) (hy : y < z.start sizes ∨ z.stop sizes ≤ y) :
      Lib.copyBytes s₁.mem (z.start sizes) src m y = s₁.mem y :=
    storeBytes_of_ne fun i hi => by omega
  refine ⟨⟨hr.inv, hr.pool, hr.arenas, hr.encodes.changeBlock hr.inv hr.pool hz hzblock hlive hframe⟩, ?_⟩
  intro x hx hblock hold hlive'
  obtain ⟨hx', hwords⟩ := hk x hx hblock hold hlive'
  refine ⟨hx', fun y hlo hhi => ?_⟩
  -- the new block is another one
  have hne : x ≠ z := by
    rintro rfl
    exact hnew hold
  have hdisj := hr.inv.disjoint hx' hz hne
  rw [hframe y (by omega), hwords y hlo hhi]

/-! ## One call -/

/-- What a call that returns a block does: the block was not live, it has the bytes of the old one, and the old one is
not live any more. -/
structure Moves (D : DescsAddr) (s : MallocState) (p size q : ℕ) (s' : MallocState) : Prop where
  fresh : q ∉ s.live
  live : s'.live = q :: s.live.erase p
  gone : p ∉ s'.live
  enough : ∃ n, blockSize D s'.mem q = .ok n ∧ size ≤ n
  bytes : ∀ u, blockSize D s.mem p = .ok u → ∀ i < min u size, loadByte s'.mem (q + i) = loadByte s.mem (p + i)
  others : ∀ c ∈ s.live, c ≠ p → SameBlock D s s' c

lemma blockSize_null (mem : Words) : blockSize D mem 0 = .error (.fault .blockToArena) := by
  rfl

/-- A call with a new block moves, if the bytes are copied and the blocks that stay are kept. -/
lemma moves_of_kept {s' : MallocState} (hi : HeapInv D s h) (hi' : HeapInv D s' h') (hk : Kept h h' s.mem s'.mem)
    {p q n size : ℕ} (hp : p = 0 ∨ p ∈ s.live) (hq : q ∉ s.live) (hlive : s'.live = q :: s.live.erase p)
    (hblock : HasBlock h' q n) (hsize : size ≤ n)
    (hbytes : ∀ u, blockSize D s.mem p = .ok u → ∀ i < min u size, loadByte s'.mem (q + i) = loadByte s.mem (p + i)) :
    Moves D s p size q s' := by
  have hq' : q ∈ s'.live := by
    rw [hlive]
    exact List.mem_cons_self ..
  have hne : q ≠ p := by
    rintro rfl
    rcases hp with rfl | hp
    · exact hi'.ne_zero ((hi'.live 0).mp hq') rfl
    · exact hq hp
  refine ⟨hq, hlive, fun hmem => ?_, ⟨n, hi'.blockSize_of_hasBlock hblock, hsize⟩, hbytes, fun c hc hcp => ?_⟩
  · rw [hlive, List.mem_cons] at hmem
    exact hmem.elim (fun heq => hne heq.symm) hi.nodup.not_mem_erase
  · refine hk.sameBlock hi.toRep hi'.toRep ((hi.live c).mp hc) ((hi'.live c).mp ?_)
    rw [hlive]
    exact List.mem_cons_of_mem q ((List.mem_erase_of_ne hcp).mpr hc)

/-- The part of `realloc` after `malloc`, for a block that is moved. -/
lemma move_spec (hi : HeapInv D s h) {p q n size : ℕ} {page : Option ℕ} {s₁ : MallocState}
    (ha : Allocates D s h n page q s₁ h') (hk : Kept h h' s.mem s₁.mem) {m : ℕ} (hblock : HasBlock h' q m)
    (hsize : size ≤ m) (hp : p ∈ s.live) :
    ∃ u s₃ h₃, blockSize D s₁.mem p = .ok u ∧
      free D { s₁ with mem := copyBytes s₁.mem q p (if size < u then size else u) } p = .ok s₃ ∧ s₃.live = s.live ∧
      HeapInv D { s₃ with live := q :: s.live.erase p } h₃ ∧
      Moves D s p size q { s₃ with live := q :: s.live.erase p } := by
  have hlive : p ∈ h.live := (hi.live p).mp hp
  have hpnew : p ∈ h'.live := by
    rw [ha.live]
    exact Or.inr hlive
  have hqnew : q ∈ h'.live := by
    rw [ha.live]
    exact Or.inl rfl
  have hqp : q ≠ p := by
    rintro rfl
    exact ha.new hlive
  -- `block_size` is as before
  obtain ⟨u, hu, hu₁, hsame⟩ := hk.sameBlock hi.toRep ha.rep hlive hpnew
  obtain ⟨c, hc⟩ : ∃ c, c = if size < u then size else u := ⟨_, rfl⟩
  have hmin : c = min u size := by
    rw [hc]
    split <;> omega
  obtain ⟨hr₂, hk₂⟩ := Rep.copyBytes hk ha.rep hblock hqnew ha.new p (show c ≤ m by omega)
  obtain ⟨s₃, h₃, hfree, hrel, hk₃⟩ := free_spec hr₂ hpnew
  have hi₃ : HeapInv D { s₃ with live := q :: s.live.erase p } h₃ := by
    refine ⟨⟨hrel.rep.inv, hrel.rep.pool, hrel.rep.arenas, hrel.rep.encodes⟩, hrel.used (ha.used hi.used), ?_, fun b => ?_⟩
    · refine List.nodup_cons.mpr ⟨fun hmem => ha.new ((hi.live q).mp (List.mem_of_mem_erase hmem)), hi.nodup.erase p⟩
    · show b ∈ q :: s.live.erase p ↔ b ∈ h₃.live
      rw [List.mem_cons, hi.nodup.mem_erase_iff, hi.live, hrel.live, ha.live]
      constructor
      · rintro (rfl | ⟨hne, hb⟩)
        · exact ⟨Or.inl rfl, hqp⟩
        · exact ⟨Or.inr hb, hne⟩
      · rintro ⟨rfl | hb, hne⟩
        · exact Or.inl rfl
        · exact Or.inr ⟨hne, hb⟩
  obtain ⟨z, hz, hzblock, rfl, hstop⟩ := hblock
  obtain ⟨hz₃, hwords⟩ := hk₃ z hz hzblock hqnew ((hi₃.live _).mp (List.mem_cons_self ..))
  refine ⟨u, s₃, h₃, hu₁, by rw [← hc]; exact hfree, hrel.same.trans ha.same, hi₃, ?_⟩
  refine moves_of_kept hi hi₃ (hk₂.trans hk₃ fun b hb => ?_) (Or.inr hp)
    (fun hmem => ha.new ((hi.live _).mp hmem)) rfl ⟨z, hz₃, hzblock, rfl, hstop⟩ hsize fun u' hu' i hlt => ?_
  · rw [ha.live]
    exact Or.inr hb.1
  · obtain rfl := Except.ok.inj (hu.symm.trans hu')
    -- the two blocks do not overlap
    have hdisj := (ha.inv hi).sound.blocks (z.start sizes) (List.mem_cons_self ..) p
      (List.mem_cons_of_mem _ (by rw [ha.same]; exact hp)) hqp (z.stop sizes - z.start sizes) u
      (ha.rep.blockSize_eq hz hzblock) hu₁
    show loadByte s₃.mem _ = _
    rw [loadByte_eq_of_words hz hzblock hwords (by omega)]
    show loadByte (copyBytes s₁.mem _ p c) _ = _
    rw [loadByte_copyBytes (by omega), if_pos (by omega), Nat.add_sub_cancel_left]
    exact hsame i (by omega)

/-- `realloc` keeps the invariant. It does what `free` does for size 0, changes nothing if it fails, and otherwise moves the
block. -/
lemma reallocCall_spec (hi : HeapInv D s h) (p : ℕ) (size : UInt32) (page : Option ℕ) :
    Ensures (fun _ => False)
      (fun r => (∃ h', HeapInv D r.2 h') ∧
        (size = 0 → r.1 = 0 ∧ mallocExec D s (.free p) = .ok r.2 ∧ p ∉ r.2.live) ∧
        (size ≠ 0 → r.1 = 0 → r.2 = s) ∧
        (r.1 ≠ 0 → Moves D s p size.toNat r.1 r.2)) (reallocCall D s p size page) := by
  refine Ensures.ite (fun hguard => ?_) fun _ => .disabled
  obtain ⟨hp, hle⟩ := hguard
  have hnull : 0 ∉ s.live := fun hmem => hi.ne_zero ((hi.live 0).mp hmem) rfl
  by_cases hsize : size = 0
  · obtain ⟨s₁, hfree, hsame⟩ : ∃ s₁, free D s p = .ok s₁ ∧ s₁.live = s.live := by
      rcases hp with rfl | hp
      · exact ⟨s, if_pos rfl, rfl⟩
      · obtain ⟨s₁, _, hfree, hrel, -⟩ := free_spec hi.toRep ((hi.live p).mp hp)
        exact ⟨s₁, hfree, hrel.same⟩
    have hstep : mallocExec D s (.free p) = .ok { s₁ with live := s₁.live.erase p } := by
      rw [mallocExec, if_pos hp, hfree]
      rfl
    rw [realloc, if_pos hsize, hfree, except_ok_bind, except_pure, except_ok_bind]
    dsimp only
    rw [if_pos hsize]
    refine ⟨((mallocExec_spec hi (.free p)).of_eq_ok hstep).2, fun _ => ⟨rfl, hstep, ?_⟩,
      fun hne => absurd hsize hne, fun hne => absurd rfl hne⟩
    show p ∉ s₁.live.erase p
    rw [hsame]
    exact hi.nodup.not_mem_erase
  · rw [realloc, if_neg hsize]
    rcases malloc_spec hi.toRep size page with ⟨hr, -⟩ | ⟨hr, -⟩ | ⟨q, s₁, h₁, hr, ha, hblock, hk⟩
    · rw [hr]
      exact .disabled
    · rw [hr, except_ok_bind]
      dsimp only
      rw [if_neg (fun hboth => hboth.2 rfl), except_pure, except_ok_bind]
      rw [if_neg hsize]
      exact ⟨⟨h, hi⟩, fun hzero => absurd hzero hsize, fun _ _ => rfl, fun hne => absurd rfl hne⟩
    · have hq : q ≠ 0 := by
        apply ha.rep.ne_zero
        rw [ha.live]
        exact Set.mem_insert ..
      have henough : size.toNat ≤ usableSize size.toNat :=
        (le_usableSize_iff size.toNat_lt (hblock.pageCnt_ne_zero ha.rep.inv.toWf ha.rep.pool)).mpr (by omega)
      rw [hr, except_ok_bind]
      dsimp only
      rcases hp with rfl | hp
      · -- nothing to copy
        have hi₁ := ha.inv hi
        rw [if_neg (fun hboth => hboth.1 rfl), except_pure, except_ok_bind]
        rw [if_neg hsize, if_neg hq, List.erase_of_not_mem (by rw [ha.same]; exact hnull)]
        refine ⟨⟨h₁, hi₁⟩, fun hzero => absurd hzero hsize, fun _ hzero => absurd hzero hq, fun _ => ?_⟩
        refine moves_of_kept hi hi₁ hk (Or.inl rfl) (fun hmem => ha.new ((hi.live q).mp hmem)) ?_ hblock henough ?_
        · rw [List.erase_of_not_mem hnull, ha.same]
        · intro u hu
          cases (blockSize_null s.mem).symm.trans hu
      · have hp0 : p ≠ 0 := by
          rintro rfl
          exact hnull hp
        obtain ⟨u, s₃, h₃, hu, hfree, hsame, hi₃, hmoves⟩ := move_spec hi ha hk hblock henough hp
        rw [if_pos ⟨hp0, hq⟩, hu, except_ok_bind, hfree, except_ok_bind, except_pure, except_ok_bind]
        rw [if_neg hsize, if_neg hq, hsame]
        exact ⟨⟨h₃, hi₃⟩, fun hzero => absurd hzero hsize, fun _ hzero => absurd hzero hq, fun _ => hmoves⟩

/-! ## Runs -/

lemma reallocMachine_inv (hreach : (reallocMachine D).Reachable s) : ∃ h, HeapInv D s h := by
  refine hreach.invariant (fun s hs => ?_) fun s a s' _ hs hstep => ?_
  · obtain ⟨mem, rfl⟩ := hs
    exact ⟨emptyHeap, mallocStart_inv mem⟩
  · obtain ⟨h, hi⟩ := hs
    have hstep := Machine.ofExec_step.mp hstep
    cases a with
    | heap a => exact ((mallocExec_spec hi a).of_eq_ok hstep).2
    | realloc p size page =>
      have hspec : Ensures (fun _ => False) (fun s' => ∃ h', HeapInv D s' h') (reallocExec D s (.realloc p size page)) :=
        (reallocCall_spec hi p size page).bind fun _ hr => hr.1
      exact hspec.of_eq_ok hstep

/-- `realloc` keeps the data and is atomic. In every reachable state, no assertion fails in it. For size 0 it frees the
block. If it returns NULL then nothing changes. If it returns a block then that is a new one that overlaps no other live one, it
has the bytes of the old block that fit, the old block is not live, and the other blocks have the same contents. -/
theorem realloc_keeps_data (hreach : (reallocMachine D).Reachable s) (p : ℕ) (size : UInt32) (page : Option ℕ) :
    (∀ f, reallocCall D s p size page ≠ .error (.fault f)) ∧
      ∀ q s', reallocCall D s p size page = .ok (q, s') →
        (size = 0 → q = 0 ∧ mallocExec D s (.free p) = .ok s' ∧ p ∉ s'.live) ∧
        (size ≠ 0 → q = 0 → s' = s) ∧
        (q ≠ 0 → Moves D s p size.toNat q s' ∧
          ∀ c ∈ s'.live, c ≠ q → ∀ m n, blockSize D s'.mem q = .ok m → blockSize D s'.mem c = .ok n →
            q + m ≤ c ∨ c + n ≤ q) := by
  obtain ⟨h, hi⟩ := reallocMachine_inv hreach
  have hspec := reallocCall_spec hi p size page
  refine ⟨fun f hfault => hspec.of_eq_fault hfault, fun q s' hcall => ?_⟩
  obtain ⟨⟨h', hi'⟩, hzero, hnull, hmoves⟩ := hspec.of_eq_ok hcall
  refine ⟨hzero, hnull, fun hq => ⟨hmoves hq, fun c hc hne m n hm hn => ?_⟩⟩
  have hqlive : q ∈ s'.live := by
    rw [(hmoves hq).live]
    exact List.mem_cons_self ..
  exact hi'.sound.blocks q hqlive c hc (Ne.symm hne) m n hm hn

/-- A block of 16 bytes becomes one of 1024 bytes in another arena. -/
theorem realloc_keeps_data_grown : ∃ s s' : MallocState,
    (reallocMachine exampleDescs).run exampleStart
      [.heap (.malloc 10 (some 0xc0100)), .heap (.write 0xc010000c 0x04030201)] = some s ∧
      reallocCall exampleDescs s 0xc010000c 600 (some 0xc0101) = .ok (0xc010100c, s') ∧
      Moves exampleDescs s 0xc010000c (600 : UInt32).toNat 0xc010100c s' := by
  have hrun : ((reallocMachine exampleDescs).run exampleStart
      [.heap (.malloc 10 (some 0xc0100)), .heap (.write 0xc010000c 0x04030201)]).map
      (fun s => (reallocCall exampleDescs s 0xc010000c 600 (some 0xc0101)).toOption.map Prod.fst) =
      some (some 0xc010100c) := by
    decide +kernel
  obtain ⟨s, hrun, hcall⟩ := Option.map_eq_some_iff.mp hrun
  obtain ⟨⟨q, s'⟩, hcall, rfl⟩ := except_exists_of_map hcall
  obtain ⟨-, hspec⟩ := realloc_keeps_data (D := exampleDescs) ⟨_, _, ⟨_, rfl⟩, hrun⟩ 0xc010000c 600 (some 0xc0101)
  exact ⟨s, s', hrun, hcall, ((hspec _ s' hcall).2.2 (by decide)).1⟩

end OsLabs.Threads
