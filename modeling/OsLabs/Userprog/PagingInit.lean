import OsLabs.Userprog.AddressSpace
import OsLabs.Userprog.PageDirRuns

/-!
# The page directory of the kernel

`paging_init` of `threads/init.c`. It maps the pages of RAM, one after the other, from `0xc0000000` on, and leaves what
`KernelDir` asks for: a directory without entries for the addresses of processes, in which no page is for user mode.
`pagedir_create` copies that directory for each process.
-/

namespace OsLabs.Userprog

open Lib Threads Function
open Memory (Extends)

/-! ## The model -/

section Code

variable (R : Ram) (env : ℕ → Option ℕ)

/-- The page table for an address in the loop of `paging_init`: a new one, or the last one. -/
def pagingTable (m : Memory) (pd pt pdeIdx : ℕ) : KernelM (ℕ × Memory) :=
  if m.word pd pdeIdx = 0 then
    match m.pallocGetPage R env .kernel true with
    | (none, _) => .error .outOfPages
    | (some pt, m) => do
      let pde ← pdeCreate pt
      return (pt, m.setWord pd pdeIdx pde)
  else return (pt, m)

/-- `paging_init`, where `inKernelText` says which pages have the code of the kernel. -/
def pagingInit (inKernelText : ℕ → Bool) (m : Memory) : KernelM (ℕ × Memory) :=
  match m.pallocGetPage R env .kernel true with
  | (none, _) => .error .outOfPages
  | (some pd, m) => do
    let (_, m) ← (List.range R.initRamPages).foldlM (fun (pt, m) page => do
      let vaddr := ptov page
      let (pt, m) ← pagingTable R env m pd pt (pdNo (vaddr * 4096))
      let pte ← pteCreateKernel vaddr !inKernelText vaddr
      return (pt, m.setWord pt (ptNo (vaddr * 4096)) pte)) (0, m)
    return (pd, m)

end Code

/-! ## What it leaves -/

/-- The entry for page `v` after `k` pages of RAM. -/
def kernelEntry (inKernelText : ℕ → Bool) (k v : ℕ) : ℕ :=
  if 0xc0000 ≤ v ∧ v < 0xc0000 + k then (v - 0xc0000) * 4096 + (if inKernelText v then 1 else 3) else 0

/-- What the loop has done so far: there are tables for `l` pages, the last of which is `pt`, and entries for `k` pages. -/
structure Paging (R : Ram) (inKernelText : ℕ → Bool) (m₀ : Memory) (pd l k pt : ℕ) (K : List ℕ) (m : Memory) : Prop where
  pages : Extends R m₀ (pagesOf K []) [] m
  dir : IsDir R m pd 1024
  new : pd ∈ K ∧ ∀ i < 1024, ∀ t, tableAt m pd i = some t → t ∈ K
  tables : ∀ i < 1024, tableAt m pd i = none ↔ i < 768 ∨ 0xc0000 + l ≤ 1024 * i
  last : 0 < l → tableAt m pd ((0xc0000 + l - 1) / 1024) = some pt
  entry : ∀ v < 2 ^ 20, entryAt m pd v = kernelEntry inKernelText k v

section Paging

variable {R : Ram} {inKernelText : ℕ → Bool} {m₀ m : Memory} {K : List ℕ} {pd k pt v : ℕ}

lemma kernelEntry_succ (hne : v ≠ 0xc0000 + k) : kernelEntry inKernelText (k + 1) v = kernelEntry inKernelText k v := by
  have hiff : 0xc0000 ≤ v ∧ v < 0xc0000 + (k + 1) ↔ 0xc0000 ≤ v ∧ v < 0xc0000 + k := by omega
  unfold kernelEntry
  rw [if_congr hiff rfl rfl]

lemma kernelEntry_self : kernelEntry inKernelText (k + 1) (0xc0000 + k) = k * 4096 + if inKernelText (0xc0000 + k) then 1 else 3 := by
  unfold kernelEntry
  rw [if_pos (by omega), Nat.add_sub_cancel_left]

/-- No page of the kernel is for user mode. -/
lemma testBit_kernelEntry : (kernelEntry inKernelText k v).testBit 2 = false := by
  rw [Nat.testBit_eq_decide_div_mod_eq, decide_eq_false_iff_not]
  unfold kernelEntry
  split_ifs
  · omega
  · omega
  · decide

lemma pteCreateKernel_eq (hk : k < 16384) :
    pteCreateKernel (ptov k) (!inKernelText (ptov k)) = .ok (kernelEntry inKernelText (k + 1) (0xc0000 + k)) := by
  have hx : InRam (ptov k) := ⟨Nat.le_add_right .., Nat.add_lt_add_left hk _⟩
  unfold pteCreateKernel
  rw [kernelEntry_self, hx.vtop, except_ok_bind, Nat.or_assoc, ptov, Nat.add_sub_cancel_left]
  cases inKernelText (0xc0000 + k) with
  | false => exact congrArg Except.ok (or_flags k (by decide))
  | true => exact congrArg Except.ok (or_flags k (by decide))

/-- An entry in the last table. -/
lemma Paging.setEntry (h : Paging R inKernelText m₀ pd (k + 1) k pt K m) (hk : k < 16384) :
    Paging R inKernelText m₀ pd (k + 1) (k + 1) pt K
      (m.setWord pt ((0xc0000 + k) % 1024) (kernelEntry inKernelText (k + 1) (0xc0000 + k))) := by
  have ht : tableAt m pd ((0xc0000 + k) / 1024) = some pt := h.last (Nat.succ_pos k)
  have hlt : kernelEntry inKernelText (k + 1) (0xc0000 + k) < 2 ^ 32 := by
    rw [kernelEntry_self]
    split <;> omega
  obtain ⟨hchanges, hself⟩ := Changes.setEntry h.dir (by omega) ht hlt
  have hne := (h.dir.table _ (by omega) pt ht).2
  have hsame : ∀ i, tableAt (m.setWord pt ((0xc0000 + k) % 1024) (kernelEntry inKernelText (k + 1) (0xc0000 + k))) pd i =
      tableAt m pd i := fun i => tableAt_congr (Memory.word_congr (Memory.setWord_of_ne hne.symm))
  refine ⟨h.pages.setPage (p := .kernel) (h.new.2 _ (by omega) pt ht) _, hchanges.dir, ⟨h.new.1, fun i hi t hi' => ?_⟩,
    fun i hi => ?_, fun hl => ?_, fun v hv => ?_⟩
  · rw [hsame] at hi'
    exact h.new.2 i hi t hi'
  · rw [hsame]
    exact h.tables i hi
  · rw [hsame]
    exact h.last hl
  · by_cases hvk : v = 0xc0000 + k
    · rw [hvk, hself]
    · rw [hchanges.entry v hv hvk, h.entry v hv, kernelEntry_succ hvk]

lemma pagingTable_spec (h : Paging R inKernelText m₀ pd k k pt K m) (hk : k < 16384) (env) :
    YieldsOr .outOfPages (fun r => ∃ K', Paging R inKernelText m₀ pd (k + 1) k r.1 K' r.2)
      (pagingTable R env m pd pt ((0xc0000 + k) / 1024)) := by
  have hi : (0xc0000 + k) / 1024 < 1024 := by omega
  have htables := h.tables _ hi
  unfold pagingTable
  rw [h.dir.dir _ hi]
  cases ht : tableAt m pd ((0xc0000 + k) / 1024) with
  | none =>
    rw [if_pos pde_none]
    rcases h.pages.pallocGetPage env .kernel true with ⟨m', hget, -, -⟩ | ⟨x, m', hget, hx, hbytes⟩
    · rw [hget]
      exact Or.inl rfl
    · rw [update_pagesOf_kernel] at hx
      have hmem : x ∈ pagesOf (x :: K) [] .kernel := List.mem_cons_self ..
      have hpages : m'.pages .kernel = x :: m.pages .kernel := by
        rw [hx.pages, h.pages.pages]
        rfl
      obtain ⟨hdir, hentry, hself, hother⟩ := h.dir.addTable ht hx.sound hpages hbytes
      rw [hget]
      dsimp only
      rw [pdeCreate_eq (inRam_of_hasPage (hx.hasPage hmem))]
      refine YieldsOr.ok ⟨x :: K, hx.setPage (p := .kernel) (List.mem_cons_of_mem x h.new.1) _, hdir,
        ⟨List.mem_cons_of_mem x h.new.1, fun i hi t hi' => ?_⟩, fun i hi => ?_, fun _ => hself, fun v hv => ?_⟩
      · by_cases hii : i = (0xc0000 + k) / 1024
        · rw [hii, hself] at hi'
          cases hi'
          exact List.mem_cons_self ..
        · rw [tableAt_congr (hother i hii)] at hi'
          exact List.mem_cons_of_mem x (h.new.2 i hi t hi')
      · by_cases hii : i = (0xc0000 + k) / 1024
        · rw [hii, hself]
          simp only [reduceCtorEq, false_iff]
          omega
        · rw [tableAt_congr (hother i hii), h.tables i hi]
          rw [ht] at htables
          simp only [true_iff] at htables
          omega
      · rw [hentry v hv, h.entry v hv]
  | some t =>
    -- the address is in the last table
    rw [if_neg (pde_ne_zero t)]
    rw [ht] at htables
    simp only [reduceCtorEq, false_iff] at htables
    have hlast := h.last (by omega)
    rw [show (0xc0000 + k - 1) / 1024 = (0xc0000 + k) / 1024 by omega] at hlast
    exact YieldsOr.ok ⟨K, h.pages, h.dir, h.new, fun i hi => (h.tables i hi).trans (by omega), fun _ => hlast, h.entry⟩

lemma pagingInit_paging (h : m₀.Sound R) (env) :
    YieldsOr .outOfPages (fun r => ∃ K pt, Paging R inKernelText m₀ r.1 R.initRamPages R.initRamPages pt K r.2)
      (pagingInit R env inKernelText m₀) := by
  unfold pagingInit
  rcases (Extends.refl h).pallocGetPage env .kernel true with ⟨m, hget, -, -⟩ | ⟨pd, m, hget, hx, hbytes⟩
  · rw [hget]
    exact Or.inl rfl
  · rw [hget]
    rw [← pagesOf_nil, update_pagesOf_kernel] at hx
    have hzero : ∀ i, m.word pd i = 0 := by
      intro i
      apply Memory.word_zero
      rw [hbytes]
      exact update_self ..
    have hnone : ∀ i, tableAt m pd i = none := fun i => tableAt_of_zero (hzero i)
    have hinit : Paging R inKernelText m₀ pd 0 0 0 [pd] m := by
      refine ⟨hx, ⟨by decide, hx.sound, hx.mem_pages (p := .kernel) (List.mem_singleton_self pd), fun i _ => ?_,
        fun i _ t ht => ?_, fun i _ j _ t ht => ?_⟩, ⟨List.mem_singleton_self pd, fun i _ t ht => ?_⟩, fun i hi => ?_,
        nofun, fun v hv => ?_⟩
      · rw [hzero, hnone, pde_none]
      · rw [hnone] at ht
        cases ht
      · rw [hnone] at ht
        cases ht
      · rw [hnone] at ht
        cases ht
      · simp only [hnone, true_iff]
        omega
      · rw [entryAt_of_noTable (hnone _), kernelEntry, if_neg (by omega)]
    refine YieldsOr.bind (YieldsOr.foldlM_range (P := fun k r => ∃ K, Paging R inKernelText m₀ pd k k r.1 K r.2) ?_ ⟨[pd], hinit⟩) ?_
    · rintro k hk r ⟨K, hr⟩
      have hsmall := R.small
      have hva : ptov k * 4096 / 4096 = 0xc0000 + k := Nat.mul_div_cancel _ (by decide)
      dsimp only
      rw [pdNo_eq, ptNo, hva]
      refine YieldsOr.bind (pagingTable_spec hr (by omega) env) fun r' hr' => ?_
      obtain ⟨K', hr'⟩ := hr'
      rw [pteCreateKernel_eq (by omega)]
      exact YieldsOr.ok ⟨K', hr'.setEntry (by omega)⟩
    · rintro r ⟨K, hr⟩
      exact YieldsOr.ok ⟨K, r.1, hr⟩

/-- What the other functions ask of the directory of the kernel. -/
lemma Paging.kernelDir {pt : ℕ} (h : Paging R inKernelText m₀ R.initPageDir k k pt K m) : KernelDir R m := by
  refine ⟨h.dir.mem, fun i hi => ?_, fun i _ hi => ?_⟩
  · rw [h.dir.dir i (by omega), (h.tables i (by omega)).mpr (Or.inl hi), pde_none]
  · rw [h.dir.dir i hi]
    cases ht : tableAt m R.initPageDir i with
    | none => exact Or.inl pde_none
    | some t =>
      refine Or.inr ⟨t, (h.dir.table i hi t ht).1, rfl, fun j hj => ?_⟩
      have hdiv : (1024 * i + j) / 1024 = i := by omega
      have hmod : (1024 * i + j) % 1024 = j := by omega
      have hentry := h.entry (1024 * i + j) (by omega)
      rw [entryAt_of_table (hdiv.symm ▸ ht), hmod] at hentry
      rw [hentry, testBit_kernelEntry]

end Paging

end OsLabs.Userprog
