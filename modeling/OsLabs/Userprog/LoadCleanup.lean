import OsLabs.Userprog.LoadImage

/-!
# A load that fails

`start_process` frees the page with the name of the file, and if `load` has failed then the thread exits, and `process_exit`
destroys the page directory. `failed_load_cleans_up` says that nothing else changes: what `load` had allocated is given back,
each page once, and the files that were opened are closed.
-/

namespace OsLabs.Userprog

open Lib Threads Filesys
open Memory (Extends)

section Cleanup

variable {R : Ram} {k : Proc} {m₀ m : Memory} {page : ℕ}

/-- Memory without one of its pages. -/
def Memory.without (m : Memory) (p : PoolId) (x : ℕ) : Memory :=
  (m.setPages p ((m.pages p).erase x)).setPage x fun _ => 0xcc

lemma Memory.allocated_without_user (m : Memory) (page : ℕ) :
    (m.without .kernel page).allocated .user = m.allocated .user := by
  ext y
  show y ∈ (m.setPages .kernel ((m.pages .kernel).erase page)).pages .user ↔ y ∈ m.pages .user
  rw [Memory.setPages_of_ne (by decide)]

lemma Memory.allocated_without_kernel (h : m.Sound R) (hx : page ∈ m.pages .kernel) :
    (m.without .kernel page).allocated .kernel = m.allocated .kernel \ {page} := by
  have hpages : (m.without .kernel page).pages .kernel = (m.pages .kernel).erase page := by
    rw [Memory.without, Memory.setPage_pages, Memory.setPages_self]
  ext y
  show (y ∈ (m.without .kernel page).pages .kernel ∨ _) ↔ (y ∈ m.pages .kernel ∨ _) ∧ y ≠ page
  rw [hpages, (h.nodup .kernel).mem_erase_iff]
  constructor
  · rintro (⟨hne, hy⟩ | ⟨r, hr, hlo, hhi⟩)
    · exact ⟨Or.inl hy, hne⟩
    · -- the allocator of blocks has no page of a thread
      have hapart := h.apart .kernel page hx r hr
      exact ⟨Or.inr ⟨r, hr, hlo, hhi⟩, by omega⟩
  · rintro ⟨hy | hy, hne⟩
    · exact Or.inl ⟨hne, hy⟩
    · exact Or.inr hy

namespace Proc

/-- `process_exit` gives back all that is left of a load. -/
lemma processExit_spec (hdir : KernelDir R m₀) (hpage : page ∈ m₀.pages .kernel) {K U : List ℕ} {T : Tree}
    (hx : Extends R m₀ (pagesOf K U) [] k.mem) (hst : Stored k.mem K U T 0 0) (hpd : k.pagedir = some T.pd) :
    ∃ k₁ k', freePage R k page = .ok k₁ ∧ processExit R k₁ = .ok k' ∧ k'.pagedir = none ∧ k'.fs = k.fs ∧
      Extends R (m₀.without .kernel page) (fun _ => []) [] k'.mem := by
  have hne := pd_ne hdir hx hst.pd_mem
  obtain ⟨mem, hfree, hx₁, hbytes⟩ := hx.pallocFreePage_old hpage
  have hst₁ : Stored mem K U T 0 0 := by
    refine hst.congr fun y hy => ?_
    have hy' : y ≠ page := by
      intro heq
      subst heq
      exact hx.not_old (p := .kernel) hy .kernel hpage
    rw [hbytes, Function.update_of_ne hy']
  obtain ⟨mem', hdestroy, hx₂⟩ := pagedirDestroy_spec hx₁ hst₁ hne
  refine ⟨{ k with mem }, { k with mem := mem', pagedir := none }, ?_, ?_, rfl, rfl, hx₂⟩
  · rw [freePage, hfree]
    rfl
  · unfold processExit
    rw [hpd]
    dsimp only
    rw [hdestroy]
    rfl

/-- If `load` fails, then after `process_exit` the same pages are allocated as before, but for the page with the name, and
the same inodes are open. No page is given back twice, since that would be a fault. -/
theorem failed_load_cleans_up (hk : k.Ready R) (hpage : page ∈ k.mem.pages .kernel) (env : ℕ → Option ℕ) (name : CStr) :
    ∃ result k₁ k', load R env k name = .ok (result, k₁) ∧ startProcess R env k page name = .ok (result, k') ∧
      (result = none → k'.mem.allocated .user = k.mem.allocated .user ∧
        k'.mem.allocated .kernel = k.mem.allocated .kernel \ {page} ∧ k'.pagedir = none ∧ k'.fs.inodes = k.fs.inodes) := by
  obtain ⟨refs, hg⟩ := hk.good
  obtain ⟨result, k₁, hload, hrestored, hcases⟩ := load_spec hg hk.sound hk.dir env name
  -- the pages, for either way in which the load went
  have hfreed : ∃ k₂ k₃, freePage R k₁ page = .ok k₂ ∧ processExit R k₂ = .ok k₃ ∧ k₃.pagedir = none ∧ k₃.fs = k₁.fs ∧
      Extends R (k.mem.without .kernel page) (fun _ => []) [] k₃.mem := by
    rcases hcases with ⟨-, hpd, hx⟩ | ⟨K, U, T, hpd, hx, hst, -⟩
    · obtain ⟨mem, hfree, hx₁, -⟩ := hx.pallocFreePage_old hpage
      refine ⟨{ k₁ with mem }, { k₁ with mem }, ?_, ?_, hpd, rfl, hx₁⟩
      · rw [freePage, hfree]
        rfl
      · unfold processExit
        dsimp only
        rw [hpd]
    · exact processExit_spec hk.dir hpage hx hst hpd
  obtain ⟨k₂, k₃, hfree, hexit, hpd, hfs, hx⟩ := hfreed
  unfold startProcess
  rw [hload, except_ok_bind]
  dsimp only
  rw [hfree, except_ok_bind]
  by_cases hresult : result = none
  · rw [if_pos hresult, hexit, except_ok_bind]
    refine ⟨result, k₁, k₃, rfl, by rw [hresult]; rfl, fun _ => ⟨?_, ?_, hpd, ?_⟩⟩
    · rw [hx.allocated_eq, Memory.allocated_without_user]
    · rw [hx.allocated_eq, Memory.allocated_without_kernel hk.sound hpage]
    · rw [hfs]
      exact hrestored.same.inodes
  · rw [if_neg hresult]
    exact ⟨result, k₁, k₂, rfl, rfl, fun hnone => absurd hnone hresult⟩

end Proc

end Cleanup

/-- There is a page for the page directory, and none for anything else. -/
def exampleShortage (i : ℕ) : Option ℕ :=
  if i = 0 then some 0xc0110 else none

/-- The executable is there, and no block is in use. -/
def freshProc : Proc :=
  procOf (mallocStart exampleDescs fun _ => 0) exampleDisk.fs

lemma freshProc_ready : freshProc.Ready exampleRam := by
  apply procOf_ready ⟨emptyHeap, mallocStart_inv _⟩
  · intro r hr
    cases hr
  · exact World.reachable_valid (World.after_reachable _)

lemma freshProc_fails : (Proc.load exampleRam exampleShortage freshProc World.nameA).toOption.map Prod.fst =
    some none := by
  decide +kernel

theorem failed_load_cleans_up_shortage : ∃ k',
    Proc.startProcess exampleRam exampleShortage freshProc 0xc0102 World.nameA = .ok (none, k') ∧
      k'.mem.allocated .user = freshProc.mem.allocated .user ∧
      k'.mem.allocated .kernel = freshProc.mem.allocated .kernel \ {0xc0102} ∧ k'.pagedir = none ∧
      k'.fs.inodes = freshProc.fs.inodes := by
  obtain ⟨result, k₁, k', hload, hrun, hclean⟩ :=
    Proc.failed_load_cleans_up freshProc_ready (List.mem_cons_self ..) exampleShortage World.nameA
  have hresult := except_fst_eq hload freshProc_fails
  subst hresult
  exact ⟨k', hrun, hclean rfl⟩

end OsLabs.Userprog
