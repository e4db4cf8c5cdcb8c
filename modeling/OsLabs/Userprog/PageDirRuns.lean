import OsLabs.Userprog.PageMap

/-!
# Runs of calls for a page directory

What holds after any sequence of calls for a directory that `pagedir_create` has made. The state keeps, beside memory, which
frames were set and not cleared since, and which pages are in use that were not allocated for the directory. `pagedir_maps`
says that the directory is a map from pages to frames, and what `pagedir_destroy` gives back. It frees every frame that is still
mapped, so the frames have to be different pages that are in use: with one frame for two pages the second `palloc_free_page`
fails (`destroy_shared_frame`).
-/

namespace OsLabs.Userprog

open Lib Threads
open Function (update update_of_ne update_self)
open Memory (Extends)

/-! ## The calls -/

/-- The calls that change a directory, and `palloc_get_page`, where frames come from. -/
inductive PageOp where
  | getPage (p : PoolId) (zero : Bool)
  | setPage (upage kpage : ℕ) (writable : Bool)
  | clearPage (upage : ℕ)
  | setDirty (vpage : ℕ) (dirty : Bool)
  | setAccessed (vpage : ℕ) (accessed : Bool)

structure PageWorld where
  mem : Memory
  /-- The frames that were set and not cleared since. -/
  map : ℕ → Option ℕ
  /-- The pages in use that were not allocated for the directory. -/
  held : PoolId → List ℕ

/-- The page that a call is for. -/
def PageOp.page : PageOp → Option ℕ
  | .getPage .. => none
  | .setPage upage .. => some (upage / 4096)
  | .clearPage upage => some (upage / 4096)
  | .setDirty vpage _ => some (vpage / 4096)
  | .setAccessed vpage _ => some (vpage / 4096)

/-- What the functions assert of their arguments: `pagedir_set_page` is called for pages that are not mapped. -/
def PageOp.Legal (R : Ram) (w : PageWorld) : PageOp → Prop
  | .getPage .. => True
  | .setPage upage kpage _ =>
    upage % 4096 = 0 ∧ upage < physBase ∧ 0xc0000 ≤ kpage ∧ kpage < 0xc0000 + R.initRamPages ∧ w.map (upage / 4096) = none
  | .clearPage upage => upage % 4096 = 0 ∧ upage < physBase
  | .setDirty vpage _ => vpage < 2 ^ 32
  | .setAccessed vpage _ => vpage < 2 ^ 32

instance (R : Ram) (w : PageWorld) (op : PageOp) : Decidable (op.Legal R w) :=
  match op with
  | .getPage .. => inferInstanceAs (Decidable True)
  | .setPage .. => inferInstanceAs (Decidable (_ ∧ _ ∧ _ ∧ _ ∧ _))
  | .clearPage _ => inferInstanceAs (Decidable (_ ∧ _))
  | .setDirty .. => inferInstanceAs (Decidable (_ < _))
  | .setAccessed .. => inferInstanceAs (Decidable (_ < _))

namespace PageWorld

/-- A call for the directory `pd`. -/
def exec (R : Ram) (env : ℕ → Option ℕ) (pd : ℕ) (w : PageWorld) : PageOp → KernelM PageWorld
  | .getPage p zero =>
    match w.mem.pallocGetPage R env p zero with
    | (none, mem) => .ok { w with mem }
    | (some x, mem) => .ok { w with mem, held := update w.held p (x :: w.held p) }
  | .setPage upage kpage writable => do
    let (success, mem) ← pagedirSetPage R env w.mem pd upage kpage writable
    return { w with mem, map := if success then update w.map (upage / 4096) (some kpage) else w.map }
  | .clearPage upage => do
    let mem ← pagedirClearPage R env w.mem pd upage
    return { w with mem, map := update w.map (upage / 4096) none }
  | .setDirty vpage dirty => do
    let mem ← pagedirSetDirty R env w.mem pd vpage dirty
    return { w with mem }
  | .setAccessed vpage accessed => do
    let mem ← pagedirSetAccessed R env w.mem pd vpage accessed
    return { w with mem }

/-- The pages that were allocated for the directory: its own one, and the tables for the addresses of the process. -/
def own (w : PageWorld) (pd : ℕ) : Set ℕ :=
  { x | x = pd ∨ ∃ i < 768, tableAt w.mem pd i = some x }

/-- No two pages have one frame, and the frames are pages that are in use. -/
def Owned (w : PageWorld) : Prop :=
  (∀ u < 786432, ∀ v < 786432, ∀ x, w.map u = some x → w.map v = some x → u = v) ∧
    ∀ u < 786432, ∀ x, w.map u = some x → ∃ p, x ∈ w.held p

end PageWorld

/-- The runs that start after `pagedir_create` has returned `pd`. -/
def pageMachine (R : Ram) (env : ℕ → Option ℕ) (m₀ : Memory) (pd : ℕ) : Machine PageWorld PageOp where
  Init w := ∃ mem, pagedirCreate R env m₀ = (some pd, mem) ∧ w = { mem, map := fun _ => none, held := m₀.pages }
  step w op := (w.exec R env pd op).toOption

/-! ## The invariant -/

/-- The directory has the frames of the map, its pages are its own, and the rest is as `init_page_dir` has it. -/
structure PageInv (R : Ram) (m₀ : Memory) (pd : ℕ) (w : PageWorld) : Prop where
  dir : IsDir R w.mem pd 1024
  map : ∀ u < 786432, frameOf (entryAt w.mem pd u) = w.map u
  ram : ∀ u x, w.map u = some x → InRam x
  pages : ∀ p x, x ∈ w.mem.pages p ↔ x ∈ w.held p ∨ p = .kernel ∧ x ∈ w.own pd
  apart : ∀ x ∈ w.own pd, ∀ p, x ∉ w.held p
  kernel : ∀ i, 768 ≤ i → i < 1024 → w.mem.word pd i = m₀.word R.initPageDir i
  init : R.initPageDir ∈ w.held .kernel
  same : w.mem.bytes R.initPageDir = m₀.bytes R.initPageDir

section Runs

variable {R : Ram} {env : ℕ → Option ℕ} {m₀ m' : Memory} {pd u : ℕ} {w : PageWorld} {op : PageOp}

/-- `pagedir_create`. -/
lemma pageInv_create (hdir : IsDir R m₀ R.initPageDir 1024) (hempty : ∀ i < 768, m₀.word R.initPageDir i = 0)
    (hcreate : pagedirCreate R env m₀ = (some pd, m')) :
    PageInv R m₀ pd { mem := m', map := fun _ => none, held := m₀.pages } := by
  unfold pagedirCreate at hcreate
  rcases (Extends.refl hdir.sound).pallocGetPage env .kernel false with ⟨m, hget, -, -⟩ | ⟨x, m, hget, hx, hbytes⟩
  · rw [hget] at hcreate
    cases hcreate
  · rw [hget] at hcreate
    cases hcreate
    rw [← pagesOf_nil, update_pagesOf_kernel] at hx
    have hmem : pd ∈ pagesOf [pd] [] .kernel := List.mem_singleton_self pd
    have hnew : ∀ p, pd ∉ m₀.pages p := fun p => hx.not_old hmem p
    have hne : R.initPageDir ≠ pd := by
      intro heq
      exact hnew .kernel (heq ▸ hdir.mem)
    have hword : ∀ i, (m.setPage pd (m.bytes R.initPageDir)).word pd i = m₀.word R.initPageDir i := by
      intro i
      unfold Memory.word
      rw [Memory.setPage_self, hx.bytes .kernel _ hdir.mem]
    -- so the tables are those of the kernel
    have htable : ∀ i, tableAt (m.setPage pd (m.bytes R.initPageDir)) pd i = tableAt m₀ R.initPageDir i := by
      intro i
      unfold tableAt
      rw [hword]
    have hnone : ∀ i < 768, tableAt (m.setPage pd (m.bytes R.initPageDir)) pd i = none := by
      intro i hi
      rw [htable]
      exact tableAt_of_zero (hempty i hi)
    have hown : ∀ x, (x = pd ∨ ∃ i < 768, tableAt (m.setPage pd (m.bytes R.initPageDir)) pd i = some x) ↔ x = pd := by
      intro x
      refine ⟨fun hx => ?_, Or.inl⟩
      rcases hx with hpd | ⟨i, hi, ht⟩
      · exact hpd
      · rw [hnone i hi] at ht
        cases ht
    have hpages : ∀ p, m.pages p = pagesOf [pd] [] p ++ m₀.pages p := hx.pages
    refine ⟨⟨by decide, hx.sound.setPage _ _, hx.mem_pages hmem, fun i hi => ?_, fun i hi t ht => ?_, fun i hi j hj t hti htj => ?_⟩,
      fun u hu => ?_, fun u x hsome => ?_, fun p x => ?_, fun x hx p => ?_, fun i _ _ => hword i, hdir.mem, ?_⟩
    · show (m.setPage pd (m.bytes R.initPageDir)).word pd i = _
      rw [hword, htable]
      exact hdir.dir i hi
    · rw [htable] at ht
      have hmem₀ := (hdir.table i hi t ht).1
      refine ⟨?_, fun heq => hnew .kernel (heq ▸ hmem₀)⟩
      show t ∈ m.pages .kernel
      rw [hpages]
      exact List.mem_append_right _ hmem₀
    · rw [htable] at hti htj
      exact hdir.inj i hi j hj t hti htj
    · rw [entryAt_of_noTable (hnone _ (by omega))]
      rfl
    · cases hsome
    · show x ∈ m.pages p ↔ x ∈ m₀.pages p ∨ p = .kernel ∧ (x = pd ∨ _)
      rw [hown, hpages, List.mem_append, or_comm]
      apply or_congr_right
      cases p with
      | kernel => simp [pagesOf]
      | user => simp [pagesOf]
    · rw [(hown x).mp hx]
      exact hnew p
    · show (m.setPage pd (m.bytes R.initPageDir)).bytes R.initPageDir = _
      rw [Memory.setPage_of_ne hne]
      exact hx.bytes .kernel _ hdir.mem

lemma index_lt {va : ℕ} (hva : va < 2 ^ 32) : va / 4096 / 1024 < 1024 := by
  omega

namespace PageInv

section PageInv

variable (h : PageInv R m₀ pd w)
include h

lemma pd_ne : pd ≠ R.initPageDir := by
  intro heq
  exact h.apart pd (Or.inl rfl) .kernel (heq ▸ h.init)

variable (hdir : IsDir R m₀ R.initPageDir 1024)
include hdir

/-- `init_page_dir` is none of the tables, since those for addresses of the kernel are its own tables. -/
lemma init_noTable :
    ∀ i < 1024, tableAt w.mem pd i ≠ some R.initPageDir := by
  intro i hi ht
  by_cases hlt : i < 768
  · exact h.apart _ (Or.inr ⟨i, hlt, ht⟩) .kernel h.init
  · have hsame : tableAt m₀ R.initPageDir i = some R.initPageDir := by
      rw [← ht]
      unfold tableAt
      rw [h.kernel i (by omega) hi]
    exact (hdir.table i hi _ hsame).2 rfl

/-- A call for one page. -/
lemma changes (hc : Changes R pd 1024 u w.mem m') (map' : ℕ → Option ℕ)
    (hother : ∀ v < 786432, v ≠ u → map' v = w.map v) (hself : u < 786432 → frameOf (entryAt m' pd u) = map' u)
    (hram : ∀ v x, map' v = some x → InRam x) : PageInv R m₀ pd { w with mem := m', map := map' } := by
  refine ⟨hc.dir, fun v hv => ?_, hram, fun p x => ⟨fun hx => ?_, fun hx => ?_⟩, fun x hx p hheld => ?_, fun i hi hlt => ?_,
    h.init, ?_⟩
  · by_cases hvu : v = u
    · rw [hvu]
      exact hself (hvu ▸ hv)
    · show frameOf (entryAt m' pd v) = map' v
      rw [hc.entry v (by omega) hvu, hother v hv hvu]
      exact h.map v hv
  · rcases hc.added hx with hold | ⟨hp, hnew⟩
    · rcases (h.pages p x).mp hold with hheld | ⟨hp, hpd | ⟨i, hi, ht⟩⟩
      · exact Or.inl hheld
      · exact Or.inr ⟨hp, Or.inl hpd⟩
      · exact Or.inr ⟨hp, Or.inr ⟨i, hi, hc.kept i (by omega) x ht⟩⟩
    · exact Or.inr ⟨hp, Or.inr hnew⟩
  · rcases hx with hheld | ⟨rfl, rfl | ⟨i, hi, ht⟩⟩
    · exact hc.mono ((h.pages p x).mpr (Or.inl hheld))
    · exact hc.dir.mem
    · exact (hc.dir.table i (by omega) x ht).1
  · rcases hx with rfl | ⟨i, hi, ht⟩
    · exact h.apart x (Or.inl rfl) p hheld
    · rcases hc.new i (by omega) x ht with hold | hfresh
      · exact h.apart x (Or.inr ⟨i, hi, hold⟩) p hheld
      · exact hfresh p ((h.pages p x).mpr (Or.inl hheld))
  · exact (hc.top i hi).trans (h.kernel i hi hlt)
  · rw [← h.same]
    exact hc.bytes .kernel _ ((h.pages _ _).mpr (Or.inl h.init)) h.pd_ne.symm (h.init_noTable hdir)

/-- An allocation has failed. -/
lemma unchanged (hx : Extends R w.mem (fun _ => []) [] m') (hbytes : m'.bytes = w.mem.bytes) :
    PageInv R m₀ pd { w with mem := m' } ∧ ∀ v < 1048576, entryAt m' pd v = entryAt w.mem pd v := by
  have hsame := fun u => Changes.of_extends h.dir hx hbytes u
  refine ⟨h.changes hdir (hsame 786432) w.map (fun _ _ _ => rfl) (fun hlt => absurd hlt (by omega)) h.ram, fun v hv => ?_⟩
  exact (hsame (v + 1)).entry v hv (by omega)

/-- A page for something else. -/
lemma getPage (p : PoolId) (zero : Bool) (env) :
    ∃ w', w.exec R env pd (.getPage p zero) = .ok w' ∧ PageInv R m₀ pd w' ∧
      ∀ v < 1048576, entryAt w'.mem pd v = entryAt w.mem pd v := by
  rw [PageWorld.exec]
  rcases (Extends.refl h.dir.sound).pallocGetPage env p zero with ⟨m, hget, hx, hbytes⟩ | ⟨x, m, hget, hx, hbytes⟩
  · rw [hget]
    obtain ⟨hinv, hentry⟩ := h.unchanged hdir hx hbytes
    exact ⟨_, rfl, hinv, hentry⟩
  · rw [hget]
    have hmem : x ∈ update (fun _ => []) p [x] p := by
      rw [update_self]
      exact List.mem_singleton_self x
    have hnew : ∀ q, x ∉ w.mem.pages q := fun q => hx.not_old hmem q
    have hold : ∀ y q, y ∈ w.mem.pages q → m.bytes y = w.mem.bytes y := fun y q hy => hx.bytes q y hy
    have hpages : ∀ q y, y ∈ m.pages q ↔ q = p ∧ y = x ∨ y ∈ w.mem.pages q := by
      intro q y
      rw [hx.pages, List.mem_append]
      apply or_congr_left
      by_cases hq : q = p
      · subst hq
        simp
      · simp [hq]
    have hpd := hold pd .kernel h.dir.mem
    have htable : ∀ i, tableAt m pd i = tableAt w.mem pd i := fun i => tableAt_congr (Memory.word_congr hpd)
    have hentry : ∀ v < 1048576, entryAt m pd v = entryAt w.mem pd v := by
      intro v hv
      apply entryAt_congr (Memory.word_congr hpd)
      intro t ht
      exact Memory.word_congr (hold t .kernel (h.dir.table _ (by omega) t ht).1)
    have hheld : ∀ q y, y ∈ update w.held p (x :: w.held p) q ↔ q = p ∧ y = x ∨ y ∈ w.held q := by
      intro q y
      by_cases hq : q = p
      · subst hq
        simp
      · simp [hq]
    have hown : ∀ y, (y = pd ∨ ∃ i < 768, tableAt m pd i = some y) ↔ y ∈ w.own pd := by
      intro y
      simp only [htable]
      rfl
    have hmono : ∀ y ∈ w.mem.pages .kernel, y ∈ m.pages .kernel := fun y hy => (hpages .kernel y).mpr (Or.inr hy)
    refine ⟨_, rfl, ⟨h.dir.congr hx.sound hpd hmono, fun v hv => ?_, h.ram, fun q y => ?_, fun y hy q hyq => ?_,
      fun i hi hlt => ?_, ?_, ?_⟩, hentry⟩
    · show frameOf (entryAt m pd v) = w.map v
      rw [hentry v (by omega)]
      exact h.map v hv
    · show y ∈ m.pages q ↔ y ∈ update w.held p (x :: w.held p) q ∨ q = .kernel ∧ (y = pd ∨ _)
      rw [hpages, hheld, hown, h.pages, or_assoc]
    · have hyown : y ∈ w.own pd := (hown y).mp hy
      rcases (hheld q y).mp hyq with ⟨-, rfl⟩ | hyq
      · exact hnew .kernel ((h.pages .kernel y).mpr (Or.inr ⟨rfl, hyown⟩))
      · exact h.apart y hyown q hyq
    · exact (Memory.word_congr hpd).trans (h.kernel i hi hlt)
    · exact (hheld .kernel _).mpr (Or.inr h.init)
    · exact (hold _ .kernel ((h.pages _ _).mpr (Or.inl h.init))).trans h.same

/-- A bit that does not matter for the map. -/
lemma setBit {bit mask vpage : ℕ} (hbit : bit &&& 1 = 0 ∧ bit < 4096)
    (hmask : mask &&& 1 = 1 ∧ mask >>> 12 = 2 ^ 20 - 1) (hlt : vpage / 4096 / 1024 < 1024) (on : Bool) (env) :
    ∃ mem, pagedirSetBit R env bit mask w.mem pd vpage on = .ok mem ∧ PageInv R m₀ pd { w with mem } ∧
      ∀ v < 1048576, some (vpage / 4096) ≠ some v → entryAt mem pd v = entryAt w.mem pd v := by
  obtain ⟨mem, hrun, hc, hframe⟩ := h.dir.pagedirSetBit hbit hmask hlt on env
  refine ⟨mem, hrun, h.changes hdir hc w.map (fun _ _ _ => rfl) (fun hu => ?_) h.ram, fun v hv hne => ?_⟩
  · rw [hframe]
    exact h.map _ hu
  · exact hc.entry v hv fun heq => hne (congrArg some heq.symm)

/-- Every call returns, and no entry changes but the one of the page that it is for. -/
lemma exec (hlegal : op.Legal R w) (env) :
    ∃ w', w.exec R env pd op = .ok w' ∧ PageInv R m₀ pd w' ∧
      ∀ v < 1048576, op.page ≠ some v → entryAt w'.mem pd v = entryAt w.mem pd v := by
  cases op with
  | getPage p zero =>
    obtain ⟨w', hrun, hinv, hentry⟩ := h.getPage hdir p zero env
    exact ⟨w', hrun, hinv, fun v hv _ => hentry v hv⟩
  | setPage upage kpage writable =>
    obtain ⟨halign, hlt, hlo, hhi, hfree⟩ := hlegal
    have hu : upage / 4096 < 786432 := by
      unfold physBase at hlt
      omega
    rw [← h.map _ hu] at hfree
    rw [PageWorld.exec]
    rcases h.dir.pagedirSetPage h.pd_ne halign hlt hlo hhi hfree writable env with
      ⟨mem, hrun, hx, hbytes⟩ | ⟨mem, hrun, hc, hself⟩
    · obtain ⟨hinv, hentry⟩ := h.unchanged hdir hx hbytes
      rw [hrun]
      exact ⟨_, rfl, hinv, fun v hv _ => hentry v hv⟩
    · have hram : InRam kpage := by
        have hsmall := R.small
        unfold InRam
        omega
      rw [hrun]
      refine ⟨_, rfl, h.changes hdir hc (update w.map (upage / 4096) (some kpage)) (fun v _ hne => ?_) (fun _ => ?_)
        fun v x hx => ?_, fun v hv hne => ?_⟩
      · exact update_of_ne hne ..
      · rw [hself, frameOf_pte_some hram, update_self]
      · by_cases hv : v = upage / 4096
        · rw [hv, update_self] at hx
          cases hx
          exact hram
        · rw [update_of_ne hv] at hx
          exact h.ram v x hx
      · exact hc.entry v hv fun heq => hne (congrArg some heq.symm)
  | clearPage upage =>
    obtain ⟨halign, hlt⟩ := hlegal
    obtain ⟨mem, hrun, hc, hframe⟩ := h.dir.pagedirClearPage halign hlt env
    rw [PageWorld.exec, hrun]
    refine ⟨_, rfl, h.changes hdir hc (update w.map (upage / 4096) none) (fun v _ hne => ?_) (fun _ => ?_)
      fun v x hx => ?_, fun v hv hne => ?_⟩
    · exact update_of_ne hne ..
    · rw [hframe, update_self]
    · by_cases hv : v = upage / 4096
      · rw [hv, update_self] at hx
        cases hx
      · rw [update_of_ne hv] at hx
        exact h.ram v x hx
    · exact hc.entry v hv fun heq => hne (congrArg some heq.symm)
  | setDirty vpage dirty =>
    have hbit : 0x40 &&& 1 = 0 ∧ 0x40 < 4096 := by decide
    have hmask : 0xffffffbf &&& 1 = 1 ∧ 0xffffffbf >>> 12 = 2 ^ 20 - 1 := by decide
    obtain ⟨mem, hrun, hinv, hentry⟩ := h.setBit hdir hbit hmask (index_lt hlegal) dirty env
    rw [PageWorld.exec, pagedirSetDirty, hrun]
    exact ⟨_, rfl, hinv, hentry⟩
  | setAccessed vpage accessed =>
    have hbit : 0x20 &&& 1 = 0 ∧ 0x20 < 4096 := by decide
    have hmask : 0xffffffdf &&& 1 = 1 ∧ 0xffffffdf >>> 12 = 2 ^ 20 - 1 := by decide
    obtain ⟨mem, hrun, hinv, hentry⟩ := h.setBit hdir hbit hmask (index_lt hlegal) accessed env
    rw [PageWorld.exec, pagedirSetAccessed, hrun]
    exact ⟨_, rfl, hinv, hentry⟩

omit hdir in
/-- What `pagedir_destroy` finds, if the frames are different pages that are in use. -/
lemma disposable (howned : w.Owned) :
    Disposable w.mem pd (tableAt w.mem pd) (entryAt w.mem pd) := by
  have hheld : ∀ u < 786432, ∀ x, frameOf (entryAt w.mem pd u) = some x → ∃ p, x ∈ w.held p := by
    intro u hu x hx
    rw [h.map u hu] at hx
    exact howned.2 u hu x hx
  refine h.dir.disposable (fun u hu x hx => ?_) (fun u hu x hx => ?_) fun u hu v hv x hux hvx => ?_
  · obtain ⟨p, hp⟩ := hheld u hu x hx
    exact ⟨p, (h.pages p x).mpr (Or.inl hp)⟩
  · obtain ⟨p, hp⟩ := hheld u hu x hx
    refine ⟨fun hpd => ?_, fun i hi ht => ?_⟩
    · exact h.apart x (Or.inl hpd) p hp
    · exact h.apart x (Or.inr ⟨i, hi, ht⟩) p hp
  · rw [h.map u hu] at hux
    rw [h.map v hv] at hvx
    exact howned.1 u hu v hv x hux hvx

end PageInv

end PageInv

lemma pageInv_of_reachable (hdir : IsDir R m₀ R.initPageDir 1024) (hempty : ∀ i < 768, m₀.word R.initPageDir i = 0)
    (h : ((pageMachine R env m₀ pd).restrict (PageOp.Legal R)).Reachable w) : PageInv R m₀ pd w := by
  refine h.invariant (fun w hw => ?_) fun w op w' _ hinv hstep => ?_
  · obtain ⟨mem, hcreate, rfl⟩ := hw
    exact pageInv_create hdir hempty hcreate
  · obtain ⟨hlegal, hstep⟩ := Machine.restrict_step.mp hstep
    obtain ⟨w'', hrun, hinv', -⟩ := hinv.exec hdir hlegal env
    have hstep : (w.exec R env pd op).toOption = some w' := hstep
    rw [hrun] at hstep
    cases hstep
    exact hinv'

/-- After any sequence of calls the directory is the map of the pages that were set and not cleared since, a call changes the
entry of its page only, and the entries for the kernel are those of `init_page_dir`. If the frames are different pages that are
in use, then `pagedir_destroy` gives back the frames and the pages that were allocated for the directory, and no other page. -/
theorem pagedir_maps (hdir : IsDir R m₀ R.initPageDir 1024) (hempty : ∀ i < 768, m₀.word R.initPageDir i = 0)
    (h : ((pageMachine R env m₀ pd).restrict (PageOp.Legal R)).Reachable w) :
    (∀ ua < physBase, pagedirGetPage R env w.mem pd ua =
      .ok ((w.map (ua / 4096)).map fun kpage => kpage * 4096 + ua % 4096)) ∧
    (∀ va < 2 ^ 32, pagedirIsDirty R env w.mem pd va = .ok (decide (entryAt w.mem pd (va / 4096) &&& 0x40 ≠ 0)) ∧
      pagedirIsAccessed R env w.mem pd va = .ok (decide (entryAt w.mem pd (va / 4096) &&& 0x20 ≠ 0))) ∧
    (∀ op : PageOp, op.Legal R w → ∃ w', w.exec R env pd op = .ok w' ∧
      ∀ v < 1048576, op.page ≠ some v → entryAt w'.mem pd v = entryAt w.mem pd v) ∧
    (∀ upage kpage writable m', (PageOp.setPage upage kpage writable).Legal R w →
      pagedirSetPage R env w.mem pd upage kpage writable = .ok (false, m') →
      ∀ v < 1048576, entryAt m' pd v = entryAt w.mem pd v) ∧
    (∀ i, 768 ≤ i → i < 1024 → w.mem.word pd i = w.mem.word R.initPageDir i ∧
      w.mem.word R.initPageDir i = m₀.word R.initPageDir i) ∧
    (∀ p x, x ∈ w.mem.pages p ↔ x ∈ w.held p ∨ p = .kernel ∧ x ∈ w.own pd) ∧ (∀ x ∈ w.own pd, ∀ p, x ∉ w.held p) ∧
    (w.Owned → ∃ m', pagedirDestroy R w.mem (some pd) = .ok m' ∧
      ∀ p x, x ∈ m'.pages p ↔ x ∈ w.mem.pages p ∧ x ∉ w.own pd ∧ ∀ u < 786432, w.map u ≠ some x) := by
  have hinv := pageInv_of_reachable hdir hempty h
  refine ⟨fun ua hua => ?_, fun va hva => ⟨?_, ?_⟩, fun op hlegal => ?_, fun upage kpage writable m' hlegal hrun v hv => ?_,
    fun i hi hlt => ?_, hinv.pages, hinv.apart, fun howned => ?_⟩
  · have hu : ua / 4096 < 786432 := by
      unfold physBase at hua
      omega
    rw [hinv.dir.pagedirGetPage hua (fun x hx => ?_) env, hinv.map _ hu]
    rw [hinv.map _ hu] at hx
    exact hinv.ram _ x hx
  · exact hinv.dir.pagedirHasBit (index_lt hva) _ env
  · exact hinv.dir.pagedirHasBit (index_lt hva) _ env
  · obtain ⟨w', hrun, -, hentry⟩ := hinv.exec hdir hlegal env
    exact ⟨w', hrun, hentry⟩
  · obtain ⟨halign, hlt, hlo, hhi, hfree⟩ := hlegal
    have hu : upage / 4096 < 786432 := by
      unfold physBase at hlt
      omega
    rw [← hinv.map _ hu] at hfree
    rcases hinv.dir.pagedirSetPage hinv.pd_ne halign hlt hlo hhi hfree writable env with
      ⟨mem, hset, hx, hbytes⟩ | ⟨mem, hset, -, -⟩
    · rw [hset] at hrun
      cases hrun
      exact (hinv.unchanged hdir hx hbytes).2 v hv
    · rw [hset] at hrun
      cases hrun
  · have hsame := Memory.word_congr (i := i) hinv.same
    exact ⟨(hinv.kernel i hi hlt).trans hsame.symm, hsame⟩
  · obtain ⟨m', hrun, hfreed⟩ := pagedirDestroy_freed hinv.dir.tables (hinv.disposable howned) hinv.dir.sound hinv.pd_ne
    refine ⟨m', hrun, fun p x => ?_⟩
    rw [hfreed.pages]
    apply and_congr_right
    intro _
    rw [Set.mem_insert_iff, not_or]
    constructor
    · rintro ⟨hpd, hnot⟩
      refine ⟨?_, fun u hu hx => hnot (Or.inl ⟨u, hu, (hinv.map u hu).trans hx⟩)⟩
      rintro (heq | htable)
      · exact hpd heq
      · exact hnot (Or.inr htable)
    · rintro ⟨hown, hframe⟩
      refine ⟨fun hpd => hown (Or.inl hpd), ?_⟩
      rintro (⟨u, hu, hx⟩ | htable)
      · exact hframe u hu ((hinv.map u hu).symm.trans hx)
      · exact hown (Or.inr htable)

end Runs

/-- `init_page_dir` is the only page in use, and it is empty. -/
def emptyMemory : Memory where
  pages
    | .kernel => [0xc0101]
    | .user => []
  heap := mallocStart exampleDescs fun _ => 0
  bytes _ _ := 0
  calls := 0

lemma emptyMemory_isDir : IsDir exampleRam emptyMemory exampleRam.initPageDir 1024 := by
  have hnone : ∀ i, tableAt emptyMemory exampleRam.initPageDir i = none :=
    fun i => tableAt_of_zero (Memory.word_zero rfl)
  refine ⟨by decide, ⟨fun p => ?_, fun p => ?_, fun p x _ r hr => ?_, emptyHeap, mallocStart_inv _⟩, List.mem_singleton_self _,
    fun i _ => ?_, fun i _ t ht => ?_, fun i _ j _ t ht => ?_⟩
  · cases p <;> simp [emptyMemory]
  · cases p <;> simp [emptyMemory, exampleRam, Pool.hasPage]
  · cases hr
  · rw [hnone, Memory.word_zero rfl, pde_none]
  · cases ht
  · cases ht

/-- A page for the directory, one for a frame, and one for a table. -/
def exampleFrames (i : ℕ) : Option ℕ :=
  [0xc0110, 0xc0190, 0xc0111][i]?

/-- The directory after the calls. -/
def exampleRun (ops : List PageOp) : Option PageWorld :=
  ((pageMachine exampleRam exampleFrames emptyMemory 0xc0110).restrict (PageOp.Legal exampleRam)).run
    { mem := (pagedirCreate exampleRam exampleFrames emptyMemory).2, map := fun _ => none, held := emptyMemory.pages } ops

lemma exampleRun_reachable {ops : List PageOp} {w : PageWorld} (h : exampleRun ops = some w) :
    ((pageMachine exampleRam exampleFrames emptyMemory 0xc0110).restrict (PageOp.Legal exampleRam)).Reachable w := by
  have hcreate : (pagedirCreate exampleRam exampleFrames emptyMemory).1 = some 0xc0110 := by decide
  exact ⟨_, ops, ⟨_, Prod.ext hcreate rfl, rfl⟩, h⟩

theorem pagedir_maps_onePage : ∃ w,
    exampleRun [.getPage .user false, .setPage 0x1000 0xc0190 true, .setDirty 0x1000 true] = some w ∧
      pagedirGetPage exampleRam exampleFrames w.mem 0xc0110 0x1004 = .ok (some 0xc0190004) ∧
      ∃ m', pagedirDestroy exampleRam w.mem (some 0xc0110) = .ok m' ∧
        ∀ p x, x ∈ m'.pages p ↔ x ∈ w.mem.pages p ∧ x ∉ w.own 0xc0110 ∧ ∀ u < 786432, w.map u ≠ some x := by
  obtain ⟨w, hrun, hmap, hheld⟩ : ∃ w,
      exampleRun [.getPage .user false, .setPage 0x1000 0xc0190 true, .setDirty 0x1000 true] = some w ∧
        w.map = update (fun _ => none) 1 (some 0xc0190) ∧ w.held .user = [0xc0190] := ⟨_, rfl, rfl, rfl⟩
  have hframe : ∀ u x, w.map u = some x → u = 1 ∧ x = 0xc0190 := by
    intro u x hx
    rw [hmap] at hx
    by_cases hu : u = 1
    · rw [hu, update_self] at hx
      exact ⟨hu, (Option.some.inj hx).symm⟩
    · rw [update_of_ne hu] at hx
      cases hx
  have howned : w.Owned := by
    refine ⟨fun u _ v _ x hu hv => (hframe u x hu).1.trans (hframe v x hv).1.symm, fun u _ x hx => ⟨.user, ?_⟩⟩
    rw [hheld, (hframe u x hx).2]
    exact List.mem_singleton_self _
  obtain ⟨hget, -, -, -, -, -, -, hdestroy⟩ :=
    pagedir_maps emptyMemory_isDir (fun _ _ => Memory.word_zero rfl) (exampleRun_reachable hrun)
  refine ⟨w, hrun, ?_, hdestroy howned⟩
  rw [hget 0x1004 (by decide), hmap]
  rfl

/-- Whether a call fails since it gives a page back that is not in use. -/
def failsInPalloc {α : Type} : KernelM α → Bool
  | .error .palloc => true
  | _ => false

/-- One frame is mapped for two pages, so `pagedir_destroy` would free it twice. -/
theorem destroy_shared_frame : ∃ w,
    ((pageMachine exampleRam exampleFrames emptyMemory 0xc0110).restrict (PageOp.Legal exampleRam)).Reachable w ∧
      w.map 1 = some 0xc0190 ∧ w.map 2 = some 0xc0190 ∧ 0xc0190 ∈ w.held .user ∧
      failsInPalloc (pagedirDestroy exampleRam w.mem (some 0xc0110)) = true := by
  obtain ⟨w, hrun, hmap, hmap', hheld⟩ : ∃ w,
      exampleRun [.getPage .user false, .setPage 0x1000 0xc0190 true, .setPage 0x2000 0xc0190 true] = some w ∧
        w.map 1 = some 0xc0190 ∧ w.map 2 = some 0xc0190 ∧ w.held .user = [0xc0190] := ⟨_, rfl, rfl, rfl, rfl⟩
  have hfails : (exampleRun [.getPage .user false, .setPage 0x1000 0xc0190 true, .setPage 0x2000 0xc0190 true]).map
      (fun w => failsInPalloc (pagedirDestroy exampleRam w.mem (some 0xc0110))) = some true := by
    decide +kernel
  rw [hrun] at hfails
  refine ⟨w, exampleRun_reachable hrun, hmap, hmap', ?_, Option.some.inj hfails⟩
  rw [hheld]
  exact List.mem_singleton_self _

end OsLabs.Userprog
