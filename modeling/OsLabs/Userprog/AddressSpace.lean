import OsLabs.Userprog.PageMap

/-!
# Address spaces

What a page directory leads to is a tree of page tables and frames. `Stored m K U T c d` says that the tree `T` is in memory,
and that `K` and `U` are its pages in the kernel and in the user pool. `pagedir_destroy` goes through the tree from the left:
the frames of the pages before `c` and the tables before `d` are not there any more.
-/

namespace OsLabs.Userprog

open Lib Threads Function

/-! ## The tree -/

/-- What a page directory leads to: its page tables, the frames with the permission to write to them, and the entries of
the kernel. -/
structure Tree where
  pd : ℕ
  tables : ℕ → Option ℕ
  frames : ℕ → Option (ℕ × Bool)
  top : ℕ → ℕ

/-- Frames are in page tables, and no page is there twice. -/
structure Tree.Wf (T : Tree) : Prop where
  covered : ∀ u f, T.frames u = some f → ∃ t, T.tables (u / 1024) = some t
  below : ∀ i t, T.tables i = some t → i < 768
  ne_pd : ∀ i t, T.tables i = some t → t ≠ T.pd
  tables_inj : ∀ i j t, T.tables i = some t → T.tables j = some t → i = j
  frames_inj : ∀ u v x w w', T.frames u = some (x, w) → T.frames v = some (x, w') → u = v

/-- The tree is in memory, apart from what `pagedir_destroy` has freed of it so far. -/
structure Stored (m : Memory) (K U : List ℕ) (T : Tree) (c d : ℕ) : Prop where
  wf : T.Wf
  dir : ∀ i, d ≤ i → i < 768 → m.word T.pd i = pde (T.tables i)
  top : ∀ i, 768 ≤ i → i < 1024 → m.word T.pd i = T.top i
  table : ∀ i t, d ≤ i → T.tables i = some t → ∀ j < 1024, m.word t j = pte (T.frames (1024 * i + j))
  kernel : ∀ x, x ∈ K ↔ x = T.pd ∨ ∃ i, d ≤ i ∧ T.tables i = some x
  user : ∀ x, x ∈ U ↔ ∃ u w, c ≤ u ∧ T.frames u = some (x, w)

section Tree

variable {R : Ram} {env : ℕ → Option ℕ} {m m' m₀ : Memory} {K U blocks : List ℕ} {T : Tree} {c d i t u x : ℕ} {w : Bool}

namespace Stored

lemma pd_mem (h : Stored m K U T c d) : T.pd ∈ K :=
  (h.kernel _).mpr (Or.inl rfl)

lemma table_mem (h : Stored m K U T c d) (hd : d ≤ i) (ht : T.tables i = some t) : t ∈ K :=
  (h.kernel t).mpr (Or.inr ⟨i, hd, ht⟩)

/-- Only the pages of the directory and of its tables matter. -/
lemma congr (h : Stored m K U T c d) (hbytes : ∀ y ∈ K, m'.bytes y = m.bytes y) : Stored m' K U T c d where
  wf := h.wf
  dir i hd hi := by
    rw [Memory.word_congr (hbytes _ h.pd_mem)]
    exact h.dir i hd hi
  top i hd hi := by
    rw [Memory.word_congr (hbytes _ h.pd_mem)]
    exact h.top i hd hi
  table i t hd ht j hj := by
    rw [Memory.word_congr (hbytes t (h.table_mem hd ht))]
    exact h.table i t hd ht j hj
  kernel := h.kernel
  user := h.user

end Stored

/-! ## What the directory says -/

open Memory (Extends)

namespace Stored

variable {V : List ℕ}

/-- Without a table there is no frame. -/
lemma frames_none (h : Stored m K U T c d) (ht : T.tables (u / 1024) = none) : T.frames u = none := by
  cases hf : T.frames u with
  | none => rfl
  | some f =>
    obtain ⟨t, ht'⟩ := h.wf.covered u f hf
    rw [ht] at ht'
    cases ht'

variable (hx : Extends R m₀ (pagesOf K V) blocks m) (h : Stored m K U T 0 0)
include hx h

lemma inRam (ht : T.tables i = some t) : InRam t :=
  inRam_of_hasPage (hx.hasPage (p := .kernel) (h.table_mem (Nat.zero_le i) ht))

lemma tableAt_eq (hi : i < 768) : tableAt m T.pd i = T.tables i := by
  have hword := h.dir i (Nat.zero_le i) hi
  cases ht : T.tables i with
  | none =>
    rw [ht] at hword
    exact tableAt_of_zero hword
  | some t =>
    rw [ht] at hword
    exact tableAt_of_pde (h.inRam hx ht) hword

lemma isDir : IsDir R m T.pd 768 where
  low := Nat.le_refl _
  sound := hx.sound
  mem := hx.mem_pages h.pd_mem
  dir i hi := by
    rw [h.tableAt_eq hx hi]
    exact h.dir i (Nat.zero_le i) hi
  table i hi t ht := by
    rw [h.tableAt_eq hx hi] at ht
    exact ⟨hx.mem_pages (h.table_mem (Nat.zero_le i) ht), h.wf.ne_pd i t ht⟩
  inj i hi j hj t hti htj := by
    rw [h.tableAt_eq hx hi] at hti
    rw [h.tableAt_eq hx hj] at htj
    exact h.wf.tables_inj i j t hti htj

lemma entryAt_eq (hu : u < 786432) : entryAt m T.pd u = pte (T.frames u) := by
  have htable := h.tableAt_eq hx (i := u / 1024) (by omega)
  cases ht : T.tables (u / 1024) with
  | none =>
    rw [entryAt_of_noTable (htable.trans ht), h.frames_none ht]
    rfl
  | some t =>
    rw [entryAt_of_table (htable.trans ht), h.table _ t (Nat.zero_le _) ht _ (by omega)]
    exact congrArg (fun v => pte (T.frames v)) (by omega)

lemma frameOf_eq (hsub : U ⊆ V) (hu : u < 786432) : frameOf (entryAt m T.pd u) = (T.frames u).map Prod.fst := by
  rw [h.entryAt_eq hx hu]
  cases hf : T.frames u with
  | none => exact frameOf_pte_none
  | some f =>
    obtain ⟨y, w⟩ := f
    have hmem : y ∈ pagesOf K V .user := hsub ((h.user y).mpr ⟨u, w, Nat.zero_le u, hf⟩)
    exact frameOf_pte_some (inRam_of_hasPage (hx.hasPage hmem))

end Stored

/-! ## Destruction -/

namespace Stored

variable (hx : Extends R m₀ (pagesOf K U) blocks m) (h : Stored m K U T 0 0)
include hx h

lemma frameOf_eq_some (hu : u < 786432) :
    frameOf (entryAt m T.pd u) = some x ↔ ∃ w, T.frames u = some (x, w) := by
  rw [h.frameOf_eq hx (List.Subset.refl U) hu]
  simp

lemma disposable : Disposable m T.pd (tableAt m T.pd) (entryAt m T.pd) := by
  refine (h.isDir hx).disposable (fun u hu x hframe => ?_) (fun u hu x hframe => ⟨?_, fun i hi ht => ?_⟩)
    fun u hu v hv x hux hvx => ?_
  · obtain ⟨w, hf⟩ := (h.frameOf_eq_some hx hu).mp hframe
    exact ⟨.user, hx.mem_pages ((h.user x).mpr ⟨u, w, Nat.zero_le u, hf⟩)⟩
  · -- frames are in the user pool, the directory and the tables are not
    obtain ⟨w, hf⟩ := (h.frameOf_eq_some hx hu).mp hframe
    exact hx.ne (p := .user) ((h.user x).mpr ⟨u, w, Nat.zero_le u, hf⟩) (q := .kernel) h.pd_mem (by decide)
  · obtain ⟨w, hf⟩ := (h.frameOf_eq_some hx hu).mp hframe
    rw [h.tableAt_eq hx hi] at ht
    exact hx.ne (p := .user) ((h.user x).mpr ⟨u, w, Nat.zero_le u, hf⟩) (q := .kernel) (h.table_mem (Nat.zero_le i) ht)
      (by decide) rfl
  · obtain ⟨w, hf⟩ := (h.frameOf_eq_some hx hu).mp hux
    obtain ⟨w', hf'⟩ := (h.frameOf_eq_some hx hv).mp hvx
    exact h.wf.frames_inj u v x w w' hf hf'

/-- The pages of the tree. -/
lemma mem_freed_iff (x : ℕ) :
    x ∈ insert T.pd (freedUpTo (tableAt m T.pd) (entryAt m T.pd) 786432 768) ↔ x ∈ K ∨ x ∈ U := by
  rw [h.kernel, h.user]
  constructor
  · rintro (rfl | ⟨u, hu, hframe⟩ | ⟨i, hi, ht⟩)
    · exact Or.inl (Or.inl rfl)
    · obtain ⟨w, hf⟩ := (h.frameOf_eq_some hx hu).mp hframe
      exact Or.inr ⟨u, w, Nat.zero_le u, hf⟩
    · rw [h.tableAt_eq hx hi] at ht
      exact Or.inl (Or.inr ⟨i, Nat.zero_le i, ht⟩)
  · rintro ((rfl | ⟨i, -, ht⟩) | ⟨u, w, -, hf⟩)
    · exact Or.inl rfl
    · have hi := h.wf.below i x ht
      exact Or.inr (Or.inr ⟨i, hi, (h.tableAt_eq hx hi).trans ht⟩)
    · obtain ⟨t, ht⟩ := h.wf.covered u _ hf
      have hlt := h.wf.below _ t ht
      have hu : u < 786432 := by omega
      exact Or.inr (Or.inl ⟨u, hu, (h.frameOf_eq_some hx hu).mpr ⟨w, hf⟩⟩)

end Stored

/-- `pagedir_destroy` gives all pages of the tree back, and nothing else. -/
lemma pagedirDestroy_spec (hx : Extends R m₀ (pagesOf K U) blocks m) (h : Stored m K U T 0 0)
    (hpd : T.pd ≠ R.initPageDir) :
    ∃ m', pagedirDestroy R m (some T.pd) = .ok m' ∧ Extends R m₀ (fun _ => []) blocks m' := by
  obtain ⟨m', hrun, hfreed⟩ := pagedirDestroy_freed (h.isDir hx).tables (h.disposable hx) hx.sound hpd
  have hnew : ∀ p, ∀ x ∈ m₀.pages p, ¬(x ∈ K ∨ x ∈ U) := by
    rintro p x hold (hmem | hmem)
    · exact hx.not_old (p := .kernel) hmem p hold
    · exact hx.not_old (p := .user) hmem p hold
  refine ⟨m', hrun, hx.base, hfreed.sound, fun p => ?_, fun p x hold => ?_, hx.nodup, hx.new, ?_, ?_⟩
  · have hmem : ∀ x, x ∈ m'.pages p ↔ x ∈ m₀.pages p := by
      intro x
      rw [hfreed.pages, h.mem_freed_iff hx, hx.pages, List.mem_append]
      constructor
      · rintro ⟨hown | hold, hnot⟩
        · cases p
          · exact absurd (Or.inl hown) hnot
          · exact absurd (Or.inr hown) hnot
        · exact hold
      · exact fun hold => ⟨Or.inr hold, hnew p x hold⟩
    -- the pages that are left are in their old order
    have hsub := hfreed.sublist p
    rw [hx.pages, List.sublist_append_iff] at hsub
    obtain ⟨own, old, hsplit, hown, hold⟩ := hsub
    have hnil : own = [] := by
      apply List.eq_nil_iff_forall_not_mem.mpr
      intro x hx'
      have hin : x ∈ m'.pages p := by
        rw [hsplit]
        exact List.mem_append_left _ hx'
      exact hx.not_old (hown.subset hx') p ((hmem x).mp hin)
    rw [hnil] at hsplit
    have hperm := (List.perm_ext_iff_of_nodup (hfreed.sound.nodup p) (hx.base.nodup p)).mpr hmem
    rw [hsplit] at hperm ⊢
    exact hold.eq_of_length hperm.length_eq
  · rw [hfreed.bytes x fun hmem => hnew p x hold ((h.mem_freed_iff hx x).mp hmem)]
    exact hx.bytes p x hold
  · rw [hfreed.heap]
    exact hx.live
  · rw [hfreed.heap]
    exact hx.arenas

end Tree

/-! ## Construction -/

section Build

variable {R : Ram} {env : ℕ → Option ℕ} {m m₀ : Memory} {K U V blocks : List ℕ} {T : Tree} {t u va kpage : ℕ} {w : Bool}

open Memory (Extends)

/-- A directory without pages of the process. -/
def Tree.empty (pd : ℕ) (top : ℕ → ℕ) : Tree where
  pd
  tables _ := none
  frames _ := none
  top

/-- `init_page_dir` is allocated, has no entries for the addresses of processes, and the pages that it maps are those of the
kernel: bit 2 is `PTE_U`. -/
structure KernelDir (R : Ram) (m : Memory) : Prop where
  mem : R.initPageDir ∈ m.pages .kernel
  empty : ∀ i < 768, m.word R.initPageDir i = 0
  kernel : ∀ i, 768 ≤ i → i < 1024 → m.word R.initPageDir i = 0 ∨
    ∃ t ∈ m.pages .kernel, m.word R.initPageDir i = pde (some t) ∧ ∀ j < 1024, (m.word t j).testBit 2 = false

lemma pagedirCreate_spec (hx : Extends R m₀ (fun _ => []) blocks m) (hdir : KernelDir R m₀) (env) :
    (∃ m', pagedirCreate R env m = (none, m') ∧ Extends R m₀ (fun _ => []) blocks m') ∨
      ∃ pd m', pagedirCreate R env m = (some pd, m') ∧ Extends R m₀ (pagesOf [pd] []) blocks m' ∧
        Stored m' [pd] [] (Tree.empty pd (m₀.word R.initPageDir)) 0 0 := by
  unfold pagedirCreate
  rcases hx.pallocGetPage env .kernel false with ⟨m', hget, hx', -⟩ | ⟨pd, m', hget, hx', -⟩
  · rw [hget]
    exact Or.inl ⟨m', rfl, hx'⟩
  · rw [← pagesOf_nil, update_pagesOf_kernel] at hx'
    rw [hget]
    have hmem : pd ∈ pagesOf [pd] [] .kernel := List.mem_singleton_self pd
    -- the new page is a copy of a page that nothing has changed since
    have hword : ∀ i, (m'.setPage pd (m'.bytes R.initPageDir)).word pd i = m₀.word R.initPageDir i := by
      intro i
      unfold Memory.word
      rw [Memory.setPage_self, hx'.bytes .kernel _ hdir.mem]
    refine Or.inr ⟨pd, _, rfl, hx'.setPage hmem _, ⟨?_, ?_, ?_, ?_, ?_, ?_⟩⟩
    · constructor <;> intros <;> contradiction
    · intro i _ hi
      exact (hword i).trans (hdir.empty i hi)
    · exact fun i _ _ => hword i
    · intros
      contradiction
    · intro x
      simp [Tree.empty]
    · intro x
      simp [Tree.empty]

/-- `pagedir_get_page`. -/
lemma pagedirGetPage_spec (hx : Extends R m₀ (pagesOf K V) blocks m) (h : Stored m K U T 0 0) (hsub : U ⊆ V)
    (hva : va < physBase) (env) :
    pagedirGetPage R env m T.pd va = .ok ((T.frames (va / 4096)).map fun f => f.1 * 4096 + va % 4096) := by
  have hu : va / 4096 < 786432 := by
    unfold physBase at hva
    omega
  have hframe := h.frameOf_eq hx hsub hu
  rw [(h.isDir hx).pagedirGetPage hva (fun x hsome => ?_) env, hframe, Option.map_map]
  · rfl
  · rw [hframe, Option.map_eq_some_iff] at hsome
    obtain ⟨⟨y, w⟩, hf, rfl⟩ := hsome
    exact inRam_of_hasPage (hx.hasPage (p := .user) (hsub ((h.user y).mpr ⟨_, w, Nat.zero_le _, hf⟩)))

/-- The pages that a call has added. -/
lemma Changes.extends {pd n : ℕ} {m' : Memory} (hc : Changes R pd n u m m') (hx : Extends R m₀ (pagesOf K V) blocks m)
    (hpd : pd ∈ K) (htables : ∀ i < n, ∀ t, tableAt m pd i = some t → t ∈ K) :
    ∃ K', Extends R m₀ (pagesOf (K' ++ K) V) blocks m' ∧ ∀ x ∈ K', ∃ i < 768, tableAt m' pd i = some x := by
  obtain ⟨K', hpages, hK'⟩ := hc.pages
  refine ⟨K', ⟨hx.base, hc.dir.sound, fun p => ?_, fun p x hold => ?_, hx.nodup, hx.new, fun b => ?_, ?_⟩, hK'⟩
  · rw [hpages, hx.pages, ← List.append_assoc]
    cases p <;> rfl
  · have hmem : x ∈ m.pages p := by
      rw [hx.pages]
      exact List.mem_append_right _ hold
    rw [hc.bytes p x hmem ?_ fun i hi ht => ?_]
    · exact hx.bytes p x hold
    · rintro rfl
      exact hx.not_old (p := .kernel) hpd p hold
    · exact hx.not_old (p := .kernel) (htables i hi x ht) p hold
  · rw [hc.live, hx.live]
  · exact List.Subset.trans hx.arenas hc.arenas

/-- The tree after a call, with a new frame. -/
lemma Stored.addFrame (h : Stored m K U T 0 0) (hx : Extends R m₀ (pagesOf K V) blocks m) {m' : Memory} {K' : List ℕ}
    (hu : u < 786432) (hnone : T.frames u = none) (hnew : kpage ∉ U) (hc : Changes R T.pd 768 u m m')
    (hself : entryAt m' T.pd u = pte (some (kpage, w))) (hK' : ∀ x ∈ K', ∃ i < 768, tableAt m' T.pd i = some x)
    (htable : ∀ i < 768, ∀ t, tableAt m' T.pd i = some t → t ∈ K' ++ K) :
    Stored m' (K' ++ K) (kpage :: U) { T with
      tables := fun i => if i < 768 then tableAt m' T.pd i else none
      frames := update T.frames u (some (kpage, w)) } 0 0 := by
  have hcases : ∀ v x w', update T.frames u (some (kpage, w)) v = some (x, w') →
      v = u ∧ x = kpage ∨ v ≠ u ∧ x ≠ kpage ∧ T.frames v = some (x, w') := by
    intro v x w' hf
    by_cases hv : v = u
    · rw [hv, update_self] at hf
      cases hf
      exact Or.inl ⟨hv, rfl⟩
    · rw [update_of_ne hv] at hf
      refine Or.inr ⟨hv, ?_, hf⟩
      rintro rfl
      exact hnew ((h.user x).mpr ⟨v, w', Nat.zero_le _, hf⟩)
  have hentry : ∀ v < 786432, entryAt m' T.pd v = pte (update T.frames u (some (kpage, w)) v) := by
    intro v hv
    by_cases hvu : v = u
    · rw [hvu, update_self]
      exact hself
    · rw [update_of_ne hvu, hc.entry v (by omega) hvu]
      exact h.entryAt_eq hx hv
  have hsome : ∀ {i t}, (if i < 768 then tableAt m' T.pd i else none) = some t → i < 768 ∧ tableAt m' T.pd i = some t :=
    fun ht => Option.ite_none_right_eq_some.mp ht
  refine ⟨⟨fun v f hf => ?_, fun i t ht => (hsome ht).1, fun i t ht => ?_, fun i j t hti htj => ?_,
    fun v v' x w₁ w₂ hv hv' => ?_⟩, fun i _ hi => ?_, fun i hi hlt => ?_, fun i t _ ht j hj => ?_, fun x => ?_, fun x => ?_⟩
  · -- the entry is not 0, so there is a table for it
    obtain ⟨x, w'⟩ := f
    have hf : update T.frames u (some (kpage, w)) v = some (x, w') := hf
    have hv : v < 786432 := by
      rcases hcases v x w' hf with ⟨rfl, -⟩ | ⟨-, -, hold⟩
      · exact hu
      · obtain ⟨t, ht⟩ := h.wf.covered v _ hold
        have hlt := h.wf.below _ t ht
        omega
    have hlt : v / 1024 < 768 := by omega
    dsimp only
    rw [if_pos hlt]
    apply exists_table
    rw [hentry v hv, hf]
    exact pte_ne_zero _
  · exact (hc.dir.table i (hsome ht).1 t (hsome ht).2).2
  · exact hc.dir.inj i (hsome hti).1 j (hsome htj).1 t (hsome hti).2 (hsome htj).2
  · rcases hcases v x w₁ hv with ⟨rfl, rfl⟩ | ⟨-, hne, hold⟩
    · rcases hcases v' _ w₂ hv' with ⟨rfl, -⟩ | ⟨-, hne, -⟩
      · rfl
      · exact absurd rfl hne
    · rcases hcases v' x w₂ hv' with ⟨-, rfl⟩ | ⟨-, -, hold'⟩
      · exact absurd rfl hne
      · exact h.wf.frames_inj v v' x w₁ w₂ hold hold'
  · dsimp only
    rw [if_pos hi]
    exact hc.dir.dir i hi
  · exact (hc.top i hi).trans (h.top i hi hlt)
  · obtain ⟨hi, ht⟩ := hsome ht
    have hdiv : (1024 * i + j) / 1024 = i := by omega
    have hmod : (1024 * i + j) % 1024 = j := by omega
    rw [← hentry _ (by omega), entryAt_of_table (hdiv.symm ▸ ht), hmod]
  · constructor
    · intro hmem
      rcases List.mem_append.mp hmem with hmem | hmem
      · obtain ⟨i, hi, ht⟩ := hK' x hmem
        exact Or.inr ⟨i, Nat.zero_le i, (if_pos hi).trans ht⟩
      · rcases (h.kernel x).mp hmem with hpd | ⟨i, -, ht⟩
        · exact Or.inl hpd
        · have hi := h.wf.below i x ht
          exact Or.inr ⟨i, Nat.zero_le i, (if_pos hi).trans (hc.kept i hi x ((h.tableAt_eq hx hi).trans ht))⟩
    · rintro (rfl | ⟨i, -, ht⟩)
      · exact List.mem_append_right _ h.pd_mem
      · exact htable i (hsome ht).1 x (hsome ht).2
  · rw [List.mem_cons, h.user]
    constructor
    · rintro (rfl | ⟨v, w', hv, hf⟩)
      · exact ⟨u, w, Nat.zero_le _, update_self ..⟩
      · refine ⟨v, w', hv, (update_of_ne ?_ ..).trans hf⟩
        rintro rfl
        rw [hnone] at hf
        cases hf
    · rintro ⟨v, w', hv, hf⟩
      rcases hcases v x w' hf with ⟨-, rfl⟩ | ⟨-, -, hold⟩
      · exact Or.inl rfl
      · exact Or.inr ⟨v, w', hv, hold⟩

/-- `pagedir_set_page`, for a page without a frame. -/
lemma pagedirSetPage_spec (hx : Extends R m₀ (pagesOf K (kpage :: U)) blocks m) (h : Stored m K U T 0 0)
    (hpd : T.pd ≠ R.initPageDir) (hu : u < 786432) (hnone : T.frames u = none) (w : Bool) (env) :
    (∃ m', pagedirSetPage R env m T.pd (u * 4096) kpage w = .ok (false, m') ∧
      Extends R m₀ (pagesOf K (kpage :: U)) blocks m' ∧ m'.bytes = m.bytes) ∨
    ∃ m' K' tables, pagedirSetPage R env m T.pd (u * 4096) kpage w = .ok (true, m') ∧
      Extends R m₀ (pagesOf K' (kpage :: U)) blocks m' ∧
      Stored m' K' (kpage :: U) { T with tables, frames := update T.frames u (some (kpage, w)) } 0 0 ∧
      ∀ y ∈ kpage :: U, m'.bytes y = m.bytes y := by
  have hmem : kpage ∈ pagesOf K (kpage :: U) .user := List.mem_cons_self ..
  have hnew : kpage ∉ U := (List.nodup_cons.mp (hx.nodup_pages .user)).1
  have hbounds := R.page_bounds (hx.hasPage hmem)
  have hpage : u * 4096 / 4096 = u := by omega
  have hfree : frameOf (entryAt m T.pd (u * 4096 / 4096)) = none := by
    rw [hpage, h.entryAt_eq hx hu, hnone]
    exact frameOf_pte_none
  have halign : u * 4096 % 4096 = 0 := Nat.mul_mod_left ..
  have hva : u * 4096 < physBase := by
    unfold physBase
    omega
  have htables : ∀ i < 768, ∀ t, tableAt m T.pd i = some t → t ∈ K := by
    intro i hi t ht
    rw [h.tableAt_eq hx hi] at ht
    exact h.table_mem (Nat.zero_le i) ht
  have hlow : 0xc0000 ≤ kpage := by omega
  rcases (h.isDir hx).pagedirSetPage hpd halign hva hlow hbounds.2 hfree w env with
    ⟨m', hrun, hx', hbytes⟩ | ⟨m', hrun, hc, hself⟩
  · exact Or.inl ⟨m', hrun, hx.trans hx', hbytes⟩
  · rw [hpage] at hc hself
    obtain ⟨K', hx', hK'⟩ := hc.extends hx h.pd_mem htables
    refine Or.inr ⟨m', K' ++ K, _, hrun, hx', h.addFrame hx hu hnone hnew hc hself hK' fun i hi t ht => ?_, fun y hy => ?_⟩
    · rcases hc.new i hi t ht with hold | hfresh
      · exact List.mem_append_right _ (htables i hi t hold)
      · -- a new table is a new page
        have hadded := (hc.dir.table i hi t ht).1
        rw [hx'.pages] at hadded
        rcases List.mem_append.mp hadded with hin | hold
        · exact hin
        · refine absurd ?_ (hfresh .kernel)
          rw [hx.pages]
          exact List.mem_append_right _ hold
    · have hy' : y ∈ pagesOf K (kpage :: U) .user := hy
      apply hc.bytes .user y (hx.mem_pages hy')
      · exact hx.ne hy' (q := .kernel) h.pd_mem (by decide)
      · intro i hi ht
        exact hx.ne hy' (q := .kernel) (htables i hi y ht) (by decide) rfl

end Build

end OsLabs.Userprog
