import OsLabs.Userprog.PageTables

/-!
# Page directories as maps

`tableAt` and `entryAt` read a directory in the way in which the processor reads it, and `IsDir R m pd n` says that there is one
in the page `pd`, as far as its first `n` entries go. These are at least the ones for the addresses of the process; the tables of
the others may be shared with other directories. `Changes R pd n u m m'` says that a call for the page with the number `u` was
made: new pages are tables, and no entry but the one of `u` is different. There is one lemma for each function of
`userprog/pagedir.c`.
-/

namespace OsLabs.Userprog

open Lib Threads
open Memory (Extends)

/-! ## Tables and entries -/

/-- The page table that an entry of the directory is for. -/
def tableAt (m : Memory) (pd i : ℕ) : Option ℕ :=
  if m.word pd i = 0 then none else some (m.word pd i / 4096 + 0xc0000)

/-- The entry for a page, which is 0 if there is no table for it. -/
def entryAt (m : Memory) (pd u : ℕ) : ℕ :=
  match tableAt m pd (u / 1024) with
  | none => 0
  | some t => m.word t (u % 1024)

/-- The page `pd` is a page directory, with different tables in pages of the kernel. -/
structure IsDir (R : Ram) (m : Memory) (pd n : ℕ) : Prop where
  low : 768 ≤ n
  sound : m.Sound R
  mem : pd ∈ m.pages .kernel
  dir : ∀ i < n, m.word pd i = pde (tableAt m pd i)
  table : ∀ i < n, ∀ t, tableAt m pd i = some t → t ∈ m.pages .kernel ∧ t ≠ pd
  inj : ∀ i < n, ∀ j < n, ∀ t, tableAt m pd i = some t → tableAt m pd j = some t → i = j

/-- A call for the page `u` was made: the other entries are as before, and new pages are tables for addresses of the process. -/
structure Changes (R : Ram) (pd n u : ℕ) (m m' : Memory) : Prop where
  dir : IsDir R m' pd n
  entry : ∀ v < 1024 * n, v ≠ u → entryAt m' pd v = entryAt m pd v
  kept : ∀ i < n, ∀ t, tableAt m pd i = some t → tableAt m' pd i = some t
  new : ∀ i < n, ∀ t, tableAt m' pd i = some t → tableAt m pd i = some t ∨ ∀ p, t ∉ m.pages p
  top : ∀ i, 768 ≤ i → m'.word pd i = m.word pd i
  pages : ∃ K, (∀ p, m'.pages p = pagesOf K [] p ++ m.pages p) ∧ ∀ x ∈ K, ∃ i < 768, tableAt m' pd i = some x
  bytes : ∀ p, ∀ x ∈ m.pages p, x ≠ pd → (∀ i < n, tableAt m pd i ≠ some x) → m'.bytes x = m.bytes x
  live : ∀ b, b ∈ m'.heap.live ↔ b ∈ m.heap.live
  arenas : m.heap.arenas ⊆ m'.heap.arenas

section Dir

variable {R : Ram} {env : ℕ → Option ℕ} {m m' m'' : Memory} {pd n i t u v va x : ℕ}

lemma tableAt_congr (h : m'.word pd i = m.word pd i) : tableAt m' pd i = tableAt m pd i := by
  unfold tableAt
  rw [h]

lemma tableAt_of_pde (hram : InRam t) (h : m.word pd i = pde (some t)) : tableAt m pd i = some t := by
  have hpage : ((t - 0xc0000) * 4096 + 7) / 4096 + 0xc0000 = t := by
    obtain ⟨hlo, hhi⟩ := hram
    omega
  rw [tableAt, h, if_neg (pde_ne_zero t)]
  exact congrArg some hpage

lemma tableAt_of_zero (h : m.word pd i = 0) : tableAt m pd i = none :=
  if_pos h

lemma entryAt_of_table (h : tableAt m pd (u / 1024) = some t) : entryAt m pd u = m.word t (u % 1024) := by
  unfold entryAt
  rw [h]

lemma entryAt_of_noTable (h : tableAt m pd (u / 1024) = none) : entryAt m pd u = 0 := by
  unfold entryAt
  rw [h]

lemma exists_table (h : entryAt m pd u ≠ 0) : ∃ t, tableAt m pd (u / 1024) = some t := by
  cases ht : tableAt m pd (u / 1024) with
  | none => exact absurd (entryAt_of_noTable ht) h
  | some t => exact ⟨t, rfl⟩

lemma entryAt_lt (m : Memory) (pd u : ℕ) : entryAt m pd u < 2 ^ 32 := by
  cases h : tableAt m pd (u / 1024) with
  | none =>
    rw [entryAt_of_noTable h]
    decide
  | some t =>
    rw [entryAt_of_table h]
    exact word_lt m t _

/-- Entries are the same if the directory and the table are. -/
lemma entryAt_congr (hpd : m'.word pd (u / 1024) = m.word pd (u / 1024))
    (ht : ∀ t, tableAt m pd (u / 1024) = some t → m'.word t (u % 1024) = m.word t (u % 1024)) :
    entryAt m' pd u = entryAt m pd u := by
  have htable := tableAt_congr hpd
  cases h : tableAt m pd (u / 1024) with
  | none => rw [entryAt_of_noTable h, entryAt_of_noTable (htable.trans h)]
  | some t => rw [entryAt_of_table h, entryAt_of_table (htable.trans h), ht t h]

/-! ## Directories -/

namespace IsDir

lemma inRam (h : IsDir R m pd n) (hi : i < n) (ht : tableAt m pd i = some t) : InRam t :=
  inRam_of_hasPage (h.sound.pool .kernel t (h.table i hi t ht).1)

/-- Memory has changed elsewhere. -/
lemma congr (h : IsDir R m pd n) (hm : m'.Sound R) (hbytes : m'.bytes pd = m.bytes pd)
    (hpages : ∀ x ∈ m.pages .kernel, x ∈ m'.pages .kernel) : IsDir R m' pd n := by
  have htable : ∀ i, tableAt m' pd i = tableAt m pd i := fun i => tableAt_congr (Memory.word_congr hbytes)
  refine ⟨h.low, hm, hpages pd h.mem, fun i hi => ?_, fun i hi t ht => ?_, fun i hi j hj t hti htj => ?_⟩
  · rw [htable, Memory.word_congr hbytes]
    exact h.dir i hi
  · rw [htable] at ht
    exact ⟨hpages t (h.table i hi t ht).1, (h.table i hi t ht).2⟩
  · rw [htable] at hti htj
    exact h.inj i hi j hj t hti htj

/-- A new table, in which there are no pages. -/
lemma addTable (h : IsDir R m pd n) {m₁ : Memory} (hnone : tableAt m pd i = none) (hsound : m₁.Sound R)
    (hpages : m₁.pages .kernel = t :: m.pages .kernel) (hbytes : m₁.bytes = Function.update m.bytes t fun _ => 0) :
    IsDir R (m₁.setWord pd i (pde (some t))) pd n ∧
      (∀ v < 1024 * n, entryAt (m₁.setWord pd i (pde (some t))) pd v = entryAt m pd v) ∧
      tableAt (m₁.setWord pd i (pde (some t))) pd i = some t ∧
      ∀ j, j ≠ i → (m₁.setWord pd i (pde (some t))).word pd j = m.word pd j := by
  have hnodup := hsound.nodup .kernel
  rw [hpages] at hnodup
  obtain ⟨hnew, -⟩ := List.nodup_cons.mp hnodup
  have hmem : ∀ x, x = t ∨ x ∈ m.pages .kernel → x ∈ m₁.pages .kernel := by
    intro x hx
    rw [hpages]
    exact List.mem_cons.mpr hx
  have hram : InRam t := inRam_of_hasPage (hsound.pool .kernel t (hmem t (Or.inl rfl)))
  have hne : pd ≠ t := by
    rintro rfl
    exact hnew h.mem
  have hold : ∀ x, x ≠ t → m₁.bytes x = m.bytes x := by
    intro x hxt
    rw [hbytes, Function.update_of_ne hxt]
  have hself : tableAt (m₁.setWord pd i (pde (some t))) pd i = some t :=
    tableAt_of_pde hram (Memory.word_setWord_self (pde_lt hram))
  have hother : ∀ j, j ≠ i → (m₁.setWord pd i (pde (some t))).word pd j = m.word pd j := by
    intro j hj
    rw [Memory.word_setWord_of_ne hj, Memory.word_congr (hold pd hne)]
  -- a table is the new one, or one that was there and is not the new one
  have hcases : ∀ j < n, ∀ t', tableAt (m₁.setWord pd i (pde (some t))) pd j = some t' →
      j = i ∧ t' = t ∨ j ≠ i ∧ t' ≠ t ∧ tableAt m pd j = some t' := by
    intro j hj t' ht'
    by_cases hji : j = i
    · rw [hji, hself] at ht'
      exact Or.inl ⟨hji, (Option.some.inj ht').symm⟩
    · rw [tableAt_congr (hother j hji)] at ht'
      refine Or.inr ⟨hji, ?_, ht'⟩
      rintro rfl
      exact hnew (h.table j hj t' ht').1
  refine ⟨⟨h.low, hsound.setPage _ _, hmem _ (Or.inr h.mem), fun j hj => ?_, fun j hj t' ht' => ?_,
    fun j hj k hk t' htj htk => ?_⟩, fun v hv => ?_, hself, hother⟩
  · by_cases hji : j = i
    · rw [hji, hself]
      exact Memory.word_setWord_self (pde_lt hram)
    · rw [tableAt_congr (hother j hji), hother j hji]
      exact h.dir j hj
  · rcases hcases j hj t' ht' with ⟨-, rfl⟩ | ⟨-, -, hold'⟩
    · exact ⟨hmem _ (Or.inl rfl), hne.symm⟩
    · exact ⟨hmem _ (Or.inr (h.table j hj t' hold').1), (h.table j hj t' hold').2⟩
  · rcases hcases j hj t' htj with ⟨rfl, rfl⟩ | ⟨-, hjt, hj'⟩
    · rcases hcases k hk _ htk with ⟨rfl, -⟩ | ⟨-, hkt, -⟩
      · rfl
      · exact absurd rfl hkt
    · rcases hcases k hk t' htk with ⟨-, rfl⟩ | ⟨-, -, hk'⟩
      · exact absurd rfl hjt
      · exact h.inj j hj k hk t' hj' hk'
  · by_cases hvi : v / 1024 = i
    · -- there was no table, and the new one is empty
      subst hvi
      rw [entryAt_of_noTable hnone, entryAt_of_table hself, Memory.word_congr (Memory.setWord_of_ne hne.symm)]
      apply Memory.word_zero
      rw [hbytes, Function.update_self]
    · apply entryAt_congr (hother _ hvi)
      intro t' ht'
      have htable := h.table _ (by omega) t' ht'
      have htt : t' ≠ t := by
        rintro rfl
        exact hnew htable.1
      rw [Memory.word_congr (Memory.setWord_of_ne htable.2), Memory.word_congr (hold t' htt)]

end IsDir

namespace Changes

/-- Pages stay in use. -/
lemma mono (h : Changes R pd n u m m') {p : PoolId} (hx : x ∈ m.pages p) : x ∈ m'.pages p := by
  obtain ⟨K, hpages, -⟩ := h.pages
  rw [hpages]
  exact List.mem_append_right _ hx

lemma added (h : Changes R pd n u m m') {p : PoolId} (hx : x ∈ m'.pages p) :
    x ∈ m.pages p ∨ p = .kernel ∧ ∃ i < 768, tableAt m' pd i = some x := by
  obtain ⟨K, hpages, htables⟩ := h.pages
  rw [hpages, List.mem_append] at hx
  rcases hx with hnew | hold
  · cases p
    · exact Or.inr ⟨rfl, htables x hnew⟩
    · cases hnew
  · exact Or.inl hold

lemma trans (h : Changes R pd n u m m') (h' : Changes R pd n u m' m'') : Changes R pd n u m m'' where
  dir := h'.dir
  entry v hv hne := (h'.entry v hv hne).trans (h.entry v hv hne)
  kept i hi t ht := h'.kept i hi t (h.kept i hi t ht)
  new i hi t ht := by
    rcases h'.new i hi t ht with hold | hnew
    · exact h.new i hi t hold
    · exact Or.inr fun p hmem => hnew p (h.mono hmem)
  top i hi := (h'.top i hi).trans (h.top i hi)
  pages := by
    have hlow := h.dir.low
    obtain ⟨K, hpages, htables⟩ := h.pages
    obtain ⟨K', hpages', htables'⟩ := h'.pages
    refine ⟨K' ++ K, fun p => ?_, fun x hx => ?_⟩
    · rw [hpages', hpages, ← List.append_assoc]
      cases p <;> rfl
    · rcases List.mem_append.mp hx with hx | hx
      · exact htables' x hx
      · obtain ⟨i, hi, ht⟩ := htables x hx
        exact ⟨i, hi, h'.kept i (by omega) x ht⟩
  bytes p x hx hpd ht := by
    rw [h'.bytes p x (h.mono hx) hpd fun i hi htable => ?_]
    · exact h.bytes p x hx hpd ht
    · rcases h.new i hi x htable with hold | hnew
      · exact ht i hi hold
      · exact hnew p hx
  live b := (h'.live b).trans (h.live b)
  arenas := List.Subset.trans h.arenas h'.arenas

/-- The directory and the pages in use are the same. -/
lemma of_same (h : IsDir R m pd n) (hm : m'.Sound R) (hpd : m'.bytes pd = m.bytes pd) (hpages : m'.pages = m.pages)
    (hentry : ∀ v < 1024 * n, v ≠ u → entryAt m' pd v = entryAt m pd v)
    (hbytes : ∀ p, ∀ x ∈ m.pages p, x ≠ pd → (∀ i < n, tableAt m pd i ≠ some x) → m'.bytes x = m.bytes x)
    (hlive : ∀ b, b ∈ m'.heap.live ↔ b ∈ m.heap.live) (harenas : m.heap.arenas ⊆ m'.heap.arenas) :
    Changes R pd n u m m' := by
  have htable : ∀ i, tableAt m' pd i = tableAt m pd i := fun i => tableAt_congr (Memory.word_congr hpd)
  refine ⟨h.congr hm hpd fun x hx => ?_, hentry, fun i _ t ht => ?_, fun i _ t ht => ?_, fun i _ => Memory.word_congr hpd,
    ⟨[], fun p => ?_, fun x hx => ?_⟩, hbytes, hlive, harenas⟩
  · rw [hpages]
    exact hx
  · rw [htable]
    exact ht
  · rw [htable] at ht
    exact Or.inl ht
  · rw [hpages, pagesOf_nil]
    rfl
  · cases hx

lemma refl (h : IsDir R m pd n) (u : ℕ) : Changes R pd n u m m :=
  of_same h h.sound rfl rfl (fun _ _ _ => rfl) (fun _ _ _ _ _ => rfl) (fun _ => Iff.rfl) (List.Subset.refl _)

/-- An allocation has failed. -/
lemma of_extends (h : IsDir R m pd n) (hx : Extends R m (fun _ => []) [] m') (hbytes : m'.bytes = m.bytes) (u : ℕ) :
    Changes R pd n u m m' := by
  have hword : ∀ x i, m'.word x i = m.word x i := fun x i => Memory.word_congr (congrFun hbytes x)
  refine of_same h hx.sound (congrFun hbytes pd) (funext hx.pages) (fun v _ _ => ?_) (fun p x _ _ _ => ?_) (fun b => ?_)
    hx.arenas
  · exact entryAt_congr (hword ..) fun t _ => hword ..
  · rw [hbytes]
  · rw [hx.live]
    simp

/-- An entry is written. -/
lemma setEntry (h : IsDir R m pd n) (hu : u < 1024 * n) (ht : tableAt m pd (u / 1024) = some t) (hv : v < 2 ^ 32) :
    Changes R pd n u m (m.setWord t (u % 1024) v) ∧ entryAt (m.setWord t (u % 1024) v) pd u = v := by
  obtain ⟨-, hne⟩ := h.table _ (by omega) t ht
  have hpd : (m.setWord t (u % 1024) v).bytes pd = m.bytes pd := Memory.setWord_of_ne hne.symm
  refine ⟨of_same h (h.sound.setPage _ _) hpd rfl (fun w hw hwu => ?_) (fun p x _ _ hx => ?_) (fun _ => Iff.rfl)
    (List.Subset.refl _), ?_⟩
  · apply entryAt_congr (Memory.word_congr hpd)
    intro t' ht'
    by_cases htt : t' = t
    · -- another entry of the same table
      subst htt
      have hsame := h.inj _ (by omega) _ (by omega) t' ht ht'
      exact Memory.word_setWord_of_ne (by omega)
    · exact Memory.word_congr (Memory.setWord_of_ne htt)
  · apply Memory.setWord_of_ne
    rintro rfl
    exact hx _ (by omega) ht
  · rw [entryAt_of_table ((tableAt_congr (Memory.word_congr hpd)).trans ht)]
    exact Memory.word_setWord_self hv

lemma addTable (h : IsDir R m pd n) {m₁ : Memory} (hi : i < 768) (hnone : tableAt m pd i = none)
    (hx : Extends R m (pagesOf [t] []) [] m₁) (hbytes : m₁.bytes = Function.update m.bytes t fun _ => 0) (u : ℕ) :
    Changes R pd n u m (m₁.setWord pd i (pde (some t))) ∧ tableAt (m₁.setWord pd i (pde (some t))) pd i = some t := by
  have hmem : t ∈ pagesOf [t] [] .kernel := List.mem_singleton_self t
  have hnew : ∀ p, t ∉ m.pages p := fun p => hx.not_old hmem p
  obtain ⟨hdir, hentry, hself, hother⟩ := h.addTable hnone hx.sound (hx.pages .kernel) hbytes
  refine ⟨⟨hdir, fun v hv _ => hentry v hv, fun j hj t' ht' => ?_, fun j hj t' ht' => ?_, fun j hj => hother j (by omega),
    ⟨[t], hx.pages, fun x hxt => ?_⟩, fun p x hxp hxpd _ => ?_, fun b => ?_, hx.arenas⟩, hself⟩
  · have hji : j ≠ i := by
      rintro rfl
      rw [hnone] at ht'
      cases ht'
    rw [tableAt_congr (hother j hji)]
    exact ht'
  · by_cases hji : j = i
    · rw [hji, hself] at ht'
      exact Or.inr (Option.some.inj ht' ▸ hnew)
    · rw [tableAt_congr (hother j hji)] at ht'
      exact Or.inl ht'
  · rw [List.mem_singleton.mp hxt]
    exact ⟨i, hi, hself⟩
  · rw [Memory.setWord_of_ne hxpd]
    rw [hbytes, Function.update_of_ne]
    rintro rfl
    exact hnew p hxp
  · show b ∈ m₁.heap.live ↔ _
    rw [hx.live]
    simp

end Changes

/-! ## Entries -/

lemma frameOf_eq_none {e : ℕ} : frameOf e = none ↔ e &&& 1 = 0 := by
  unfold frameOf
  split
  case isTrue h => exact ⟨nofun, fun hzero => absurd hzero h⟩
  case isFalse h => exact ⟨fun _ => not_not.mp h, fun _ => rfl⟩

/-- The frame depends on the address and on the bit that says that the page is there. -/
lemma frameOf_congr {e e' : ℕ} (hbit : e' &&& 1 = e &&& 1) (haddr : e' / 4096 = e / 4096) : frameOf e' = frameOf e := by
  unfold frameOf
  rw [hbit, haddr]

lemma and_one_clear (e : ℕ) : e &&& 0xfffffffe &&& 1 = 0 := by
  rw [Nat.and_assoc]
  exact Nat.and_zero e

/-- Another bit is set. -/
lemma frameOf_or (e : ℕ) {bit : ℕ} (hbit : bit &&& 1 = 0) (hlt : bit < 4096) : frameOf (e ||| bit) = frameOf e := by
  apply frameOf_congr
  · rw [Nat.and_or_distrib_right, hbit, Nat.or_zero]
  · have hzero : bit >>> 12 = 0 := by
      rw [Nat.shiftRight_eq_div_pow]
      exact Nat.div_eq_of_lt hlt
    have hor : (e ||| bit) >>> 12 = e >>> 12 := by
      rw [Nat.shiftRight_or_distrib, hzero, Nat.or_zero]
    rwa [Nat.shiftRight_eq_div_pow, Nat.shiftRight_eq_div_pow] at hor

/-- Another bit is cleared. -/
lemma frameOf_and {e mask : ℕ} (he : e < 2 ^ 32) (hbit : mask &&& 1 = 1) (haddr : mask >>> 12 = 2 ^ 20 - 1) :
    frameOf (e &&& mask) = frameOf e := by
  apply frameOf_congr
  · rw [Nat.and_assoc, hbit]
  · have hlt : e >>> 12 < 2 ^ 20 := by
      omega
    have hand : (e &&& mask) >>> 12 = e >>> 12 := by
      rw [Nat.shiftRight_and_distrib, haddr]
      exact Nat.and_two_pow_sub_one_of_lt_two_pow hlt
    rwa [Nat.shiftRight_eq_div_pow, Nat.shiftRight_eq_div_pow] at hand

/-! ## The functions -/

namespace IsDir

variable (h : IsDir R m pd n)
include h

/-- The table for the address, if there is one. -/
lemma lookupPage (hi : va / 4096 / 1024 < n) (ht : tableAt m pd (va / 4096 / 1024) = some t) {create : Bool}
    (hcreate : create = true → va < physBase) : lookupPage R env m pd va create = .ok (some (t, va / 4096 % 1024), m) := by
  have hassert : ¬((create && !(decide (va < physBase))) = true) := by
    cases create
    · simp
    · simp [hcreate rfl]
  unfold Userprog.lookupPage
  rw [if_neg hassert, pdNo_eq, h.dir _ hi, ht, if_neg (pde_ne_zero t), pdeGetPt_pde (h.inRam hi ht)]
  rfl

lemma lookupPage_noTable (hi : va / 4096 / 1024 < n) (ht : tableAt m pd (va / 4096 / 1024) = none) :
    Userprog.lookupPage R env m pd va false = .ok (none, m) := by
  unfold Userprog.lookupPage
  rw [if_neg (by simp), pdNo_eq, h.dir _ hi, ht, if_pos pde_none, if_neg (by simp)]

lemma index_lt (hva : va < physBase) : va / 4096 / 1024 < n := by
  have hlow := h.low
  unfold physBase at hva
  omega

/-- `lookup_page` with `create` fails, or returns the table, which may be new. No entry changes. -/
lemma lookupPage_create (hva : va < physBase) (env) :
    (∃ m', Userprog.lookupPage R env m pd va true = .ok (none, m') ∧ Extends R m (fun _ => []) [] m' ∧ m'.bytes = m.bytes) ∨
      ∃ t m', Userprog.lookupPage R env m pd va true = .ok (some (t, va / 4096 % 1024), m') ∧
        (∀ u, Changes R pd n u m m') ∧ tableAt m' pd (va / 4096 / 1024) = some t := by
  have hi := pdNo_lt hva
  rw [pdNo_eq] at hi
  have hn := h.low
  cases ht : tableAt m pd (va / 4096 / 1024) with
  | some t =>
    exact Or.inr ⟨t, m, h.lookupPage (by omega) ht fun _ => hva, fun u => Changes.refl h u, ht⟩
  | none =>
    have hassert : ¬((true && !(decide (va < physBase))) = true) := by simp [hva]
    unfold Userprog.lookupPage
    rw [if_neg hassert, pdNo_eq, h.dir _ (by omega), ht]
    rcases (Extends.refl h.sound).pallocGetPage env .kernel true with ⟨m', hget, hx, hbytes⟩ | ⟨t, m₁, hget, hx, hbytes⟩
    · rw [hget]
      exact Or.inl ⟨m', rfl, hx, hbytes⟩
    · rw [← pagesOf_nil, update_pagesOf_kernel] at hx
      have hram : InRam t := inRam_of_hasPage (hx.hasPage (p := .kernel) (List.mem_singleton_self t))
      have hadd := fun u => Changes.addTable h hi ht hx hbytes u
      refine Or.inr ⟨t, _, ?_, fun u => (hadd u).1, (hadd 0).2⟩
      rw [hget]
      dsimp only
      rw [pdeCreate_eq hram, except_ok_bind, Memory.word_setWord_self (pde_lt hram), pdeGetPt_pde hram]
      rfl

/-- `pagedir_get_page`. -/
lemma pagedirGetPage (hva : va < physBase) (hram : ∀ x, frameOf (entryAt m pd (va / 4096)) = some x → InRam x) (env) :
    Userprog.pagedirGetPage R env m pd va =
      .ok ((frameOf (entryAt m pd (va / 4096))).map fun x => x * 4096 + va % 4096) := by
  have hi := h.index_lt hva
  unfold Userprog.pagedirGetPage
  rw [if_neg (Nat.not_le.mpr hva)]
  cases ht : tableAt m pd (va / 4096 / 1024) with
  | none =>
    rw [h.lookupPage_noTable hi ht, entryAt_of_noTable ht]
    rfl
  | some t =>
    have hentry := entryAt_of_table ht
    rw [h.lookupPage hi ht fun hfalse => absurd hfalse Bool.false_ne_true, except_ok_bind]
    dsimp only
    rw [← hentry]
    cases hf : frameOf (entryAt m pd (va / 4096)) with
    | none =>
      rw [if_neg (not_not.mpr (frameOf_eq_none.mp hf))]
      rfl
    | some x =>
      obtain ⟨hpresent, hpage⟩ := pteGetPage_of_frameOf (entryAt_lt m pd _) (hram x hf) hf
      rw [if_pos hpresent, hpage]
      rfl

/-- `pagedir_is_dirty` and `pagedir_is_accessed`. -/
lemma pagedirHasBit (hi : va / 4096 / 1024 < n) (bit : ℕ) (env) :
    Userprog.pagedirHasBit R env bit m pd va = .ok (decide (entryAt m pd (va / 4096) &&& bit ≠ 0)) := by
  unfold Userprog.pagedirHasBit
  cases ht : tableAt m pd (va / 4096 / 1024) with
  | none =>
    rw [h.lookupPage_noTable hi ht, entryAt_of_noTable ht, Nat.zero_and]
    rfl
  | some t =>
    rw [h.lookupPage hi ht fun hfalse => absurd hfalse Bool.false_ne_true, entryAt_of_table ht]
    rfl

/-- `pagedir_set_page`, for a page without a frame: if it fails then no entry changes. -/
lemma pagedirSetPage {kpage : ℕ} (hpd : pd ≠ R.initPageDir) (halign : va % 4096 = 0) (hva : va < physBase)
    (hlo : 0xc0000 ≤ kpage) (hhi : kpage < 0xc0000 + R.initRamPages) (hfree : frameOf (entryAt m pd (va / 4096)) = none)
    (writable : Bool) (env) :
    (∃ m', Userprog.pagedirSetPage R env m pd va kpage writable = .ok (false, m') ∧ Extends R m (fun _ => []) [] m' ∧
      m'.bytes = m.bytes) ∨
      ∃ m', Userprog.pagedirSetPage R env m pd va kpage writable = .ok (true, m') ∧ Changes R pd n (va / 4096) m m' ∧
        entryAt m' pd (va / 4096) = pte (some (kpage, writable)) := by
  have hi := h.index_lt hva
  have hram : InRam kpage := by
    have hsmall := R.small
    unfold InRam
    omega
  unfold Userprog.pagedirSetPage
  rw [if_neg (by omega), hram.vtop, except_ok_bind, if_neg (by omega)]
  rcases h.lookupPage_create hva env with ⟨m', hrun, hsame⟩ | ⟨t, m', hrun, hchange, ht⟩
  · rw [hrun]
    exact Or.inl ⟨m', rfl, hsame⟩
  · -- the entry is as before, although the table may be new
    have hsame : entryAt m' pd (va / 4096) = entryAt m pd (va / 4096) :=
      (hchange (va / 4096 + 1)).entry _ (by omega) (by omega)
    have habsent : ¬(m'.word t (va / 4096 % 1024) &&& 1 ≠ 0) := by
      rw [← entryAt_of_table ht, hsame, not_not]
      exact frameOf_eq_none.mp hfree
    obtain ⟨hset, hentry⟩ := Changes.setEntry (hchange 0).dir (by omega) ht (pte_lt hram)
    rw [hrun, except_ok_bind]
    dsimp only
    rw [if_neg habsent, pteCreateUser_eq hram]
    exact Or.inr ⟨_, rfl, (hchange _).trans hset, hentry⟩

/-- `pagedir_clear_page`. -/
lemma pagedirClearPage (halign : va % 4096 = 0) (hva : va < physBase) (env) :
    ∃ m', Userprog.pagedirClearPage R env m pd va = .ok m' ∧ Changes R pd n (va / 4096) m m' ∧
      frameOf (entryAt m' pd (va / 4096)) = none := by
  have hi := h.index_lt hva
  have hsame := Changes.refl h (va / 4096)
  unfold Userprog.pagedirClearPage
  rw [if_neg (by omega)]
  cases ht : tableAt m pd (va / 4096 / 1024) with
  | none =>
    rw [h.lookupPage_noTable hi ht]
    refine ⟨m, rfl, hsame, ?_⟩
    rw [entryAt_of_noTable ht]
    rfl
  | some t =>
    have hentry := entryAt_of_table ht
    rw [h.lookupPage hi ht fun hfalse => absurd hfalse Bool.false_ne_true, except_ok_bind]
    dsimp only
    rw [← hentry]
    by_cases hpresent : entryAt m pd (va / 4096) &&& 1 ≠ 0
    · have hbound := (Nat.and_le_left (m := 0xfffffffe)).trans_lt (entryAt_lt m pd (va / 4096))
      obtain ⟨hset, hnew⟩ := Changes.setEntry h (by omega) ht hbound
      rw [if_pos hpresent]
      refine ⟨_, rfl, hset, ?_⟩
      rw [hnew, frameOf_eq_none]
      exact and_one_clear _
    · rw [if_neg hpresent]
      exact ⟨m, rfl, hsame, frameOf_eq_none.mpr (not_not.mp hpresent)⟩

/-- `pagedir_set_dirty` and `pagedir_set_accessed`: the frame stays. -/
lemma pagedirSetBit {bit mask : ℕ} (hbit : bit &&& 1 = 0 ∧ bit < 4096) (hmask : mask &&& 1 = 1 ∧ mask >>> 12 = 2 ^ 20 - 1)
    (hi : va / 4096 / 1024 < n) (on : Bool) (env) :
    ∃ m', Userprog.pagedirSetBit R env bit mask m pd va on = .ok m' ∧ Changes R pd n (va / 4096) m m' ∧
      frameOf (entryAt m' pd (va / 4096)) = frameOf (entryAt m pd (va / 4096)) := by
  unfold Userprog.pagedirSetBit
  cases ht : tableAt m pd (va / 4096 / 1024) with
  | none =>
    rw [h.lookupPage_noTable hi ht]
    exact ⟨m, rfl, Changes.refl h _, rfl⟩
  | some t =>
    have hentry := entryAt_of_table ht
    have hold := entryAt_lt m pd (va / 4096)
    rw [h.lookupPage hi ht fun hfalse => absurd hfalse Bool.false_ne_true, except_ok_bind]
    dsimp only
    rw [← hentry]
    have hwrite : ∀ e < 2 ^ 32, frameOf e = frameOf (entryAt m pd (va / 4096)) →
        ∃ m', (pure (m.setWord t (va / 4096 % 1024) e) : KernelM Memory) = .ok m' ∧ Changes R pd n (va / 4096) m m' ∧
          frameOf (entryAt m' pd (va / 4096)) = frameOf (entryAt m pd (va / 4096)) := by
      intro e he hframe
      obtain ⟨hset, hnew⟩ := Changes.setEntry h (by omega) ht he
      refine ⟨_, rfl, hset, ?_⟩
      rw [hnew, hframe]
    cases on with
    | true => exact hwrite _ (Nat.or_lt_two_pow hold (by omega)) (frameOf_or _ hbit.1 hbit.2)
    | false => exact hwrite _ (Nat.and_le_left.trans_lt hold) (frameOf_and hold hmask.1 hmask.2)

/-- What `pagedir_destroy` goes through. -/
lemma tables : Tables m pd (tableAt m pd) (entryAt m pd) where
  dir i hi := h.dir i (hi.trans_le h.low)
  table i _ t ht j hj := by
    have hdiv : (1024 * i + j) / 1024 = i := by omega
    have hmod : (1024 * i + j) % 1024 = j := by omega
    rw [entryAt_of_table (hdiv.symm ▸ ht), hmod]
  absent i _ ht j hj := by
    have hdiv : (1024 * i + j) / 1024 = i := by omega
    rw [entryAt_of_noTable (hdiv.symm ▸ ht)]
    rfl

/-- The tables are different pages, so what is left to ask is about the frames. -/
lemma disposable (hmem : ∀ u < 786432, ∀ x, frameOf (entryAt m pd u) = some x → ∃ p, x ∈ m.pages p)
    (hne : ∀ u < 786432, ∀ x, frameOf (entryAt m pd u) = some x → x ≠ pd ∧ ∀ i < 768, tableAt m pd i ≠ some x)
    (hinj : ∀ u < 786432, ∀ v < 786432, ∀ x, frameOf (entryAt m pd u) = some x → frameOf (entryAt m pd v) = some x → u = v) :
    Disposable m pd (tableAt m pd) (entryAt m pd) where
  pd_mem := h.mem
  table_mem i hi t ht := (h.table i (hi.trans_le h.low) t ht).1
  ne_pd i hi t ht := (h.table i (hi.trans_le h.low) t ht).2
  tables_inj i hi j hj t hti htj := h.inj i (hi.trans_le h.low) j (hj.trans_le h.low) t hti htj
  frame_mem := hmem
  frame_ne := hne
  frames_inj := hinj

end IsDir

end Dir

end OsLabs.Userprog
