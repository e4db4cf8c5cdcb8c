import OsLabs.Userprog.Load

/-!
# What each part of `load` does

While the file is open, `Loading` holds: the page directory of the thread is a tree whose pages are just those that were
allocated since `load` was entered. `Grows` says that pages which are mapped stay, with what is in them. Each part of `load`
either fails and leaves some tree, or makes the tree grow by the pages that it is for.
-/

namespace OsLabs.Userprog

open Lib Threads Filesys Function
open Memory (Extends)

/-- The state of `load` since the file was opened in state `k₁`. -/
structure Loading (R : Ram) (m₀ : Memory) (blocks : List ℕ) (k₁ k : Proc) (T : Tree) : Prop where
  pages : ∃ K U, Extends R m₀ (pagesOf K U) blocks k.mem ∧ Stored k.mem K U T 0 0
  fs : k.fs = k₁.fs
  inodeBlock : k.inodeBlock = k₁.inodeBlock
  pagedir : k.pagedir = some T.pd

/-- What is mapped stays mapped, with its contents. -/
structure Grows (k : Proc) (T : Tree) (k' : Proc) (T' : Tree) : Prop where
  top : T'.top = T.top
  kept : ∀ v f w, T.frames v = some (f, w) → T'.frames v = some (f, w) ∧ k'.mem.bytes f = k.mem.bytes f

/-- Page `v` is mapped, with this permission and these contents. -/
def PageAt (k : Proc) (T : Tree) (v : ℕ) (w : Bool) (content : ℕ → UInt8) : Prop :=
  ∃ f, T.frames v = some (f, w) ∧ ∀ i < 4096, k.mem.bytes f i = content i

section Steps

variable {R : Ram} {env : ℕ → Option ℕ} {m₀ : Memory} {K U blocks : List ℕ} {k₁ k k' k'' : Proc} {T T' T'' : Tree}
  {live : Set ℕ} {refs : ℕ → ℕ} {a u v x : ℕ} {w : Bool} {ino : Inode} {content : ℕ → UInt8}

variable (hdir : KernelDir R m₀) (h : Inv k₁.fs live refs) (hino : k₁.fs.inodes a = some ino)
  (hk : Loading R m₀ blocks k₁ k T)

lemma Grows.refl (k : Proc) (T : Tree) : Grows k T k T :=
  ⟨rfl, fun _ _ _ h => ⟨h, rfl⟩⟩

lemma Grows.trans (h : Grows k T k' T') (h' : Grows k' T' k'' T'') : Grows k T k'' T'' where
  top := h'.top.trans h.top
  kept v f w hf := by
    obtain ⟨hf', hbytes⟩ := h.kept v f w hf
    obtain ⟨hf'', hbytes'⟩ := h'.kept v f w hf'
    exact ⟨hf'', hbytes'.trans hbytes⟩

lemma Grows.none (h : Grows k T k' T') (hnone : T'.frames v = none) : T.frames v = none := by
  cases hf : T.frames v with
  | none => rfl
  | some x =>
    obtain ⟨f, w⟩ := x
    rw [(h.kept v f w hf).1] at hnone
    cases hnone

lemma PageAt.grows (h : PageAt k T v w content) (hgrows : Grows k T k' T') : PageAt k' T' v w content := by
  obtain ⟨f, hf, hbytes⟩ := h
  obtain ⟨hf', hsame⟩ := hgrows.kept v f w hf
  refine ⟨f, hf', fun i hi => ?_⟩
  rw [hsame]
  exact hbytes i hi

lemma PageAt.ne_none (h : PageAt k T v w content) : T.frames v ≠ none := by
  obtain ⟨f, hf, -⟩ := h
  rw [hf]
  exact Option.some_ne_none _

/-- The directory is not the one of the kernel. -/
lemma pd_ne (hdir : KernelDir R m₀) (hx : Extends R m₀ (pagesOf K U) blocks k.mem) (h : T.pd ∈ K) :
    T.pd ≠ R.initPageDir := by
  intro heq
  refine hx.not_old (p := .kernel) h .kernel ?_
  rw [heq]
  exact hdir.mem

namespace Proc

/-! ## One page -/

/-- `install_page` fails, or maps a page that was not mapped. -/
lemma installPage_spec (hdir : KernelDir R m₀) (hx : Extends R m₀ (pagesOf K (x :: U)) blocks k.mem)
    (hst : Stored k.mem K U T 0 0) (hpd : k.pagedir = some T.pd) (hu : u < 786432) (w : Bool) (env) :
    (∃ mem, installPage R env k (u * 4096) x w = .ok (false, { k with mem }) ∧
      Extends R m₀ (pagesOf K (x :: U)) blocks mem ∧ mem.bytes = k.mem.bytes) ∨
    ∃ mem K' tables, installPage R env k (u * 4096) x w = .ok (true, { k with mem }) ∧
      Extends R m₀ (pagesOf K' (x :: U)) blocks mem ∧
      Stored mem K' (x :: U) { T with tables, frames := update T.frames u (some (x, w)) } 0 0 ∧
      T.frames u = none ∧ ∀ y ∈ x :: U, mem.bytes y = k.mem.bytes y := by
  obtain ⟨m, fs, inodeBlock, pagedir⟩ := k
  obtain rfl : pagedir = some T.pd := hpd
  have hva : u * 4096 < physBase := by
    unfold physBase
    omega
  have hget := pagedirGetPage_spec hx hst (List.subset_cons_self x U) hva env
  rw [Nat.mul_div_cancel u (by omega : 0 < 4096)] at hget
  unfold installPage
  dsimp only
  rw [hget]
  cases hf : T.frames u with
  | some f => exact Or.inl ⟨m, rfl, hx, rfl⟩
  | none =>
    rcases pagedirSetPage_spec hx hst (pd_ne hdir hx hst.pd_mem) hu hf w env with
      ⟨mem, hset, hx', hbytes⟩ | ⟨mem, K', tables, hset, hx', hst', hbytes⟩
    · refine Or.inl ⟨mem, ?_, hx', hbytes⟩
      rw [hset]
      rfl
    · refine Or.inr ⟨mem, K', tables, ?_, hx', hst', rfl, hbytes⟩
      rw [hset]
      rfl

/-- A page that was got for the process and not installed is given back. -/
lemma freePage_spec (hx : Extends R m₀ (pagesOf K (x :: U)) blocks k.mem) (hst : Stored k.mem K U T 0 0) :
    ∃ mem, freePage R k x = .ok { k with mem } ∧ Extends R m₀ (pagesOf K U) blocks mem ∧ Stored mem K U T 0 0 := by
  have hmem : x ∈ pagesOf K (x :: U) .user := List.mem_cons_self ..
  obtain ⟨mem, hfree, hx', hbytes⟩ := hx.pallocFreePage hmem
  refine ⟨mem, ?_, ?_, hst.congr fun y hy => ?_⟩
  · rw [freePage, hfree]
    rfl
  · rw [update_pagesOf_user] at hx'
    have herase : (pagesOf K (x :: U) .user).erase x = U := List.erase_cons_head ..
    rw [herase] at hx'
    exact hx'
  · have hne : y ≠ x := hx.ne (p := .kernel) hy hmem (by decide)
    rw [hbytes, update_of_ne hne]

/-- A page is installed, or given back. -/
lemma install_or_free (k k' : Proc) (hdir : KernelDir R m₀) (hx : Extends R m₀ (pagesOf K (x :: U)) blocks k'.mem)
    (hst : Stored k'.mem K U T 0 0) (hfs : k'.fs = k₁.fs) (hblock : k'.inodeBlock = k₁.inodeBlock)
    (hpd : k'.pagedir = some T.pd) (hold : ∀ y ∈ U, k'.mem.bytes y = k.mem.bytes y) (hu : u < 786432) (w : Bool) (env) :
    (∃ k₂ k₃, installPage R env k' (u * 4096) x w = .ok (false, k₂) ∧ freePage R k₂ x = .ok k₃ ∧
      Loading R m₀ blocks k₁ k₃ T) ∨
    ∃ k₂ T', installPage R env k' (u * 4096) x w = .ok (true, k₂) ∧ Loading R m₀ blocks k₁ k₂ T' ∧
      T.frames u = none ∧ Grows k T k₂ T' ∧ (∀ v, v ≠ u → T'.frames v = T.frames v) ∧
      PageAt k₂ T' u w (k'.mem.bytes x) := by
  rcases installPage_spec hdir hx hst hpd hu w env with
    ⟨mem, hrun, hx', hbytes⟩ | ⟨mem, K', tables, hrun, hx', hst', hnone, hbytes⟩
  · left
    obtain ⟨mem', hfree, hx'', hst''⟩ :=
      freePage_spec (k := { k' with mem }) hx' (hst.congr fun y _ => congrFun hbytes y)
    exact ⟨_, _, hrun, hfree, ⟨K, U, hx'', hst''⟩, hfs, hblock, hpd⟩
  · right
    refine ⟨_, _, hrun, ⟨⟨K', x :: U, hx', hst'⟩, hfs, hblock, hpd⟩, hnone, ⟨rfl, fun v f w' hf => ?_⟩, ?_, ?_⟩
    · have hne : v ≠ u := by
        rintro rfl
        rw [hnone] at hf
        cases hf
      have hmem : f ∈ U := (hst.user f).mpr ⟨v, w', Nat.zero_le v, hf⟩
      refine ⟨(update_of_ne hne ..).trans hf, ?_⟩
      exact (hbytes f (List.mem_cons_of_mem x hmem)).trans (hold f hmem)
    · exact fun v hne => update_of_ne hne ..
    · refine ⟨x, update_self .., fun i _ => ?_⟩
      exact congrFun (hbytes x (List.mem_cons_self ..)) i

include hdir h hino hk in
/-- One round of the loop of `load_segment`. -/
lemma loadPage_spec {n : ℕ} (hn : n ≤ 4096) (pos : ℕ) (hu : u < 786432) (w : Bool) (env) :
    ∃ success pos' k' T', loadPage R env k ⟨a, (pos : ℕ), false⟩ (u * 4096) n w =
        .ok (success, ⟨a, (pos' : ℕ), false⟩, k') ∧ Loading R m₀ blocks k₁ k' T' ∧
      (success = true → pos' = pos + n ∧ (n = 0 ∨ ((pos + n : ℕ) : ℤ) ≤ ino.data.length) ∧ T.frames u = none ∧
        Grows k T k' T' ∧ (∀ v, v ≠ u → T'.frames v = T.frames v) ∧
        PageAt k' T' u w fun i => if i < n then k₁.fs.disk.byte ino.sector (pos + i) else 0) := by
  obtain ⟨K, U, hx, hst⟩ := hk.pages
  unfold loadPage
  rcases hx.pallocGetPage env .user false with ⟨mem, hget, hx₁, hbytes₁⟩ | ⟨x, mem, hget, hx₁, hbytes₁⟩
  · rw [hget]
    refine ⟨false, pos, _, T, rfl, ⟨⟨K, U, hx₁, hst.congr fun y _ => congrFun hbytes₁ y⟩, hk.fs, hk.inodeBlock, hk.pagedir⟩,
      fun hfalse => ?_⟩
    cases hfalse
  · have hx₁ : Extends R m₀ (pagesOf K (x :: U)) blocks mem := by
      rw [update_pagesOf_user] at hx₁
      exact hx₁
    have hmem : x ∈ pagesOf K (x :: U) .user := List.mem_cons_self ..
    have hnot : x ∉ U := (List.nodup_cons.mp (hx₁.nodup_pages .user)).1
    have hkernel : ∀ y ∈ K, y ≠ x := fun y hy => hx₁.ne (p := .kernel) hy hmem (by decide)
    obtain ⟨n', mem₂, hread, hle, hbytes₂, hx₂⟩ := fileRead_spec env (k := { k with mem }) hx₁
      (by rw [hk.fs]; exact h) ⟨a, (pos : ℕ), false⟩ (by rw [hk.fs]; exact hino) (mem.bytes x) n rfl
    have hbytes₂ : mem₂.bytes = k.mem.bytes := hbytes₂.trans hbytes₁
    rw [hget]
    dsimp only
    rw [hread, except_ok_bind]
    generalize hpage : copy (mem.bytes x) 0 (k.fs.disk.byte ino.sector) pos n' = page
    have hst₂ (page : ℕ → UInt8) : Stored (mem₂.setPage x page) K U T 0 0 := by
      refine hst.congr fun y hy => ?_
      rw [Memory.setPage_of_ne (hkernel y hy), hbytes₂]
    by_cases hshort : n' = n
    · -- the page is complete
      rw [if_neg (not_not.mpr hshort), Memory.setPage_setPage]
      generalize hfull : copy page n (fun _ => 0) 0 (4096 - n) = full
      have hold : ∀ y ∈ U, (mem₂.setPage x full).bytes y = k.mem.bytes y := by
        intro y hy
        have hne : y ≠ x := by
          rintro rfl
          exact hnot hy
        rw [Memory.setPage_of_ne hne, hbytes₂]
      rcases install_or_free k { k with mem := mem₂.setPage x full } hdir (hx₂.setPage hmem full) (hst₂ full) hk.fs
        hk.inodeBlock hk.pagedir hold hu w env with
        ⟨k₂, k₃, hinstall, hfree, hloading⟩ | ⟨k₂, T', hinstall, hloading, hnone, hgrows, hother, hat⟩
      · refine ⟨false, pos + n', k₃, T, ?_, hloading, fun hfalse => ?_⟩
        · rw [hinstall, except_ok_bind]
          rw [hfree]
          rfl
        · cases hfalse
      · refine ⟨true, pos + n', k₂, T', ?_, hloading, fun _ => ⟨by rw [hshort], ?_, hnone, hgrows, hother, ?_⟩⟩
        · rw [hinstall]
          rfl
        · unfold available at hle
          omega
        · obtain ⟨f, hf, hcontent⟩ := hat
          refine ⟨f, hf, fun i hi => ?_⟩
          rw [hcontent i hi]
          show (mem₂.setPage x full).bytes x i = _
          rw [Memory.setPage_self, ← hfull]
          dsimp only
          by_cases hin : i < n
          · rw [if_pos hin, copy_of_not_mem (Or.inl hin), ← hpage, copy_of_mem (Nat.zero_le i) (by omega), Nat.sub_zero,
              hk.fs]
          · rw [if_neg hin, copy_of_mem (by omega) (by omega)]
    · obtain ⟨mem₃, hfree, hx₃, hst₃⟩ :=
        freePage_spec (k := { k with mem := mem₂.setPage x page }) (hx₂.setPage hmem page) (hst₂ page)
      refine ⟨false, pos + n', { k with mem := mem₃ }, T, ?_, ⟨⟨K, U, hx₃, hst₃⟩, hk.fs, hk.inodeBlock, hk.pagedir⟩,
        fun hfalse => ?_⟩
      · rw [if_pos hshort, hfree]
        rfl
      · cases hfalse

/-! ## Segments -/

end Proc

/-- Pages were mapped, `cnt` of them from page `u` on, and no other ones. `content` is what they hold, from the start of the
first page on. -/
structure Maps (k : Proc) (T : Tree) (k' : Proc) (T' : Tree) (u cnt : ℕ) (w : Bool) (content : ℕ → UInt8) : Prop where
  grows : Grows k T k' T'
  free : ∀ j < cnt, T.frames (u + j) = none
  pages : ∀ j < cnt, PageAt k' T' (u + j) w fun i => content (4096 * j + i)
  other : ∀ v, v < u ∨ u + cnt ≤ v → T'.frames v = T.frames v

lemma PageAt.congr {content' : ℕ → UInt8} (h : PageAt k T v w content) (heq : ∀ i < 4096, content i = content' i) :
    PageAt k T v w content' := by
  obtain ⟨f, hf, hbytes⟩ := h
  exact ⟨f, hf, fun i hi => (hbytes i hi).trans (heq i hi)⟩

/-- One page, and then the other ones. -/
lemma Maps.cons {cnt : ℕ} {page content' : ℕ → UInt8} (hnone : T.frames u = none) (hgrows : Grows k T k' T')
    (hother : ∀ v, v ≠ u → T'.frames v = T.frames v) (hat : PageAt k' T' u w page)
    (h : Maps k' T' k'' T'' (u + 1) cnt w content') (hpage : ∀ i < 4096, page i = content i)
    (hrest : ∀ i, content' i = content (4096 + i)) : Maps k T k'' T'' u (cnt + 1) w content where
  grows := hgrows.trans h.grows
  free j hj := by
    cases j with
    | zero => exact hnone
    | succ j =>
      rw [show u + (j + 1) = u + 1 + j by omega, ← hother _ (by omega)]
      exact h.free j (by omega)
  pages j hj := by
    cases j with
    | zero =>
      refine (hat.grows h.grows).congr fun i hi => ?_
      rw [hpage i hi, Nat.zero_add]
    | succ j =>
      rw [show u + (j + 1) = u + 1 + j by omega]
      refine (h.pages j (by omega)).congr fun i _ => ?_
      rw [hrest, show 4096 * (j + 1) + i = 4096 + (4096 * j + i) by omega]
  other v hv := by
    rw [h.other v (by omega), hother v (by omega)]

namespace Proc

include hdir h hino hk in
/-- The loop of `load_segment` ends. If it succeeds, then it has mapped all the pages. -/
lemma loadPages_spec {fuel cnt : ℕ} (pos u readBytes zeroBytes : ℕ) (hfuel : cnt < fuel)
    (hsum : readBytes + zeroBytes = 4096 * cnt) (hu : u + cnt ≤ 786432) (w : Bool) (env) :
    ∃ success pos' k' T', loadPages R env w fuel k ⟨a, (pos : ℕ), false⟩ (u * 4096) readBytes zeroBytes =
        .ok (success, ⟨a, (pos' : ℕ), false⟩, k') ∧ Loading R m₀ blocks k₁ k' T' ∧
      (success = true → (readBytes = 0 ∨ ((pos + readBytes : ℕ) : ℤ) ≤ ino.data.length) ∧
        Maps k T k' T' u cnt w fun i => if i < readBytes then k₁.fs.disk.byte ino.sector (pos + i) else 0) := by
  induction fuel generalizing k T cnt readBytes zeroBytes u pos with
  | zero => omega
  | succ fuel ih =>
    rw [loadPages]
    cases cnt with
    | zero =>
      rw [if_neg (by omega)]
      refine ⟨true, pos, k, T, rfl, hk, fun _ => ⟨Or.inl (by omega), .refl k T, ?_, ?_, fun _ _ => rfl⟩⟩
      · intro j hj
        omega
      · intro j hj
        omega
    | succ cnt =>
      rw [if_pos (by omega)]
      dsimp only
      generalize hn : (if readBytes < 4096 then readBytes else 4096) = n
      have hn' : n = readBytes ∧ readBytes < 4096 ∨ n = 4096 ∧ 4096 ≤ readBytes := by
        split at hn <;> omega
      obtain ⟨success, pos₁, k', T', hpage, hk', hmapped⟩ :=
        loadPage_spec hdir h hino hk (n := n) (by omega) pos (u := u) (by omega) w env
      rw [hpage]
      cases success with
      | false => exact ⟨false, pos₁, k', T', rfl, hk', nofun⟩
      | true =>
        obtain ⟨rfl, hinside, hnone, hgrows, hother, hat⟩ := hmapped rfl
        have hnext : (u * 4096 + 4096) % 2 ^ 32 = (u + 1) * 4096 := by omega
        rw [hnext, sub32_eq (by omega) (by omega), sub32_eq (by omega) (by omega)]
        obtain ⟨success, pos₂, k'', T'', hrun, hk'', hrest⟩ :=
          ih hk' (pos + n) (u + 1) (readBytes - n) (zeroBytes - (4096 - n)) (Nat.lt_of_succ_lt_succ hfuel) (by omega)
            (by omega)
        refine ⟨success, pos₂, k'', T'', hrun, hk'', fun hok => ?_⟩
        obtain ⟨hinside', hmaps⟩ := hrest hok
        refine ⟨by omega, .cons hnone hgrows hother hat hmaps (fun i hi => ?_) fun i => ?_⟩
        · by_cases hin : i < n
          · rw [if_pos hin, if_pos (by omega)]
          · rw [if_neg hin, if_neg (by omega)]
        · by_cases hin : i < readBytes - n
          · have hfull : n = 4096 := by omega
            rw [if_pos hin, if_pos (by omega), hfull, Nat.add_assoc]
          · rw [if_neg hin, if_neg (by omega)]

end Proc

/-- What `validate_segment` checks, for a file that is not too long. -/
structure Phdr.Ok (p : Phdr) (length : ℤ) : Prop where
  aligned : p.pOffset % 4096 = p.pVaddr % 4096
  offset : (p.pOffset : ℤ) ≤ length
  sizes : p.pFilesz ≤ p.pMemsz
  nonempty : 0 < p.pMemsz
  low : 4096 ≤ p.pVaddr
  high : p.pVaddr + p.pMemsz < physBase

/-- The fields are words. -/
structure Phdr.Words (p : Phdr) : Prop where
  vaddr : p.pVaddr < 2 ^ 32
  memsz : p.pMemsz < 2 ^ 32

lemma validateSegment_ok {p : Phdr} {length : ℤ} (hp : p.Words) (hlo : 0 ≤ length) (hhi : length < 2 ^ 31)
    (h : validateSegment p length = true) : p.Ok length := by
  have hm := hp.memsz
  unfold validateSegment physBase at h
  simp only [Bool.ite_then_false, not_not] at h
  obtain ⟨haligned, hoffset, hsizes, hnonempty, -, hend, hwrap, hlow, -⟩ := h
  refine ⟨haligned, by omega, by omega, by omega, by omega, ?_⟩
  unfold physBase
  omega

/-- The number of pages of a segment. -/
def Phdr.pageCnt (p : Phdr) : ℕ :=
  (p.pVaddr % 4096 + p.pMemsz + 4095) / 4096

/-- Page `v` is one of those of the segment. -/
def Phdr.HasPage (p : Phdr) (v : ℕ) : Prop :=
  p.pVaddr / 4096 ≤ v ∧ v < p.pVaddr / 4096 + p.pageCnt

/-- What is read for the segment is in the file. -/
def Phdr.Inside (p : Phdr) (length : ℤ) : Prop :=
  p.pFilesz = 0 ∨ ((p.pOffset + p.pFilesz : ℕ) : ℤ) ≤ length

/-- What the pages of a segment hold, from the start of the first page on. -/
def Phdr.image (p : Phdr) (file : ℕ → UInt8) (i : ℕ) : UInt8 :=
  if i < p.readBytes then file (p.pOffset / 4096 * 4096 + i) else 0

/-- The arithmetic of `load` is exact for a segment that was validated. -/
lemma Phdr.Ok.bytes {p : Phdr} {length : ℤ} (h : p.Ok length) :
    p.readBytes = (if p.pFilesz > 0 then p.pVaddr % 4096 + p.pFilesz else 0) ∧
      p.readBytes + p.zeroBytes = 4096 * p.pageCnt ∧ p.pVaddr / 4096 + p.pageCnt ≤ 786432 := by
  have hsizes := h.sizes
  have hhigh := h.high
  unfold physBase at hhigh
  have hround : roundUp ((p.pVaddr % 4096 + p.pMemsz) % 2 ^ 32) = 4096 * p.pageCnt := by
    unfold roundUp Phdr.pageCnt
    omega
  have hread : p.readBytes = (if p.pFilesz > 0 then p.pVaddr % 4096 + p.pFilesz else 0) := by
    unfold Phdr.readBytes
    by_cases hpos : p.pFilesz > 0
    · rw [if_pos hpos, if_pos hpos]
      exact Nat.mod_eq_of_lt (by omega)
    · rw [if_neg hpos, if_neg hpos]
  have hcnt : p.pVaddr / 4096 + p.pageCnt ≤ 786432 := by
    unfold Phdr.pageCnt
    omega
  refine ⟨hread, ?_, hcnt⟩
  unfold Phdr.zeroBytes
  rw [hround]
  by_cases hpos : p.pFilesz > 0
  · rw [if_pos hpos] at hread
    have hle : p.readBytes ≤ 4096 * p.pageCnt := by
      unfold Phdr.pageCnt
      omega
    rw [if_pos hpos, sub32_eq hle (by omega)]
    omega
  · rw [if_neg hpos] at hread
    rw [if_neg hpos]
    omega

lemma length_bounds {s : Fs} (h : Inv s live refs) (hino : s.inodes a = some ino) :
    0 ≤ ino.data.length ∧ ino.data.length < 2 ^ 31 := by
  have hcovered := h.space.layout.covered _ (h.table.live a ino hino)
  rw [← h.table.cached a ino hino] at hcovered
  refine ⟨hcovered.1, ?_⟩
  rw [h.table.cached a ino hino]
  exact s.disk.header_length_lt ino.sector

namespace Proc

include hdir h hino hk in
/-- The case of `PT_LOAD`. -/
lemma loadHeader_spec {p : Phdr} (hp : p.Words) (pos : ℕ) (env) :
    ∃ success pos' k' T', loadHeader R env k ⟨a, (pos : ℕ), false⟩ p ino.data.length =
        .ok (success, ⟨a, (pos' : ℕ), false⟩, k') ∧ Loading R m₀ blocks k₁ k' T' ∧
      (success = true → p.Ok ino.data.length ∧ p.Inside ino.data.length ∧
        Maps k T k' T' (p.pVaddr / 4096) p.pageCnt p.writable (p.image (k₁.fs.disk.byte ino.sector))) := by
  obtain ⟨hlo, hhi⟩ := length_bounds h hino
  unfold loadHeader
  by_cases hvalid : validateSegment p ino.data.length = true
  · have hok := validateSegment_ok hp hlo hhi hvalid
    obtain ⟨hread, hsum, hcnt⟩ := hok.bytes
    have hoffset := hok.offset
    have hofs : Int.bmod (p.pOffset / 4096 * 4096 : ℕ) (2 ^ 32) = (p.pOffset / 4096 * 4096 : ℕ) :=
      Int.bmod_eq_of_le (by omega) (by omega)
    have hmod : ((p.pOffset / 4096 * 4096 : ℕ) : ℤ).tmod 4096 = 0 := by
      rw [Int.tmod_eq_emod_of_nonneg (Int.natCast_nonneg _)]
      omega
    have hassert : ¬((p.readBytes + p.zeroBytes) % 2 ^ 32 % 4096 ≠ 0 ∨ p.pVaddr / 4096 * 4096 % 4096 ≠ 0 ∨
        ((p.pOffset / 4096 * 4096 : ℕ) : ℤ).tmod 4096 ≠ 0) := by
      omega
    rw [if_pos hvalid, hofs, loadSegment, if_neg hassert]
    have hfuel : p.pageCnt < (p.readBytes + p.zeroBytes) / 4096 + 1 := by omega
    obtain ⟨success, pos', k', T', hrun, hk', hmaps⟩ :=
      loadPages_spec hdir h hino hk _ _ _ _ hfuel hsum hcnt p.writable env
    refine ⟨success, pos', k', T', hrun, hk', fun hsuccess => ⟨hok, ?_, (hmaps hsuccess).2⟩⟩
    have hinside := (hmaps hsuccess).1
    have haligned := hok.aligned
    unfold Phdr.Inside
    rw [hread] at hinside
    split at hinside <;> omega
  · rw [if_neg hvalid]
    exact ⟨false, pos, k, T, rfl, hk, nofun⟩

end Proc

/-! ## The program headers -/

/-- Program header `i` of those at offset `ofs` of the file. -/
def phdrAt (file : ℕ → UInt8) (ofs i : ℕ) : Phdr :=
  readPhdr fun j => file (ofs + 32 * i + j)

lemma readPhdr_words (m : ℕ → UInt8) : (readPhdr m).Words :=
  ⟨le32_lt m 8, le32_lt m 20⟩

lemma readPhdr_congr {m m' : ℕ → UInt8} (h : ∀ i < 32, m i = m' i) : readPhdr m = readPhdr m' := by
  have hword : ∀ i, i + 4 ≤ 32 → le32 m i = le32 m' i := by
    intro i hi
    exact le32_congr fun j hj => h (i + j) (by omega)
  unfold readPhdr
  rw [hword 0 (by omega), hword 4 (by omega), hword 8 (by omega), hword 16 (by omega), hword 20 (by omega),
    hword 24 (by omega)]

/-- The segment is mapped. -/
structure SegmentAt (file : ℕ → UInt8) (length : ℤ) (k : Proc) (T : Tree) (p : Phdr) : Prop where
  ok : p.Ok length
  inside : p.Inside length
  pages : ∀ j < p.pageCnt, PageAt k T (p.pVaddr / 4096 + j) p.writable fun i => p.image file (4096 * j + i)

/-- The segments of `cnt` headers were mapped, and nothing else. -/
structure Loads (file : ℕ → UInt8) (length : ℤ) (k : Proc) (T : Tree) (k' : Proc) (T' : Tree) (ofs cnt : ℕ) : Prop where
  grows : Grows k T k' T'
  segment : ∀ i < cnt, (phdrAt file ofs i).pType = 1 → SegmentAt file length k' T' (phdrAt file ofs i)
  free : ∀ i < cnt, (phdrAt file ofs i).pType = 1 → ∀ v, (phdrAt file ofs i).HasPage v → T.frames v = none
  disjoint : ∀ i j, i < j → j < cnt → (phdrAt file ofs i).pType = 1 → (phdrAt file ofs j).pType = 1 →
    ∀ v, (phdrAt file ofs i).HasPage v → ¬(phdrAt file ofs j).HasPage v
  only : ∀ v, T'.frames v ≠ none → T.frames v ≠ none ∨
    ∃ i < cnt, (phdrAt file ofs i).pType = 1 ∧ (phdrAt file ofs i).HasPage v

section Loads

variable {file : ℕ → UInt8} {length : ℤ} {ofs cnt : ℕ} {p : Phdr}

lemma phdrAt_zero (file) (ofs : ℕ) : phdrAt file ofs 0 = readPhdr fun j => file (ofs + j) := rfl

lemma phdrAt_succ (file) (ofs i : ℕ) : phdrAt file (ofs + 32) i = phdrAt file ofs (i + 1) := by
  unfold phdrAt
  rw [show ofs + 32 + 32 * i = ofs + 32 * (i + 1) by omega]

lemma SegmentAt.grows (h : SegmentAt file length k T p) (hgrows : Grows k T k' T') : SegmentAt file length k' T' p :=
  ⟨h.ok, h.inside, fun j hj => (h.pages j hj).grows hgrows⟩

/-- The pages of a segment are mapped. -/
lemma SegmentAt.ne_none (h : SegmentAt file length k T p) (hv : p.HasPage v) : T.frames v ≠ none := by
  obtain ⟨hlo, hhi⟩ := hv
  have hat := (h.pages (v - p.pVaddr / 4096) (by omega)).ne_none
  rw [show p.pVaddr / 4096 + (v - p.pVaddr / 4096) = v by omega] at hat
  exact hat

lemma Loads.zero (file) (length : ℤ) (k : Proc) (T : Tree) (ofs : ℕ) : Loads file length k T k T ofs 0 where
  grows := .refl k T
  segment i hi := absurd hi (Nat.not_lt_zero i)
  free i hi := absurd hi (Nat.not_lt_zero i)
  disjoint _ j _ hj := absurd hj (Nat.not_lt_zero j)
  only _ hv := Or.inl hv

/-- A header of another type, and then the other ones. -/
lemma Loads.skip (htype : (phdrAt file ofs 0).pType ≠ 1) (h : Loads file length k T k' T' (ofs + 32) cnt) :
    Loads file length k T k' T' ofs (cnt + 1) where
  grows := h.grows
  segment i hi ht := by
    cases i with
    | zero => exact absurd ht htype
    | succ i =>
      rw [← phdrAt_succ] at ht ⊢
      exact h.segment i (by omega) ht
  free i hi ht v hv := by
    cases i with
    | zero => exact absurd ht htype
    | succ i =>
      rw [← phdrAt_succ] at ht hv
      exact h.free i (by omega) ht v hv
  disjoint i j hij hj hti htj := by
    cases j with
    | zero => omega
    | succ j =>
      cases i with
      | zero => exact absurd hti htype
      | succ i =>
        rw [← phdrAt_succ] at hti htj ⊢
        rw [← phdrAt_succ]
        exact h.disjoint i j (by omega) (by omega) hti htj
  only v hv := by
    rcases h.only v hv with hold | ⟨i, hi, ht, hpage⟩
    · exact Or.inl hold
    · rw [phdrAt_succ] at ht hpage
      exact Or.inr ⟨i + 1, by omega, ht, hpage⟩

/-- A segment, and then the other ones. -/
lemma Loads.load (htype : (phdrAt file ofs 0).pType = 1) (hok : (phdrAt file ofs 0).Ok length)
    (hinside : (phdrAt file ofs 0).Inside length)
    (hmaps : Maps k T k' T' ((phdrAt file ofs 0).pVaddr / 4096) (phdrAt file ofs 0).pageCnt (phdrAt file ofs 0).writable
      ((phdrAt file ofs 0).image file))
    (h : Loads file length k' T' k'' T'' (ofs + 32) cnt) : Loads file length k T k'' T'' ofs (cnt + 1) where
  grows := hmaps.grows.trans h.grows
  segment i hi ht := by
    cases i with
    | zero => exact SegmentAt.grows ⟨hok, hinside, hmaps.pages⟩ h.grows
    | succ i =>
      rw [← phdrAt_succ] at ht ⊢
      exact h.segment i (by omega) ht
  free i hi ht v hv := by
    cases i with
    | zero =>
      obtain ⟨hlo, hhi⟩ := hv
      have hfree := hmaps.free (v - (phdrAt file ofs 0).pVaddr / 4096) (by omega)
      rw [Nat.add_sub_cancel' hlo] at hfree
      exact hfree
    | succ i =>
      rw [← phdrAt_succ] at ht hv
      exact hmaps.grows.none (h.free i (by omega) ht v hv)
  disjoint i j hij hj hti htj v hv := by
    cases j with
    | zero => omega
    | succ j =>
      rw [← phdrAt_succ] at htj ⊢
      cases i with
      | zero =>
        -- the later segment found its pages free
        intro hv'
        have hat : SegmentAt file length k' T' (phdrAt file ofs 0) := ⟨hok, hinside, hmaps.pages⟩
        exact hat.ne_none hv (h.free j (by omega) htj v hv')
      | succ i =>
        rw [← phdrAt_succ] at hti hv
        exact h.disjoint i j (by omega) (by omega) hti htj v hv
  only v hv := by
    rcases h.only v hv with hold | ⟨i, hi, ht, hpage⟩
    · by_cases hin : (phdrAt file ofs 0).HasPage v
      · exact Or.inr ⟨0, by omega, htype, hin⟩
      · refine Or.inl ?_
        unfold Phdr.HasPage at hin
        rw [← hmaps.other v (by omega)]
        exact hold
    · rw [phdrAt_succ] at ht hpage
      exact Or.inr ⟨i + 1, by omega, ht, hpage⟩

/-- The contents of the pages did not change before the headers were read. -/
lemma Loads.of_bytes (h : Loads file length k' T k'' T'' ofs cnt) (hbytes : k'.mem.bytes = k.mem.bytes) :
    Loads file length k T k'' T'' ofs cnt where
  grows := by
    refine ⟨h.grows.top, fun v f w hf => ?_⟩
    rw [← hbytes]
    exact h.grows.kept v f w hf
  segment := h.segment
  free := h.free
  disjoint := h.disjoint
  only := h.only

end Loads

namespace Proc

include h hino hk in
/-- `file_read` does not change the address space. -/
lemma fileRead_loading (pos : ℕ) (env) (buffer : ℕ → UInt8) (size : ℤ) :
    ∃ n mem, fileRead R env k ⟨a, (pos : ℕ), false⟩ buffer size =
        .ok (n, copy buffer 0 (k₁.fs.disk.byte ino.sector) pos n, ⟨a, (pos + n : ℕ), false⟩, { k with mem }) ∧
      n ≤ available ino size pos ∧ mem.bytes = k.mem.bytes ∧ Loading R m₀ blocks k₁ { k with mem } T := by
  obtain ⟨K, U, hx, hst⟩ := hk.pages
  rw [← hk.fs] at h hino ⊢
  obtain ⟨n, mem, hrun, hle, hbytes, hx'⟩ := fileRead_spec env hx h ⟨a, (pos : ℕ), false⟩ hino buffer size rfl
  exact ⟨n, mem, hrun, hle, hbytes, ⟨K, U, hx', hst.congr fun y _ => congrFun hbytes y⟩, hk.fs, hk.inodeBlock, hk.pagedir⟩

include hdir h hino hk in
/-- The loop over the program headers. -/
lemma loadHeaders_spec (cnt : ℕ) (fileOfs : ℤ) (pos : ℕ) (env) :
    ∃ success pos' k' T', loadHeaders R env cnt fileOfs ⟨a, (pos : ℕ), false⟩ k =
        .ok (success, ⟨a, (pos' : ℕ), false⟩, k') ∧ Loading R m₀ blocks k₁ k' T' ∧
      (success = true → (0 < cnt → 0 ≤ fileOfs) ∧
        Loads (k₁.fs.disk.byte ino.sector) ino.data.length k T k' T' fileOfs.toNat cnt) := by
  obtain ⟨hlo, hhi⟩ := length_bounds h hino
  induction cnt generalizing k T fileOfs pos with
  | zero => exact ⟨true, pos, k, T, rfl, hk, fun _ => ⟨by omega, .zero ..⟩⟩
  | succ cnt ih =>
    have hlength : fsCall (fileLength k.fs ⟨a, (pos : ℕ), false⟩) = .ok ino.data.length := by
      rw [fileLength, hk.fs, Fs.deref, hino]
      rfl
    rw [loadHeaders, hlength, except_ok_bind]
    by_cases hrange : fileOfs < 0 ∨ fileOfs > ino.data.length
    · rw [if_pos hrange]
      exact ⟨false, pos, k, T, rfl, hk, by simp⟩
    · obtain ⟨ofs, rfl⟩ := Int.eq_ofNat_of_zero_le (show 0 ≤ fileOfs by omega)
      have hseek : fsCall (fileSeek ⟨a, (pos : ℕ), false⟩ ofs) = .ok ⟨a, (ofs : ℕ), false⟩ := by
        rfl
      obtain ⟨n, mem, hread, hle, hbytes, hk₁⟩ := fileRead_loading h hino hk ofs env (fun _ => 0) 32
      rw [if_neg hrange, hseek, except_ok_bind, hread, except_ok_bind]
      dsimp only
      by_cases hn : n = 32
      · have havail : (ofs : ℤ) + 32 ≤ ino.data.length := by
          unfold available at hle
          omega
        have hnext : Int.bmod ((ofs : ℤ) + 32) (2 ^ 32) = (ofs + 32 : ℕ) := by
          rw [Int.bmod_eq_of_le (by omega) (by omega)]
          rfl
        have hphdr : readPhdr (copy (fun _ => 0) 0 (k₁.fs.disk.byte ino.sector) ofs n) =
            phdrAt (k₁.fs.disk.byte ino.sector) ofs 0 := by
          rw [phdrAt_zero]
          refine readPhdr_congr fun i hi => ?_
          rw [copy_of_mem (Nat.zero_le i) (by omega), Nat.sub_zero]
        rw [if_neg (not_not.mpr hn), hnext, hphdr]
        by_cases hbad : (phdrAt (k₁.fs.disk.byte ino.sector) ofs 0).pType = 2 ∨
            (phdrAt (k₁.fs.disk.byte ino.sector) ofs 0).pType = 3 ∨ (phdrAt (k₁.fs.disk.byte ino.sector) ofs 0).pType = 5
        · rw [if_pos hbad]
          exact ⟨false, ofs + n, _, T, rfl, hk₁, by simp⟩
        · rw [if_neg hbad]
          by_cases htype : (phdrAt (k₁.fs.disk.byte ino.sector) ofs 0).pType = 1
          · rw [if_pos htype]
            obtain ⟨success, pos₂, k₂, T₂, hrun, hk₂, hmaps⟩ :=
              loadHeader_spec hdir h hino hk₁ (readPhdr_words _) (ofs + n) env (p := phdrAt _ ofs 0)
            rw [hrun]
            cases success with
            | false => exact ⟨false, pos₂, k₂, T₂, rfl, hk₂, by simp⟩
            | true =>
              obtain ⟨hok, hinside, hmaps⟩ := hmaps rfl
              obtain ⟨success, pos₃, k₃, T₃, hrest, hk₃, hloads⟩ := ih hk₂ (ofs + 32 : ℕ) pos₂
              refine ⟨success, pos₃, k₃, T₃, hrest, hk₃, fun hsuccess => ⟨fun _ => Int.natCast_nonneg _, ?_⟩⟩
              exact (Loads.load htype hok hinside hmaps (hloads hsuccess).2).of_bytes hbytes
          · rw [if_neg htype]
            obtain ⟨success, pos₃, k₃, T₃, hrest, hk₃, hloads⟩ := ih hk₁ (ofs + 32 : ℕ) (ofs + n)
            refine ⟨success, pos₃, k₃, T₃, hrest, hk₃, fun hsuccess => ⟨fun _ => Int.natCast_nonneg _, ?_⟩⟩
            exact (Loads.skip htype (hloads hsuccess).2).of_bytes hbytes
      · rw [if_pos hn]
        exact ⟨false, ofs + n, _, T, rfl, hk₁, by simp⟩

include hdir hk in
/-- `setup_stack` fails, or maps a page of zeros below `PHYS_BASE`. -/
lemma setupStack_spec (env) :
    (∃ k' T', setupStack R env k = .ok (none, k') ∧ Loading R m₀ blocks k₁ k' T') ∨
    ∃ k' T', setupStack R env k = .ok (some physBase, k') ∧ Loading R m₀ blocks k₁ k' T' ∧ T.frames 786431 = none ∧
      Grows k T k' T' ∧ (∀ v, v ≠ 786431 → T'.frames v = T.frames v) ∧ PageAt k' T' 786431 true fun _ => 0 := by
  obtain ⟨K, U, hx, hst⟩ := hk.pages
  unfold setupStack
  rcases hx.pallocGetPage env .user true with ⟨mem, hget, hx₁, hbytes⟩ | ⟨x, mem, hget, hx₁, hbytes⟩
  · rw [hget]
    refine Or.inl ⟨_, T, rfl, ⟨K, U, hx₁, hst.congr fun y _ => congrFun hbytes y⟩, hk.fs, hk.inodeBlock, hk.pagedir⟩
  · have hx₁ : Extends R m₀ (pagesOf K (x :: U)) blocks mem := by
      rw [update_pagesOf_user] at hx₁
      exact hx₁
    have hbytes : mem.bytes = update k.mem.bytes x fun _ => 0 := hbytes
    have hmem : x ∈ pagesOf K (x :: U) .user := List.mem_cons_self ..
    have hst₁ : Stored mem K U T 0 0 := by
      refine hst.congr fun y hy => ?_
      have hne : y ≠ x := hx₁.ne (p := .kernel) hy hmem (by decide)
      rw [hbytes, update_of_ne hne]
    have hold : ∀ y ∈ U, mem.bytes y = k.mem.bytes y := by
      intro y hy
      have hne : y ≠ x := by
        rintro rfl
        exact (List.nodup_cons.mp (hx₁.nodup_pages .user)).1 hy
      rw [hbytes, update_of_ne hne]
    have haddr : physBase - 4096 = 786431 * 4096 := by decide
    rw [hget]
    dsimp only
    rw [haddr]
    rcases install_or_free k { k with mem } hdir hx₁ hst₁ hk.fs hk.inodeBlock hk.pagedir hold (u := 786431) (by omega) true
      env with ⟨k₂, k₃, hinstall, hfree, hloading⟩ | ⟨k₂, T', hinstall, hloading, hnone, hgrows, hother, hat⟩
    · refine Or.inl ⟨k₃, T, ?_, hloading⟩
      rw [hinstall, except_ok_bind]
      rw [hfree]
      rfl
    · refine Or.inr ⟨k₂, T', ?_, hloading, hnone, hgrows, hother, hat.congr fun i _ => ?_⟩
      · rw [hinstall]
        rfl
      · show mem.bytes x i = 0
        rw [hbytes, update_self]

end Proc

end Steps

end OsLabs.Userprog
