import OsLabs.Filesys.Contract
import OsLabs.Userprog.LoadSteps

/-!
# The image of an executable

What `load` leaves. `loadFile_spec` puts the parts together while the file is open, and `load_spec` adds the page directory
and the file. `load_image` is the image as a process sees it: the pages are found by walking the page directory, the way the
processor does it in user mode.
-/

namespace OsLabs.Userprog

open Lib Threads Filesys
open Memory (Extends)

/-! ## The file -/

lemma le16_congr {m m' : ℕ → UInt8} {i : ℕ} (h : ∀ j < 2, m (i + j) = m' (i + j)) : le16 m i = le16 m' i := by
  have h0 : m i = m' i := h 0 (by omega)
  unfold le16
  rw [h0, h 1 (by omega)]

lemma readEhdr_congr {m m' : ℕ → UInt8} (h : ∀ i < 52, m i = m' i) : readEhdr m = readEhdr m' := by
  have hword : ∀ i, i + 4 ≤ 52 → le32 m i = le32 m' i := by
    intro i hi
    exact le32_congr fun j hj => h (i + j) (by omega)
  have hhalf : ∀ i, i + 2 ≤ 52 → le16 m i = le16 m' i := by
    intro i hi
    exact le16_congr fun j hj => h (i + j) (by omega)
  have hident : (List.range 7).map m = (List.range 7).map m' := by
    apply List.map_congr_left
    intro i hi
    rw [List.mem_range] at hi
    exact h i (by omega)
  unfold readEhdr
  rw [hident, hword 20 (by omega), hword 24 (by omega), hword 28 (by omega), hhalf 16 (by omega), hhalf 18 (by omega),
    hhalf 42 (by omega), hhalf 44 (by omega)]

/-- Program header `i` of an executable. -/
def phdrOf (file : ℕ → UInt8) (i : ℕ) : Phdr :=
  phdrAt file (readEhdr file).ePhoff i

/-- Program header `i` is one of a segment that is loaded. -/
def IsSegment (file : ℕ → UInt8) (i : ℕ) : Prop :=
  i < (readEhdr file).ePhnum ∧ (phdrOf file i).pType = 1

/-- The tree has the segments of the file and the stack, and nothing else. -/
structure Image (file : ℕ → UInt8) (length : ℤ) (k : Proc) (T : Tree) : Prop where
  valid : (readEhdr file).Valid
  segment : ∀ i, IsSegment file i → SegmentAt file length k T (phdrOf file i)
  disjoint : ∀ i j, i < j → IsSegment file i → IsSegment file j →
    ∀ v, (phdrOf file i).HasPage v → ¬(phdrOf file j).HasPage v
  stack : PageAt k T 786431 true fun _ => 0
  apart : ∀ i, IsSegment file i → ¬(phdrOf file i).HasPage 786431
  only : ∀ v, T.frames v ≠ none → v = 786431 ∨ ∃ i, IsSegment file i ∧ (phdrOf file i).HasPage v

section Image

variable {R : Ram} {m₀ : Memory} {blocks : List ℕ} {k₁ k k' k'' : Proc} {T T' T'' : Tree} {live : Set ℕ} {refs : ℕ → ℕ}
  {a : ℕ} {ino : Inode} {file : ℕ → UInt8} {length : ℤ} {ofs ofs' cnt : ℕ}

/-- Where the headers start does not matter if there are none. -/
lemma Loads.ofs_eq (h : Loads file length k T k' T' ofs cnt) (hofs : 0 < cnt → ofs = ofs') :
    Loads file length k T k' T' ofs' cnt := by
  rcases Nat.eq_zero_or_pos cnt with hzero | hpos
  · subst hzero
    refine ⟨h.grows, ?_, ?_, ?_, fun v hv => ?_⟩
    · exact nofun
    · exact nofun
    · exact nofun
    · rcases h.only v hv with hold | ⟨i, hi, -⟩
      · exact Or.inl hold
      · exact absurd hi (Nat.not_lt_zero i)
  · rw [← hofs hpos]
    exact h

/-- The segments, and then the stack. -/
lemma Loads.image (hvalid : (readEhdr file).Valid) (hempty : ∀ v, T.frames v = none)
    (h : Loads file length k T k' T' (readEhdr file).ePhoff (readEhdr file).ePhnum) (hnone : T'.frames 786431 = none)
    (hgrows : Grows k' T' k'' T'') (hother : ∀ v, v ≠ 786431 → T''.frames v = T'.frames v)
    (hstack : PageAt k'' T'' 786431 true fun _ => 0) : Image file length k'' T'' where
  valid := hvalid
  segment i hi := (h.segment i hi.1 hi.2).grows hgrows
  disjoint i j hij hi hj := h.disjoint i j hij hj.1 hi.2 hj.2
  stack := hstack
  apart i hi hpage := (h.segment i hi.1 hi.2).ne_none hpage hnone
  only v hv := by
    by_cases hstack : v = 786431
    · exact Or.inl hstack
    · rw [hother v hstack] at hv
      rcases h.only v hv with hold | ⟨i, hi, htype, hpage⟩
      · exact absurd (hempty v) hold
      · exact Or.inr ⟨i, ⟨hi, htype⟩, hpage⟩

/-- An image depends on the contents of the pages only. -/
lemma Image.congr (h : Image file length k T) (hbytes : k'.mem.bytes = k.mem.bytes) : Image file length k' T := by
  have hgrows : Grows k T k' T := ⟨rfl, fun v f w hf => ⟨hf, congrFun hbytes f⟩⟩
  exact ⟨h.valid, fun i hi => (h.segment i hi).grows hgrows, h.disjoint, h.stack.grows hgrows, h.apart, h.only⟩

namespace Proc

/-- `load` with the file open, from an empty page directory. -/
lemma loadFile_spec (hdir : KernelDir R m₀) (h : Inv k₁.fs live refs) (hino : k₁.fs.inodes a = some ino)
    (hk : Loading R m₀ blocks k₁ k T) (hempty : ∀ v, T.frames v = none) (env) :
    ∃ result pos' k' T', loadFile R env k (Filesys.fileOpen a) = .ok (result, ⟨a, (pos' : ℕ), false⟩, k') ∧
      Loading R m₀ blocks k₁ k' T' ∧
      ∀ r, result = some r → r = ((readEhdr (k₁.fs.disk.byte ino.sector)).eEntry, physBase) ∧ T'.top = T.top ∧
        Image (k₁.fs.disk.byte ino.sector) ino.data.length k' T' := by
  obtain ⟨n, mem, hread, hle, hbytes, hk₁⟩ := fileRead_loading h hino hk 0 env (fun _ => 0) 52
  have hread : fileRead R env k (Filesys.fileOpen a) (fun _ => 0) 52 = _ := hread
  unfold loadFile
  rw [hread, except_ok_bind]
  dsimp only
  by_cases hn : n = 52
  · have hehdr : readEhdr (copy (fun _ => 0) 0 (k₁.fs.disk.byte ino.sector) 0 n) =
        readEhdr (k₁.fs.disk.byte ino.sector) := by
      refine readEhdr_congr fun i hi => ?_
      rw [copy_of_mem (Nat.zero_le i) (by omega), Nat.sub_zero, Nat.zero_add]
    rw [hehdr]
    by_cases hvalid : (readEhdr (k₁.fs.disk.byte ino.sector)).Valid
    · rw [if_neg (not_or.mpr ⟨not_not.mpr hn, not_not.mpr hvalid⟩)]
      obtain ⟨success, pos₂, k₂, T₂, hrun, hk₂, hloads⟩ := loadHeaders_spec hdir h hino hk₁
        (readEhdr (k₁.fs.disk.byte ino.sector)).ePhnum
        (Int.bmod (readEhdr (k₁.fs.disk.byte ino.sector)).ePhoff (2 ^ 32)) (0 + n) env
      rw [hrun, except_ok_bind]
      cases success with
      | false => exact ⟨none, pos₂, k₂, T₂, rfl, hk₂, fun _ hnone => by cases hnone⟩
      | true =>
        obtain ⟨hofs, hloads⟩ := hloads rfl
        rcases setupStack_spec hdir hk₂ env with
          ⟨k₃, T₃, hstack, hk₃⟩ | ⟨k₃, T₃, hstack, hk₃, hnone, hgrows, hother, hat⟩
        · rw [hstack]
          exact ⟨none, pos₂, k₃, T₃, rfl, hk₃, fun _ hnone => by cases hnone⟩
        · rw [hstack]
          refine ⟨_, pos₂, k₃, T₃, rfl, hk₃, fun r hr => ⟨(Option.some.inj hr).symm, ?_, ?_⟩⟩
          · exact hgrows.top.trans hloads.grows.top
          · -- the offset is not negative, so it is the one in the header
            have hlt := le32_lt (k₁.fs.disk.byte ino.sector) 28
            have hphoff : 0 < (readEhdr (k₁.fs.disk.byte ino.sector)).ePhnum →
                (Int.bmod (readEhdr (k₁.fs.disk.byte ino.sector)).ePhoff (2 ^ 32)).toNat =
                  (readEhdr (k₁.fs.disk.byte ino.sector)).ePhoff := by
              intro hpos
              have hnonneg := hofs hpos
              have hlt : (readEhdr (k₁.fs.disk.byte ino.sector)).ePhoff < 2 ^ 32 := hlt
              rw [Int.bmod_def] at hnonneg ⊢
              split at hnonneg <;> omega
            exact (hloads.ofs_eq hphoff).image hvalid hempty hnone hgrows hother hat
    · rw [if_pos (Or.inr hvalid)]
      exact ⟨none, 0 + n, _, T, rfl, hk₁, fun _ hnone => by cases hnone⟩
  · rw [if_pos (Or.inl hn)]
    exact ⟨none, 0 + n, _, T, rfl, hk₁, fun _ hnone => by cases hnone⟩

/-- What `load` leaves: no page directory, or a tree with just the pages that were allocated. The file is closed. -/
lemma load_spec (hg : Good k.fs refs) (hsound : k.mem.Sound R) (hdir : KernelDir R k.mem) (env)
    (name : CStr) :
    ∃ result k', load R env k name = .ok (result, k') ∧ Restored k.fs k'.fs refs ∧
      ((result = none ∧ k'.pagedir = none ∧ Extends R k.mem (fun _ => []) [] k'.mem) ∨
      ∃ K U T, k'.pagedir = some T.pd ∧ Extends R k.mem (pagesOf K U) [] k'.mem ∧ Stored k'.mem K U T 0 0 ∧
        ∀ r, result = some r → ∃ n, k.fs.disk.Bound name.chars n ∧
          r = ((readEhdr (k.fs.disk.byte n)).eEntry, physBase) ∧ T.top = k.mem.word R.initPageDir ∧
          Image (k.fs.disk.byte n) (k.fs.disk.header n).length k' T) := by
  have hrefl : Restored k.fs k.fs refs := ⟨rfl, ⟨rfl, Nat.le_refl _, rfl⟩, hg⟩
  unfold load
  rcases pagedirCreate_spec (Extends.refl hsound) hdir env with ⟨mem, hcreate, hx⟩ | ⟨pd, mem, hcreate, hx, hst⟩
  · rw [hcreate]
    exact ⟨none, _, rfl, hrefl, Or.inl ⟨rfl, rfl, hx⟩⟩
  · rw [hcreate]
    dsimp only
    rcases filesysOpen_spec env (k := { k with mem, pagedir := some pd }) hg hx name with
      ⟨k₁, hopen, hundone⟩ | ⟨n, a, ino, b, k₁, hopen, hcalm, hbound, hsince⟩
    · rw [hopen]
      have hst₁ := hst.congr fun y _ => congrFun hundone.calm.bytes y
      exact ⟨none, k₁, rfl, hundone.restored,
        Or.inr ⟨[pd], [], _, hundone.calm.pagedir, hundone.mem, hst₁, fun _ hnone => by cases hnone⟩⟩
    · rw [hopen, except_ok_bind]
      dsimp only
      have hloading : Loading R k.mem _ k₁ k₁ (Tree.empty pd (k.mem.word R.initPageDir)) :=
        ⟨⟨[pd], [], hsince.mem, hst.congr fun y _ => congrFun hcalm.bytes y⟩, rfl, rfl, hcalm.pagedir⟩
      have hopened := hsince.opened
      obtain ⟨result, pos, k₂, T, hload, hk₂, himage⟩ :=
        loadFile_spec hdir hsince.inv hopened.self hloading (fun _ => rfl) env
      obtain ⟨K, U, hx₂, hst₂⟩ := hk₂.pages
      have hsince₂ : OpenSince R k.mem (pagesOf K U) [b] k.fs refs n a ino k₂ :=
        ⟨by rw [hk₂.fs]; exact hopened, hsince.ne_zero, hsince.removed, by rw [hk₂.fs]; exact hsince.inv,
          by rw [hk₂.inodeBlock]; exact hx₂⟩
      obtain ⟨k₃, hclose, hcalm₃, hx₃, hrestored⟩ :=
        fileClose_spec hg hsince₂ (show (⟨a, (pos : ℕ), false⟩ : File).inode = a from rfl) rfl
      rw [hload, except_ok_bind]
      rw [hclose]
      refine ⟨result, k₃, rfl, hrestored, Or.inr ⟨K, U, T, hcalm₃.pagedir.trans hk₂.pagedir, hx₃, ?_, fun r hr => ?_⟩⟩
      · exact hst₂.congr fun y _ => congrFun hcalm₃.bytes y
      · obtain ⟨hentry, htop, himage⟩ := himage r hr
        have hdata : ino.data = k.fs.disk.header n := by
          rw [hsince.inv.table.cached a ino hopened.self, hopened.disk, hopened.sector]
        rw [hopened.disk, hopened.sector] at hentry himage
        rw [hdata] at himage
        exact ⟨n, hbound, hentry, htop, himage.congr hcalm₃.bytes⟩

end Proc

/-! ## What the process sees -/

lemma Phdr.Ok.below {p : Phdr} {length : ℤ} (h : p.Ok length) {v : ℕ} (hv : p.HasPage v) : 1 ≤ v ∧ v < 786432 := by
  have hlow := h.low
  obtain ⟨-, -, hhigh⟩ := h.bytes
  obtain ⟨hlo, hhi⟩ := hv
  omega

/-- The pages of a segment are those of its addresses. -/
lemma Phdr.hasPage_of_lt (p : Phdr) {i : ℕ} (hi : i < p.pMemsz) : p.HasPage ((p.pVaddr + i) / 4096) := by
  unfold Phdr.HasPage Phdr.pageCnt
  omega

/-- What is at byte `i` of a segment. -/
lemma SegmentAt.byteAt {p : Phdr} (h : SegmentAt file length k T p) {i : ℕ} (hi : i < p.pMemsz) :
    ∃ f, T.frames ((p.pVaddr + i) / 4096) = some (f, p.writable) ∧
      k.mem.bytes f ((p.pVaddr + i) % 4096) = if i < p.pFilesz then file (p.pOffset + i) else 0 := by
  obtain ⟨hread, -, -⟩ := h.ok.bytes
  have haligned := h.ok.aligned
  obtain ⟨hlo, hhi⟩ := p.hasPage_of_lt hi
  obtain ⟨f, hf, hbytes⟩ := h.pages ((p.pVaddr + i) / 4096 - p.pVaddr / 4096) (by omega)
  rw [Nat.add_sub_cancel' hlo] at hf
  refine ⟨f, hf, ?_⟩
  rw [hbytes _ (Nat.mod_lt _ (by omega))]
  dsimp only
  rw [Phdr.image, hread]
  by_cases hfile : i < p.pFilesz
  · rw [if_pos (by omega : p.pFilesz > 0), if_pos (by omega), if_pos hfile]
    apply congrArg
    omega
  · rw [if_neg hfile]
    apply if_neg
    split <;> omega

end Image

/-- The page walk of the processor in user mode: the frame of the page at an address, and whether it can be written. Bits 0, 1
and 2 of an entry are `PTE_P`, `PTE_W` and `PTE_U`. -/
def walk (m : Memory) (pd va : ℕ) : Option (ℕ × Bool) :=
  let pde := m.word pd (pdNo va)
  if pde.testBit 0 && pde.testBit 2 then
    let pte := m.word (ptov (pde / 4096)) (ptNo va)
    if pte.testBit 0 && pte.testBit 2 then some (ptov (pte / 4096), pde.testBit 1 && pte.testBit 1) else none
  else none

section Walk

variable {R : Ram} {m₀ m : Memory} {K U blocks : List ℕ} {T : Tree} {va x : ℕ}

lemma pde_bits (hx : InRam x) : (pde (some x)).testBit 0 = true ∧ (pde (some x)).testBit 1 = true ∧
    (pde (some x)).testBit 2 = true ∧ ptov (pde (some x) / 4096) = x := by
  obtain ⟨hlo, hhi⟩ := hx
  have hpde : pde (some x) = (x - 0xc0000) * 4096 + 7 := rfl
  simp only [Nat.testBit_eq_decide_div_mod_eq, decide_eq_true_eq]
  unfold ptov
  refine ⟨?_, ?_, ?_, ?_⟩ <;> omega

lemma pte_bits (hx : InRam x) (w : Bool) : (pte (some (x, w))).testBit 0 = true ∧ (pte (some (x, w))).testBit 1 = w ∧
    (pte (some (x, w))).testBit 2 = true ∧ ptov (pte (some (x, w)) / 4096) = x := by
  obtain ⟨hlo, hhi⟩ := hx
  unfold ptov
  cases w with
  | false =>
    have hpte : pte (some (x, false)) = (x - 0xc0000) * 4096 + 5 := rfl
    simp only [Nat.testBit_eq_decide_div_mod_eq, decide_eq_true_eq, decide_eq_false_iff_not]
    refine ⟨?_, ?_, ?_, ?_⟩ <;> omega
  | true =>
    have hpte : pte (some (x, true)) = (x - 0xc0000) * 4096 + 7 := rfl
    simp only [Nat.testBit_eq_decide_div_mod_eq, decide_eq_true_eq]
    refine ⟨?_, ?_, ?_, ?_⟩ <;> omega

/-- The walk finds what the tree has. -/
lemma Stored.walk_eq (hx : Extends R m₀ (pagesOf K U) blocks m) (h : Stored m K U T 0 0) (hva : va < physBase) :
    walk m T.pd va = T.frames (va / 4096) := by
  unfold walk
  rw [h.dir _ (Nat.zero_le _) (pdNo_lt hva)]
  dsimp only
  cases ht : T.tables (pdNo va) with
  | none =>
    rw [pdNo_eq] at ht
    rw [h.frames_none ht]
    rfl
  | some t =>
    obtain ⟨hp, hw, hu, haddr⟩ := pde_bits (h.inRam hx ht)
    rw [hp, hw, hu, haddr, h.table _ t (Nat.zero_le _) ht _ (ptNo_lt va), index_eq]
    cases hf : T.frames (va / 4096) with
    | none => rfl
    | some f =>
      obtain ⟨x, w⟩ := f
      have hmem : x ∈ pagesOf K U .user := (h.user x).mpr ⟨_, w, Nat.zero_le _, hf⟩
      obtain ⟨hp, hw, hu, haddr⟩ := pte_bits (inRam_of_hasPage (hx.hasPage hmem)) w
      rw [hp, hw, hu, haddr]
      rfl

/-- The pages of the kernel are not for the process. -/
lemma Stored.walk_none (hdir : KernelDir R m₀) (hx : Extends R m₀ (pagesOf K U) blocks m) (h : Stored m K U T 0 0)
    (htop : T.top = m₀.word R.initPageDir) (hlo : physBase ≤ va) (hhi : va < 2 ^ 32) : walk m T.pd va = none := by
  have hindex : 768 ≤ pdNo va ∧ pdNo va < 1024 := by
    unfold physBase at hlo
    unfold pdNo
    omega
  unfold walk
  rw [h.top _ hindex.1 hindex.2, htop]
  dsimp only
  rcases hdir.kernel _ hindex.1 hindex.2 with hzero | ⟨t, ht, hword, huser⟩
  · rw [hzero]
    rfl
  · obtain ⟨hp, hw, hu, haddr⟩ := pde_bits (inRam_of_hasPage (hx.base.pool .kernel t ht))
    -- the tables of the kernel are shared, and are what they were
    have hsame : m.word t (ptNo va) = m₀.word t (ptNo va) := Memory.word_congr (hx.bytes .kernel t ht)
    rw [hword, hp, hu, haddr, hsame, huser _ (ptNo_lt va), Bool.and_false]
    rfl

end Walk

/-- The states in which programs are started: no page is allocated twice, the page directory of the kernel is as
`paging_init` leaves it, and the file system is one that a client works on. -/
structure Proc.Ready (R : Ram) (k : Proc) : Prop where
  sound : k.mem.Sound R
  dir : KernelDir R k.mem
  fs : ∃ w : World, w.Valid ∧ w.fs = k.fs

/-- The page of the address is one of those that cover the segment. -/
def Phdr.Covers (p : Phdr) (va : ℕ) : Prop :=
  p.pVaddr / 4096 ≤ va / 4096 ∧ va / 4096 ≤ (p.pVaddr + p.pMemsz - 1) / 4096

/-- The image of an executable of the given length, as a process with page directory `pd` sees it. -/
structure Visible (file : ℕ → UInt8) (length : ℤ) (m : Memory) (pd : ℕ) : Prop where
  mapped : ∀ i, IsSegment file i → ∀ va, (phdrOf file i).Covers va → ∃ f, walk m pd va = some (f, (phdrOf file i).writable)
  content : ∀ i, IsSegment file i → ∀ j < (phdrOf file i).pMemsz, ∀ f w,
    walk m pd ((phdrOf file i).pVaddr + j) = some (f, w) → m.bytes f (((phdrOf file i).pVaddr + j) % 4096) =
      if j < (phdrOf file i).pFilesz then file ((phdrOf file i).pOffset + j) else 0
  inside : ∀ i, IsSegment file i → ∀ j < (phdrOf file i).pFilesz, (((phdrOf file i).pOffset + j : ℕ) : ℤ) < length
  bounds : ∀ va < 2 ^ 32, walk m pd va ≠ none → 4096 ≤ va ∧ va < physBase
  disjoint : ∀ i j, i ≠ j → IsSegment file i → IsSegment file j → ∀ va, (phdrOf file i).Covers va → ¬(phdrOf file j).Covers va
  apart : ∀ i, IsSegment file i → ∀ va, (phdrOf file i).Covers va → va < physBase - 4096
  stack : ∀ va, physBase - 4096 ≤ va → va < physBase → ∃ f, walk m pd va = some (f, true) ∧ m.bytes f (va % 4096) = 0
  frames : ∀ va va' f w w', va < 2 ^ 32 → va' < 2 ^ 32 → walk m pd va = some (f, w) → walk m pd va' = some (f, w') →
    va / 4096 = va' / 4096

section Visible

variable {R : Ram} {m₀ : Memory} {K U blocks : List ℕ} {k k' : Proc} {T : Tree} {file : ℕ → UInt8} {length : ℤ}

lemma Phdr.Ok.covers_iff {p : Phdr} (h : p.Ok length) (va : ℕ) : p.Covers va ↔ p.HasPage (va / 4096) := by
  have hpos := h.nonempty
  unfold Phdr.Covers Phdr.HasPage Phdr.pageCnt
  omega

/-- The processor finds the image that is in the tree. -/
lemma Image.visible (hdir : KernelDir R m₀) (hx : Extends R m₀ (pagesOf K U) blocks k.mem) (hst : Stored k.mem K U T 0 0)
    (htop : T.top = m₀.word R.initPageDir) (h : Image file length k T) : Visible file length k.mem T.pd := by
  have hpages : ∀ i, IsSegment file i → ∀ va, (phdrOf file i).Covers va →
      (phdrOf file i).HasPage (va / 4096) ∧ va < physBase := by
    intro i hi va hva
    have hpage := ((h.segment i hi).ok.covers_iff va).mp hva
    have hbelow := (h.segment i hi).ok.below hpage
    refine ⟨hpage, ?_⟩
    unfold physBase
    omega
  have hwalk : ∀ va < 2 ^ 32, walk k.mem T.pd va ≠ none → va < physBase ∧ walk k.mem T.pd va = T.frames (va / 4096) := by
    intro va hva hsome
    have hlt : va < physBase := by
      by_contra hge
      exact hsome (hst.walk_none hdir hx htop (Nat.le_of_not_lt hge) hva)
    exact ⟨hlt, hst.walk_eq hx hlt⟩
  refine ⟨?_, ?_, ?_, ?_, ?_, ?_, ?_, ?_⟩
  · intro i hi va hva
    obtain ⟨⟨hlo, hhi⟩, hlt⟩ := hpages i hi va hva
    obtain ⟨f, hf, -⟩ := (h.segment i hi).pages (va / 4096 - (phdrOf file i).pVaddr / 4096) (by omega)
    rw [Nat.add_sub_cancel' hlo] at hf
    exact ⟨f, (hst.walk_eq hx hlt).trans hf⟩
  · intro i hi j hj f w hf
    obtain ⟨f', hf', hbyte⟩ := (h.segment i hi).byteAt hj
    have hhigh := (h.segment i hi).ok.high
    rw [hst.walk_eq hx (by omega), hf'] at hf
    obtain ⟨rfl, -⟩ := Prod.mk.inj (Option.some.inj hf)
    exact hbyte
  · intro i hi j hj
    have hinside := (h.segment i hi).inside
    unfold Phdr.Inside at hinside
    omega
  · intro va hva hsome
    obtain ⟨hlt, heq⟩ := hwalk va hva hsome
    refine ⟨?_, hlt⟩
    rw [heq] at hsome
    rcases h.only _ hsome with hstack | ⟨i, hi, hpage⟩
    · omega
    · have hbelow := (h.segment i hi).ok.below hpage
      omega
  · intro i j hne hi hj va hva hva'
    obtain ⟨hpage, -⟩ := hpages i hi va hva
    obtain ⟨hpage', -⟩ := hpages j hj va hva'
    rcases Nat.lt_or_gt_of_ne hne with hlt | hgt
    · exact h.disjoint i j hlt hi hj _ hpage hpage'
    · exact h.disjoint j i hgt hj hi _ hpage' hpage
  · intro i hi va hva
    obtain ⟨hpage, hlt⟩ := hpages i hi va hva
    have hne : va / 4096 ≠ 786431 := by
      intro heq
      rw [heq] at hpage
      exact h.apart i hi hpage
    unfold physBase at hlt ⊢
    omega
  · intro va hlo hhi
    obtain ⟨f, hf, hbytes⟩ := h.stack
    have hindex : va / 4096 = 786431 := by
      unfold physBase at hlo hhi
      omega
    refine ⟨f, ?_, hbytes _ (Nat.mod_lt _ (by omega))⟩
    rw [hst.walk_eq hx hhi, hindex, hf]
  · intro va va' f w w' hva hva' hf hf'
    obtain ⟨-, heq⟩ := hwalk va hva (by rw [hf]; exact Option.some_ne_none _)
    obtain ⟨-, heq'⟩ := hwalk va' hva' (by rw [hf']; exact Option.some_ne_none _)
    exact hst.wf.frames_inj _ _ _ _ _ (heq.symm.trans hf) (heq'.symm.trans hf')

namespace Proc

lemma Ready.good (hk : k.Ready R) : ∃ refs, Good k.fs refs := by
  obtain ⟨w, hw, hfs⟩ := hk.fs
  rw [← hfs]
  exact ⟨w.refs, hw.good⟩

/-- `load` returns, and if it succeeds then the process has the image that the executable describes. -/
theorem load_image (hk : k.Ready R) (env : ℕ → Option ℕ) (name : CStr) :
    ∃ result k', load R env k name = .ok (result, k') ∧ ∀ r, result = some r → ∃ n pd, k.fs.disk.Bound name.chars n ∧
      k'.pagedir = some pd ∧ Visible (k.fs.disk.byte n) (k.fs.disk.header n).length k'.mem pd := by
  obtain ⟨refs, hg⟩ := hk.good
  obtain ⟨result, k', hrun, -, hcases⟩ := load_spec hg hk.sound hk.dir env name
  refine ⟨result, k', hrun, fun r hr => ?_⟩
  rcases hcases with ⟨hnone, -⟩ | ⟨K, U, T, hpd, hx, hst, himage⟩
  · rw [hnone] at hr
    cases hr
  · obtain ⟨n, hbound, -, htop, himage⟩ := himage r hr
    exact ⟨n, T.pd, hbound, hpd, himage.visible hk.dir hx hst htop⟩

end Proc

end Visible

/-! ## A small executable -/

/-- An executable with one segment, for four bytes of the file and four bytes of zeros. -/
def exampleElf : List UInt8 :=
  [0x7f, 0x45, 0x4c, 0x46, 1, 1, 1, 0, 0, 0, 0, 0, 0, 0, 0, 0, 2, 0, 3, 0, 1, 0, 0, 0, 0x54, 0x10, 0, 0, 52, 0, 0, 0,
    0, 0, 0, 0, 0, 0, 0, 0, 52, 0, 32, 0, 1, 0, 0, 0, 0, 0, 0, 0,
    1, 0, 0, 0, 84, 0, 0, 0, 0x54, 0x10, 0, 0, 0, 0, 0, 0, 4, 0, 0, 0, 8, 0, 0, 0, 6, 0, 0, 0, 0, 0x10, 0, 0,
    1, 2, 3, 4]

/-- A state with two pages of the kernel: `init_page_dir`, which is empty, and one with the name of a file. -/
def procOf (heap : MallocState) (fs : Fs) : Proc where
  mem := ⟨fun | .kernel => [0xc0102, 0xc0101] | .user => [], heap, fun _ _ => 0, 0⟩
  fs
  inodeBlock _ := 0
  pagedir := none

lemma procOf_ready {heap : MallocState} {w : World} (hheap : ∃ h, HeapInv exampleDescs heap h)
    (harenas : ∀ r ∈ heap.arenas, 0xc0103 ≤ r.1) (hw : w.Valid) : (procOf heap w.fs).Ready exampleRam where
  sound := by
    refine ⟨fun p => ?_, fun p => ?_, fun p x hx r hr => ?_, hheap⟩
    · cases p <;> simp [procOf]
    · cases p <;> simp [procOf, exampleRam, Pool.hasPage]
    · have hlow := harenas r hr
      cases p
      · simp only [procOf, List.mem_cons, List.not_mem_nil, or_false] at hx
        omega
      · cases hx
  dir := ⟨by simp [procOf, exampleRam], fun _ _ => Memory.word_zero rfl, fun _ _ _ => Or.inl (Memory.word_zero rfl)⟩
  fs := ⟨w, hw, rfl⟩

/-- A file system in which the executable is the only file. -/
def exampleDisk : World :=
  World.after [.create World.nameA 88, .openFile World.nameA, .write 0 (fun i => exampleElf.getD i 0) 88, .close 0]

/-- One block of 16 bytes is in use, so that its arena stays. -/
def exampleHeap : MallocState :=
  ((mallocMachine exampleDescs).run (mallocStart exampleDescs fun _ => 0) [.malloc 8 (some 0xc0120)]).getD
    (mallocStart exampleDescs fun _ => 0)

lemma exampleHeap_inv : ∃ h, HeapInv exampleDescs exampleHeap h := by
  apply mallocMachine_inv
  unfold exampleHeap
  cases hrun : (mallocMachine exampleDescs).run (mallocStart exampleDescs fun _ => 0) [.malloc 8 (some 0xc0120)] with
  | none => exact .init ⟨_, rfl⟩
  | some s => exact ⟨_, _, ⟨_, rfl⟩, hrun⟩

lemma exampleHeap_arenas : ∀ r ∈ exampleHeap.arenas, 0xc0103 ≤ r.1 := by
  decide +kernel

/-- The small executable is there. -/
def exampleProc : Proc :=
  procOf exampleHeap exampleDisk.fs

lemma exampleProc_ready : exampleProc.Ready exampleRam := by
  apply procOf_ready exampleHeap_inv exampleHeap_arenas
  exact World.reachable_valid (World.after_reachable _)

/-- The pages that the allocations get: the frame of the segment and that of the stack are from the user pool. -/
def exampleEnv (i : ℕ) : Option ℕ :=
  some (if i = 8 ∨ i = 11 then 0xc0190 + i else 0xc0110 + i)

lemma exampleProc_loads : (Proc.load exampleRam exampleEnv exampleProc World.nameA).toOption.map Prod.fst =
    some (some (0x1054, physBase)) := by
  decide +kernel

theorem load_image_oneSegment : ∃ k', Proc.load exampleRam exampleEnv exampleProc World.nameA =
      .ok (some (0x1054, physBase), k') ∧ ∃ n pd, exampleProc.fs.disk.Bound World.nameA.chars n ∧ k'.pagedir = some pd ∧
      Visible (exampleProc.fs.disk.byte n) (exampleProc.fs.disk.header n).length k'.mem pd := by
  obtain ⟨result, k', hrun, hvisible⟩ := Proc.load_image exampleProc_ready exampleEnv World.nameA
  have hresult := except_fst_eq hrun exampleProc_loads
  subst hresult
  exact ⟨k', hrun, hvisible _ rfl⟩

end OsLabs.Userprog
