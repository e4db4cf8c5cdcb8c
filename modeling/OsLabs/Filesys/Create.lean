import OsLabs.Filesys.Files

/-!
# Creating files

`filesys_create` takes a sector for the inode, then the sectors for the data, and adds the name last. `filesysCreate_spec`
tells when it makes a file and what the free map is like when it does not: `Refused.bits` says that the sectors for the
data stay in use when the directory does not take the name.
-/

namespace OsLabs.Filesys

open Lib LibKernel Function

variable {s s' s₁ s₂ : Fs} {live : Set ℕ} {refs refs' : ℕ → ℕ} {a n : ℕ} {ino : Inode} {dir : Dir}

/-- The number of sectors for the data of a file. -/
def sectorsFor (size : ℤ) : ℕ :=
  ((size + 511) / 512).toNat

/-- The first free sector. -/
def Fs.FirstFree (s : Fs) (n : ℕ) : Prop :=
  n < s.disk.size ∧ s.freeMap.has n = false ∧ ∀ j < n, s.freeMap.has j = true

/-- The `cnt` sectors from `k` on are free, also when `n` is taken. -/
def Fs.FreeRun (s : Fs) (n k cnt : ℕ) : Prop :=
  k + cnt ≤ s.disk.size ∧ ∀ x, k ≤ x → x < k + cnt → s.freeMap.has x = false ∧ x ≠ n

/-- There is room for a new file: a sector, and when it is taken the sectors for the data. -/
def Fs.HasRoom (s : Fs) (size : ℤ) : Prop :=
  ∃ n, s.FirstFree n ∧ ∃ k, s.FreeRun n k (sectorsFor size)

/-- The directory takes the name: it is valid and not in use, and a slot is free. -/
def Fs.TakesName (s : Fs) (name : List UInt8) : Prop :=
  ValidName name ∧ (∀ m, ¬s.disk.Bound name m) ∧ ∃ i < 16, s.disk.slot i = none

/-- `filesys_create` made a file in sector `n`, with its data from sector `k` on. -/
structure Created (s s' : Fs) (name : List UInt8) (size : ℤ) (n k : ℕ) : Prop where
  first : s.FirstFree n
  run : s.FreeRun n k (sectorsFor size)
  least : ∀ j < k, ¬s.FreeRun n j (sectorsFor size)
  device : s'.disk.size = s.disk.size
  bits : ∀ x, s'.freeMap.has x = true ↔ s.freeMap.has x = true ∨ x = n ∨ k ≤ x ∧ x < k + sectorsFor size
  bound : ∀ w m, s'.disk.Bound w m ↔ w = name ∧ m = n ∨ s.disk.Bound w m
  header : s'.disk.header n = ⟨k, size⟩
  zeros : ∀ p : ℕ, p < size → s'.disk.byte n p = 0
  new : n ∉ s.live
  inodes : SameInodes s s'
  files : SameFiles s s'

/-- `filesys_create` did not make a file. If there was room for one, then the sectors for its data are in use. -/
structure Refused (s s' : Fs) (name : List UInt8) (size : ℤ) : Prop where
  bits : ¬s.HasRoom size ∧ (∀ x, s'.freeMap.has x = s.freeMap.has x) ∨
    ¬s.TakesName name ∧ ∃ n k, s.FirstFree n ∧ s.FreeRun n k (sectorsFor size) ∧
      ∀ x, s'.freeMap.has x = true ↔ s.freeMap.has x = true ∨ k ≤ x ∧ x < k + sectorsFor size
  entries : s.disk.Same s'.disk 1
  inodes : SameInodes s s'
  files : SameFiles s s'

/-- The first `u` sectors are in use, and no others. -/
def Fs.Packed (s : Fs) (u : ℕ) : Prop :=
  ∀ x < s.disk.size, (s.freeMap.has x = true ↔ x < u)

variable {size : ℤ} {k : ℕ}

lemma bytesToSectors_of_lt (hnonneg : 0 ≤ size) (hlt : size < 2 ^ 31) (h : bytesToSectors size < 2 ^ 21) :
    bytesToSectors size = sectorsFor size := by
  have hbig : size + 511 < 2 ^ 31 := by
    by_contra hge
    have := bytesToSectors_ge hlt (by omega)
    omega
  have := bytesToSectors_eq hnonneg hbig
  rw [sectorsFor]
  omega

/-- `bytes_to_sectors` is right, for what fits on a device. -/
lemma run_bytesToSectors {b : Bitmap} (hsize : b.bitCnt < 2 ^ 21) (hnonneg : 0 ≤ size) (hlt : size < 2 ^ 31)
    (value : Bool) (k : ℕ) : b.Run value k (bytesToSectors size) ↔ b.Run value k (sectorsFor size) := by
  by_cases hbig : bytesToSectors size < 2 ^ 21
  · rw [bytesToSectors_of_lt hnonneg hlt hbig]
  · constructor
    · intro hrun
      have := hrun.1
      omega
    · intro hrun
      have hle := hrun.1
      have hsmall : size + 511 < 2 ^ 31 := by
        rw [sectorsFor] at hle
        omega
      have := bytesToSectors_eq hnonneg hsmall
      rw [sectorsFor] at hle
      omega

lemma firstFree_of_run (hbits : s.freeMap.bitCnt = s.disk.size) (hrun : s.freeMap.Run false n 1)
    (hfirst : ∀ j < n, ¬s.freeMap.Run false j 1) : s.FirstFree n := by
  have hle := hrun.1
  refine ⟨by omega, hrun.2 n (Nat.le_refl n) (by omega), fun j hj => ?_⟩
  by_contra hfree
  apply hfirst j hj
  refine ⟨by omega, fun x hx hx' => ?_⟩
  rw [show x = j by omega]
  simpa using hfree

lemma ite_single {α : Type} {x : ℕ} (y z : α) : (if n ≤ x ∧ x < n + 1 then y else z) = if x = n then y else z :=
  if_congr (by omega) rfl rfl

/-- After the first free sector is taken, the free runs are those without it. -/
lemma freeRun_iff {b : Bitmap} (hbits : b.bitCnt = s.disk.size)
    (hhas : ∀ x, b.has x = if n ≤ x ∧ x < n + 1 then true else s.freeMap.has x) (k cnt : ℕ) :
    b.Run false k cnt ↔ s.FreeRun n k cnt := by
  rw [Bitmap.Run, hbits]
  refine and_congr_right fun _ => forall_congr' fun x => forall_congr' fun _ => forall_congr' fun _ => ?_
  rw [hhas, ite_single]
  split <;> simp [*]

section Good

variable (hg : Good s refs)
include hg

/-- The failure exit of `filesys_create`: the sector is released, and the directory closed. -/
lemma createFailed (hopened : Opened s s₁ 1 dir.inode ino) (hsame : SameInodes s₁ s₂)
    (h : Inv s₂ s.live (update refs dir.inode (refs dir.inode + 1)))
    (hquiet : s.disk.Quiet s₂.disk s.live 0) (hn : n < s₂.disk.size) (hused : s₂.freeMap.has n = true)
    (hfree : ∀ m ∈ s.live, ¬s₂.disk.Owns m n) :
    ∃ s₃ s', freeMapRelease s₂ n 1 = .ok s₃ ∧ dirClose s₃ dir = .ok s' ∧
      (∀ x, s'.freeMap.has x = true ↔ s₂.freeMap.has x = true ∧ x ≠ n) ∧ s.disk.Quiet s'.disk s.live 0 ∧
      SameInodes s s' ∧ Inv s' s.live refs := by
  obtain ⟨a, hfile⟩ := hg.mounted
  have hfile₂ : s₂.freeMapFile = some (fileOpen a) := by
    rw [hsame.freeMapFile, hopened.freeMapFile]
    exact hfile
  have hrun : s₂.freeMap.Run true n 1 := by
    refine ⟨?_, fun x hx hx' => ?_⟩
    · rw [h.space.bits]
      exact hn
    · rw [show x = n by omega]
      exact hused
  obtain ⟨b, d, hrelease, hhas, hquiet', hspace⟩ := freeMapRelease_spec h.space hfile₂ hrun (by
    intro m hm x hx hin
    rw [show x = n by omega] at hx
    exact hfree m hm hx)
  have hsame' : SameInodes s₁ (s₂.remap b d) := ⟨hsame.freeMapFile, hsame.next, hsame.inodes⟩
  obtain ⟨s', hclose, hdisk, hmap, hsame'', hinv⟩ := rootClosed hg hopened hsame' ⟨hspace, h.table.remap hquiet'⟩
  refine ⟨_, s', hrelease, hclose, fun x => ?_, ?_, hsame'', hinv⟩
  · rw [hmap]
    have hx : (s₂.remap b d).freeMap.has x = if n ≤ x ∧ x < n + 1 then false else s₂.freeMap.has x := hhas x
    rw [hx, ite_single]
    split <;> simp [*]
  · rw [hdisk]
    exact hquiet.trans hquiet'

/-- The state after the sector `n` of a new file is taken from the free map. -/
structure Reserved (s s₁ s₂ : Fs) (refs : ℕ → ℕ) (n : ℕ) : Prop where
  first : s.FirstFree n
  file : 2 ≤ n
  same : SameInodes s₁ s₂
  inv : Inv s₂ s.live refs
  quiet : s.disk.Quiet s₂.disk s.live 0
  has : ∀ x, s₂.freeMap.has x = if n ≤ x ∧ x < n + 1 then true else s.freeMap.has x
  free : ∀ m ∈ s.live, ¬s₂.disk.Owns m n

lemma reserve_spec (hopened : Opened s s₁ 1 a ino) (h : Inv s₁ s.live refs') :
    (∃ n s₂, freeMapAllocate s₁ 1 = .ok (some n, s₂) ∧ Reserved s s₁ s₂ refs' n) ∨
    (freeMapAllocate s₁ 1 = .ok (none, s₁) ∧ ∀ n, ¬s.FirstFree n) := by
  have hbits := hg.inv.space.bits
  rcases freeMapAllocate_spec h.space 1 with ⟨n, b, d, halloc, hrun, hfirst, hhas, hquiet, hspace⟩ | ⟨halloc, hnone⟩
  · left
    rw [hopened.freeMap] at hrun hfirst hhas
    rw [hopened.disk] at hquiet
    have hfirst : s.FirstFree n := firstFree_of_run hbits hrun hfirst
    have hunowned : ∀ m ∈ s.live, ¬s.disk.Owns m n := by
      intro m hm howns
      have hused := (hg.inv.space.layout.owned.taken m hm n howns).2
      rw [hfirst.2.1] at hused
      cases hused
    have htwo : 2 ≤ n := by
      by_contra hlt
      exact hunowned n (Or.inl (by omega)) (Or.inl rfl)
    refine ⟨n, s₁.remap b d, halloc, hfirst, htwo, ⟨rfl, Nat.le_refl _, rfl⟩, ⟨hspace, ?_⟩, hquiet, hhas, ?_⟩
    · rw [← hopened.disk] at hquiet
      exact h.table.remap hquiet
    · intro m hm howns
      exact hunowned m hm ((Disk.owns_of_header_eq (hquiet.header m hm) n).mp howns)
  · right
    refine ⟨halloc, fun n hfirst => hnone n ?_⟩
    rw [hopened.freeMap]
    refine ⟨?_, fun x hx hx' => ?_⟩
    · rw [hbits]
      exact hfirst.1
    · rw [show x = n by omega]
      exact hfirst.2.1

/-- A new name: what is alive after `filesys_create`. -/
lemma Good.created {name : List UInt8} (hinv : Inv s' (insert n s.live) refs) (hroot : Root s'.disk)
    (hbound : ∀ w m, s'.disk.Bound w m ↔ w = name ∧ m = n ∨ s.disk.Bound w m) (hnew : n ∉ s.live)
    (hsame : SameInodes s s') : Good s' refs := by
  have hlive : s'.live = insert n s.live := by
    ext m
    constructor
    · rintro (hm | ⟨w, hm⟩ | ⟨b, j, hj, rfl⟩)
      · exact Or.inr (Or.inl hm)
      · rcases (hbound w m).mp hm with ⟨_, rfl⟩ | hold
        · exact Or.inl rfl
        · exact Or.inr (Or.inr (Or.inl ⟨w, hold⟩))
      · rw [hsame.inodes] at hj
        exact Or.inr (Or.inr (Or.inr ⟨b, j, hj, rfl⟩))
    · rintro (rfl | hm | ⟨w, hm⟩ | ⟨b, j, hj, rfl⟩)
      · exact Or.inr (Or.inl ⟨name, (hbound name m).mpr (Or.inl ⟨rfl, rfl⟩)⟩)
      · exact Or.inl hm
      · exact Or.inr (Or.inl ⟨w, (hbound w m).mpr (Or.inr hm)⟩)
      · rw [← hsame.inodes] at hj
        exact Or.inr (Or.inr ⟨b, j, hj, rfl⟩)
  refine ⟨?_, hroot, ?_, fun a ino ha hsector => ?_⟩
  · rw [hlive]
    exact hinv
  · rw [hsame.freeMapFile]
    exact hg.mounted
  · rw [hsame.inodes] at ha
    have hne : ino.sector ≠ n := by
      rintro rfl
      exact hnew (hg.inv.table.live a ino ha)
    simp only [hbound, hne, and_false, false_or]
    exact hg.removed a ino ha hsector

omit hg in
/-- The name and the slots that `dir_add` sees are those from before the call. -/
lemma Root.takesName_congr (hr : Root s.disk) (hsame : s.disk.Same s'.disk 1) (name : List UInt8) :
    s'.TakesName name ↔ s.TakesName name := by
  simp only [Fs.TakesName, hr.bound_congr hsame]
  refine and_congr_right fun _ => and_congr_right fun _ => exists_congr fun i => and_congr_right fun hi => ?_
  rw [hsame.slot hr.length hi]

/-- The state after the inode of a new file is on the device. -/
structure Prepared (s s₁ s₃ : Fs) (refs : ℕ → ℕ) (size : ℤ) (n k : ℕ) : Prop where
  run : s.FreeRun n k (sectorsFor size)
  least : ∀ j < k, ¬s.FreeRun n j (sectorsFor size)
  same : SameInodes s₁ s₃
  inv : Inv s₃ (insert n s.live) refs
  kept : Inv s₃ s.live refs
  quiet : s.disk.Quiet s₃.disk s.live 0
  has : ∀ x, s₃.freeMap.has x = true ↔ s.freeMap.has x = true ∨ x = n ∨ k ≤ x ∧ x < k + sectorsFor size
  header : s₃.disk.header n = ⟨k, size⟩
  zeros : ∀ p : ℕ, p < size → s₃.disk.byte n p = 0
  new : n ∉ s.live

omit hg in
lemma prepare_spec (hnonneg : 0 ≤ size) (hlt : size < 2 ^ 31) (hres : Reserved s s₁ s₂ refs' n) :
    (∃ k s₃, inodeCreate s₂ n size = .ok (true, s₃) ∧ Prepared s s₁ s₃ refs' size n k) ∨
    (inodeCreate s₂ n size = .ok (false, s₂) ∧ ∀ k, ¬s.FreeRun n k (sectorsFor size)) := by
  have hsize : s₂.disk.size = s.disk.size := hres.quiet.size
  have hbits : s₂.freeMap.bitCnt = s.disk.size := hres.inv.space.bits.trans hsize
  have hsmall : s₂.freeMap.bitCnt < 2 ^ 21 := by
    rw [hbits]
    exact s.disk.small
  have hn : n < s₂.disk.size := hres.first.1.trans_eq hsize.symm
  have hused : s₂.freeMap.has n = true := by
    rw [hres.has, if_pos ⟨Nat.le_refl n, Nat.lt_succ_self n⟩]
  have hruns : ∀ k, s₂.freeMap.Run false k (bytesToSectors size) ↔ s.FreeRun n k (sectorsFor size) := by
    intro k
    rw [run_bytesToSectors hsmall hnonneg hlt]
    exact freeRun_iff hbits hres.has k _
  rcases inodeCreate_spec hres.inv.space hnonneg hlt hn hused hres.free with
    ⟨k, b, d, hcreate, hrun, hfirst, hhas, hheader, hzeros, hquiet, hspace⟩ | ⟨hcreate, hnone⟩
  · left
    have hcnt : bytesToSectors size = sectorsFor size := by
      have hle := hrun.1
      exact bytesToSectors_of_lt hnonneg hlt (by omega)
    have htable := hres.inv.table.remap (b := b) hquiet
    have hsub : s.live ⊆ insert n s.live := fun m hm => Or.inr hm
    refine ⟨k, s₂.remap b d, hcreate, (hruns k).mp hrun, fun j hj hrun' => hfirst j hj ((hruns j).mpr hrun'), ⟨hres.same.freeMapFile, hres.same.next, hres.same.inodes⟩,
      ⟨hspace, htable.grow hsub⟩, ⟨hspace.mono hsub fun _ => Or.inl (by omega), htable⟩, hres.quiet.trans hquiet,
      fun x => ?_, hheader, hzeros, fun hin => hres.free n hin (Or.inl rfl)⟩
    have hx : (s₂.remap b d).freeMap.has x = if k ≤ x ∧ x < k + sectorsFor size then true else s₂.freeMap.has x := by
      rw [← hcnt]
      exact hhas x
    rw [hx, hres.has, ite_single]
    split_ifs with hin hxn
    · simp [hin]
    · simp [hxn]
    · simp [hin, hxn]
  · exact Or.inr ⟨hcreate, fun k hrun => hnone k ((hruns k).mpr hrun)⟩

section Allocated

variable (name : CStr) (hopen : dirOpenRoot s = .ok (dir, s₁)) (hopened : Opened s s₁ 1 dir.inode ino)
  (halloc : freeMapAllocate s₁ 1 = .ok (some n, s₂))
  (hres : Reserved s s₁ s₂ (update refs dir.inode (refs dir.inode + 1)) n)
include hopen hopened halloc hres

/-- `filesys_create`, when the sector of the file is taken but there is no room for its data. -/
lemma create_noRun (hcreate : inodeCreate s₂ n size = .ok (false, s₂))
    (hnone : ∀ k, ¬s.FreeRun n k (sectorsFor size)) :
    ∃ s', filesysCreate s name size = .ok (false, s') ∧ Refused s s' name.chars size ∧ Good s' refs := by
  have hn : n < s₂.disk.size := hres.first.1.trans_eq hres.quiet.size.symm
  have hused : s₂.freeMap.has n = true := by
    rw [hres.has, if_pos ⟨Nat.le_refl n, Nat.lt_succ_self n⟩]
  obtain ⟨s₃, s', hrelease, hclose, hbits, hquiet, hsame, hinv⟩ :=
    createFailed hg hopened hres.same hres.inv hres.quiet hn hused hres.free
  obtain ⟨hgood, hfiles⟩ := hg.quiet hquiet hsame hinv
  have hne : n ≠ 0 := by
    have := hres.file
    omega
  refine ⟨s', ?_, ⟨Or.inl ⟨?_, fun x => ?_⟩, hquiet.same 1 hg.one_mem (by omega), hsame, hfiles⟩, hgood⟩
  · rw [filesysCreate, hopen, except_ok_bind]
    dsimp only
    rw [halloc, except_ok_bind]
    dsimp only
    rw [hcreate]
    simp [hne, hrelease, hclose]
  · rintro ⟨m, hfirst, k, hrun⟩
    -- there is one first free sector
    have hmn : m = n := by
      by_contra hmn
      rcases Nat.lt_or_gt_of_ne hmn with hlt | hlt
      · have hused := hres.first.2.2 m hlt
        rw [hfirst.2.1] at hused
        cases hused
      · have hused := hfirst.2.2 n hlt
        rw [hres.first.2.1] at hused
        cases hused
    rw [hmn] at hrun
    exact hnone k hrun
  · rw [Bool.eq_iff_iff, hbits, hres.has, ite_single]
    split
    · simp [*, hres.first.2.1]
    · simp [*]

variable {s₃ : Fs} (hcreate : inodeCreate s₂ n size = .ok (true, s₃))
  (hprep : Prepared s s₁ s₃ (update refs dir.inode (refs dir.inode + 1)) size n k)
include hcreate hprep

/-- `filesys_create`, when the directory does not take the name: the sectors for the data stay in use. -/
lemma create_noName (hadd : dirAdd s₃ dir .all name n = .ok (false, s₃))
    (hname : ¬s.TakesName name.chars) :
    ∃ s', filesysCreate s name size = .ok (false, s') ∧ Refused s s' name.chars size ∧ Good s' refs := by
  have hn : n < s₃.disk.size := hres.first.1.trans_eq hprep.quiet.size.symm
  have hfree : ∀ m ∈ s.live, ¬s₃.disk.Owns m n := by
    intro m hm howns
    have hmn := hprep.inv.space.layout.owned.unique m (Or.inr hm) n (Or.inl rfl) n howns (Or.inl rfl)
    rw [hmn] at hm
    exact hprep.new hm
  obtain ⟨s₄, s', hrelease, hclose, hbits, hquiet, hsame, hinv⟩ :=
    createFailed hg hopened hprep.same hprep.kept hprep.quiet hn ((hprep.has n).mpr (Or.inr (Or.inl rfl))) hfree
  obtain ⟨hgood, hfiles⟩ := hg.quiet hquiet hsame hinv
  have hne : n ≠ 0 := by
    have := hres.file
    omega
  refine ⟨s', ?_, ⟨Or.inr ⟨hname, n, k, hres.first, hprep.run, fun x => ?_⟩, hquiet.same 1 hg.one_mem (by omega), hsame,
    hfiles⟩, hgood⟩
  · rw [filesysCreate, hopen, except_ok_bind]
    dsimp only
    rw [halloc, except_ok_bind]
    dsimp only
    rw [hcreate]
    simp [hne, hadd, hrelease, hclose]
  · rw [hbits, hprep.has]
    by_cases hxn : x = n
    · have hout : ¬(k ≤ n ∧ n < k + sectorsFor size) := fun hin => (hprep.run.2 n hin.1 hin.2).2 rfl
      simp [hxn, hres.first.2.1, hout]
    · simp [hxn]

/-- `filesys_create`, when the directory takes the name. -/
lemma create_added {i : ℕ} {d : Disk} (hadd : dirAdd s₃ dir .all name n = .ok (true, { s₃ with disk := d })) (hi : i < 16)
    (hslot : s₃.disk.slot i = none) (hquiet : s₃.disk.Quiet d (insert n s.live) 1)
    (hslots : ∀ j, d.slot j = update s₃.disk.slot i (some (name.chars, n)) j) (hroot : Root d)
    (hinv : Inv { s₃ with disk := d } (insert n s.live) (update refs dir.inode (refs dir.inode + 1))) :
    ∃ s', filesysCreate s name size = .ok (true, s') ∧ Created s s' name.chars size n k ∧ Good s' refs := by
  have hsame₄ : SameInodes s₁ { s₃ with disk := d } := ⟨hprep.same.freeMapFile, hprep.same.next, hprep.same.inodes⟩
  obtain ⟨s', hclose, hdisk, hmap, hsame, hinv'⟩ := rootClosed hg hopened hsame₄ hinv
  have hbound : ∀ w m, s'.disk.Bound w m ↔ w = name.chars ∧ m = n ∨ s.disk.Bound w m := by
    intro w m
    rw [hdisk, Disk.Bound, binds_congr fun j _ => hslots j, binds_store hi hslot]
    have hold := hg.root.bound_congr (w := w) (n := m) (hprep.quiet.same 1 hg.one_mem (by omega))
    exact or_congr_right hold
  have hsame_n : s₃.disk.Same s'.disk n := by
    rw [hdisk]
    have := hres.file
    exact hquiet.same n (Or.inl rfl) (by omega)
  refine ⟨s', ?_, ⟨hres.first, hprep.run, hprep.least, ?_, fun x => ?_, hbound, ?_, fun p hp => ?_, hprep.new, hsame, ?_⟩,
    hg.created hinv' ?_ hbound hprep.new hsame⟩
  · rw [filesysCreate, hopen, except_ok_bind]
    dsimp only
    rw [halloc, except_ok_bind]
    dsimp only
    rw [hcreate]
    simp [hadd, hclose]
  · rw [hdisk]
    exact hquiet.size.trans hprep.quiet.size
  · rw [hmap]
    exact hprep.has x
  · rw [hsame_n.1]
    exact hprep.header
  · rw [hsame_n.2 p (by rw [hprep.header]; exact hp)]
    exact hprep.zeros p hp
  · intro m hm _ hfile
    rw [hdisk]
    exact (hprep.quiet.same m hm (by omega)).trans (hquiet.same m (Or.inr hm) (by omega))
  · rw [hdisk]
    exact hroot

end Allocated

/-- `filesys_create`. -/
lemma filesysCreate_spec (name : CStr) (hnonneg : 0 ≤ size) (hlt : size < 2 ^ 31) :
    (∃ n k s', filesysCreate s name size = .ok (true, s') ∧ s.TakesName name.chars ∧
      Created s s' name.chars size n k ∧ Good s' refs) ∨
    (∃ s', filesysCreate s name size = .ok (false, s') ∧ Refused s s' name.chars size ∧ Good s' refs) := by
  obtain ⟨dir, ino, s₁, hopen, _, hopened, hd, hinv₁⟩ := dirOpenRoot_spec hg.inv hg.root hg.one_mem
  rcases reserve_spec hg hopened hinv₁ with ⟨n, s₂, halloc, hres⟩ | ⟨halloc, hnone⟩
  · rcases prepare_spec hnonneg hlt hres with ⟨k, s₃, hcreate, hprep⟩ | ⟨hcreate, hnone⟩
    · have hsame₁ : s.disk.Same s₃.disk 1 := hprep.quiet.same 1 hg.one_mem (by omega)
      have hd₃ : RootDir s₃ dir ino := by
        refine hd.congr ?_ (congrFun hprep.same.inodes dir.inode)
        rw [hopened.disk]
        exact hsame₁
      have hsmall : n < 2 ^ 32 := by
        have := hres.first.1
        have := s.disk.small
        omega
      have hnew : ∀ w, ¬s₃.disk.Bound w n := by
        intro w hbound
        exact hprep.new (hg.bound_mem ((hg.root.bound_congr hsame₁).mp hbound))
      rcases dirAdd_spec hd₃ hprep.inv name hres.file hsmall hnew with
        ⟨i, d, hi, hvalid, hunbound, hslot, hadd, hquiet, hslots, hroot, hinv⟩ | ⟨hadd, hname⟩
      · left
        obtain ⟨s', hrun, hcreated, hgood⟩ := create_added hg name hopen hopened halloc hres hcreate hprep hadd hi hslot
          hquiet hslots hroot hinv
        refine ⟨n, k, s', hrun, ?_, hcreated, hgood⟩
        exact (hg.root.takesName_congr hsame₁ name.chars).mp ⟨hvalid, hunbound, i, hi, hslot⟩
      · right
        refine create_noName hg name hopen hopened halloc hres hcreate hprep hadd fun htakes => ?_
        exact hname ((hg.root.takesName_congr hsame₁ name.chars).mpr htakes)
    · exact Or.inr (create_noRun hg name hopen hopened halloc hres hcreate hnone)
  · right
    obtain ⟨s', hclose, hdisk, hmap, hsame, hinv⟩ := rootClosed hg hopened ⟨rfl, Nat.le_refl _, rfl⟩ hinv₁
    have hquiet : s.disk.Quiet s'.disk s.live 0 := by
      rw [hdisk, hopened.disk]
      exact .refl s.disk s.live 0
    obtain ⟨hgood, hfiles⟩ := hg.quiet hquiet hsame hinv
    refine ⟨s', ?_, ⟨Or.inl ⟨?_, fun x => ?_⟩, ?_, hsame, hfiles⟩, hgood⟩
    · rw [filesysCreate, hopen, except_ok_bind]
      dsimp only
      rw [halloc, except_ok_bind]
      dsimp only
      rw [hclose, except_ok_bind, except_pure]
    · rintro ⟨n, hfirst, _⟩
      exact hnone n hfirst
    · rw [hmap, hopened.freeMap]
    · exact hquiet.same 1 hg.one_mem (by omega)

end Good

end OsLabs.Filesys
