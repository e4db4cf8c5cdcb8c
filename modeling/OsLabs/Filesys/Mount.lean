import OsLabs.Filesys.Calls

/-!
# Formatting and mounting

`filesys_init` leaves a mounted file system: on a device that is formatted by it (`format_valid`), and on one that has a
file system (`freeMapOpen_spec`), where the free map is what its file on the device says.
-/

namespace OsLabs.Filesys

open Lib LibKernel Function

/-- A device with a file system, of which no inode is open. -/
structure Unmounted (s : Fs) (live : Set ℕ) (used : ℕ → Bool) : Prop where
  table : Table s live fun _ => 0
  bits : s.freeMap.bitCnt = s.disk.size
  layout : Layout s.disk used live
  zero : 0 ∈ live
  length : (s.disk.header 0).length = byteCnt s.disk.size
  synced : ∀ x < s.disk.size, (Bitmap.ofBytes s.disk.size (s.disk.byte 0)).has x = used x

/-- A mounted file system, of which only the inode of the free map is open. -/
structure Mounted (s : Fs) (live : Set ℕ) (used : ℕ → Bool) (a : ℕ) : Prop where
  inv : Inv s live (update (fun _ => 0) a 1)
  file : s.freeMapFile = some (fileOpen a)
  bits : ∀ x < s.disk.size, s.freeMap.has x = used x
  inodes : ∀ b j, s.inodes b = some j → b = a ∧ j.sector = 0

variable {s s' : Fs} {live : Set ℕ} {used : ℕ → Bool} {refs : ℕ → ℕ} {a n : ℕ}

/-! ## Mounting -/

/-- No inode is open. -/
lemma Table.none_open (t : Table s live fun _ => 0) : (∀ b, s.inodes b = none) ∧ s.openInodes = [] := by
  have hnone : ∀ b, s.inodes b = none := by
    intro b
    by_contra hsome
    obtain ⟨j, hj⟩ := Option.ne_none_iff_exists'.mp hsome
    exact absurd (t.count b j hj).2 (Nat.lt_irrefl 0)
  refine ⟨hnone, List.eq_nil_iff_forall_not_mem.mpr fun b hb => ?_⟩
  obtain ⟨j, hj⟩ := (t.mem_iff b).mp hb
  rw [hnone b] at hj
  cases hj

/-- `free_map_open` reads the free map from the device. -/
lemma freeMapOpen_spec (h : Unmounted s live used) :
    ∃ s' a, freeMapOpen s = .ok s' ∧ s'.disk = s.disk ∧ s'.freeMap.bitCnt = s.freeMap.bitCnt ∧
      Mounted s' live used a := by
  obtain ⟨hnone, hopen⟩ := h.table.none_open
  have hsize : 0 < s.disk.size := (h.layout.owned.taken 0 h.zero 0 (Or.inl rfl)).1
  have hopen₁ := inodeOpen_eq_of_closed hsize (by rw [hopen]; rfl)
  -- the inode is read, and the file is opened
  let a := s.nextInode
  let ino : Inode := ⟨0, 1, false, 0, s.disk.header 0⟩
  let s₁ := s.enlist 0
  let s₂ : Fs := { s₁ with freeMapFile := some (fileOpen a) }
  have htable : Table s₁ live (update (fun _ => 0) a 1) := by
    refine h.table.new h.zero fun b j hj => ?_
    rw [hnone b] at hj
    cases hj
  have hino : s₂.inodes a = some ino := Fs.setInode_self s a ino
  have hfile : MapFile s₂ (fileOpen a) := by
    refine ⟨⟨ino, hino, rfl, rfl, rfl⟩, ?_⟩
    rw [show s₂.freeMap.bitCnt = s.disk.size from h.bits]
    exact h.length
  have hlayout : Layout s₂.disk used live := h.layout
  have hpos : 0 < s₂.freeMap.bitCnt := hsize.trans_eq h.bits.symm
  obtain ⟨b, hread, hcnt, hhas⟩ := bitmapRead_spec hlayout h.zero hfile hpos
  have hcnt : b.bitCnt = s.disk.size := hcnt.trans h.bits
  have hsynced : ∀ x < s.disk.size, b.has x = (Bitmap.ofBytes s.disk.size (s.disk.byte 0)).has x := by
    rw [← h.bits]
    exact hhas
  let s₃ : Fs := { s₂ with freeMap := b }
  refine ⟨s₃, a, ?_, rfl, hcnt.trans h.bits.symm, ⟨⟨hcnt, ?_, ?_⟩, ?_⟩, rfl, fun x hx => ?_, fun c j hj => ?_⟩
  · rw [freeMapOpen, hopen₁, except_ok_bind]
    dsimp only
    rw [hread]
    rfl
  · refine h.layout.congr rfl (fun _ _ => rfl) fun m hm x howns hx => ?_
    have hlt := (h.layout.owned.taken m hm x howns).1
    have hhas : b.has x = true := by
      rw [hsynced x hlt, h.synced x hlt]
      exact hx
    exact hhas
  · intro file hfile'
    cases hfile'
    refine ⟨h.zero, ⟨⟨ino, hino, rfl, rfl, rfl⟩, ?_⟩, fun x hx => ?_⟩
    · rw [show s₃.freeMap.bitCnt = s.disk.size from hcnt]
      exact h.length
    · rw [show s₃.freeMap.bitCnt = s.disk.size from hcnt] at hx ⊢
      exact (hsynced x hx).symm
  · exact htable.congr rfl rfl rfl fun m _ => rfl
  · exact (hsynced x hx).trans (h.synced x hx)
  · have hj : update s.inodes a (some ino) c = some j := hj
    by_cases hca : c = a
    · rw [hca, update_self] at hj
      cases hj
      exact ⟨hca, rfl⟩
    · rw [update_of_ne hca, hnone c] at hj
      cases hj

/-- The inodes that are alive when none is open. -/
def Disk.named (d : Disk) : Set ℕ :=
  { n | n < 2 ∨ ∃ w, d.Bound w n }

/-- A file system that was mounted and not used yet. -/
lemma Mounted.valid (h : Mounted s s.disk.named used a) (hroot : Root s.disk) : World.Valid ⟨s, []⟩ := by
  have hlive : s.live = s.disk.named := by
    ext m
    constructor
    · rintro (hm | hm | ⟨b, j, hj, rfl⟩)
      · exact Or.inl hm
      · exact Or.inr hm
      · refine Or.inl ?_
        rw [(h.inodes b j hj).2]
        omega
    · rintro (hm | hm)
      · exact Or.inl hm
      · exact Or.inr (Or.inl hm)
  have hrefs : World.refs ⟨s, []⟩ = update (fun _ => 0) a 1 := by
    funext b
    rw [World.refs, h.file]
    by_cases hba : b = a
    · simp [hba, fileOpen]
    · simp [hba, fileOpen, Ne.symm hba]
  refine ⟨⟨?_, hroot, ⟨a, h.file⟩, fun b j hj hfile => ?_⟩, fun x hx => ?_, fun b n c hc => ?_⟩
  · rw [hlive, hrefs]
    exact h.inv
  · rw [(h.inodes b j hj).2] at hfile
    omega
  · cases hx
  · obtain ⟨j, hj, rfl, rfl⟩ := Fs.view_eq_some hc
    have hsector := (h.inodes b j hj).2
    exact (h.inv.table.system b j hj (by omega)).1

/-! ## Unmounting -/

/-- `free_map_close`, when nothing else is open. -/
lemma freeMapClose_spec (h : Inv s live (update (fun _ => 0) a 1))
    (hfile : s.freeMapFile = some (fileOpen a)) :
    ∃ s', freeMapClose s = .ok s' ∧ s'.disk = s.disk ∧ s'.freeMap = s.freeMap ∧ Unmounted s' live s.freeMap.has := by
  obtain ⟨hzero, ⟨⟨ino, hino, hsector, _, _⟩, hlength⟩, hsynced⟩ := h.space.mapped _ hfile
  have hcount := (h.table.count a ino hino).1
  rw [update_self] at hcount
  have hkept : ¬ino.removed = true := by
    rw [(h.table.system a ino hino (by omega)).2]
    exact Bool.false_ne_true
  have hclose := inodeClose_eq_of_kept hino (by rw [hcount]; rfl) hkept
  let s' : Fs := { s with openInodes := s.openInodes.erase a, inodes := update s.inodes a none }
  have htable : Table s' live (update (update (fun _ => 0) a 1) a 0) :=
    h.table.free hino rfl rfl rfl (fun m hm _ => hm) fun m _ _ => rfl
  have hnone : update (update (fun _ => 0) a 1) a 0 = fun _ : ℕ => 0 := by
    rw [update_idem]
    exact update_eq_self a fun _ => 0
  rw [hnone] at htable
  have hbits := h.space.bits
  rw [hbits] at hlength hsynced
  refine ⟨s', ?_, rfl, rfl, htable, hbits, h.space.layout, hzero, hlength, hsynced⟩
  rw [freeMapClose, hfile]
  exact hclose

/-! ## Formatting -/

/-- `free_map_init`. -/
lemma freeMapInit_spec (s : Fs) (junk : ℕ → BitVec 32) :
    ∃ b, freeMapInit s junk = .ok { s with freeMap := b } ∧ b.bitCnt = s.disk.size ∧ b.has 0 = true ∧
      b.has 1 = true ∧ Fs.Packed { s with freeMap := b } 2 := by
  have hsmall := s.disk.small
  obtain ⟨b, hcreate, hcnt, hfalse⟩ := Bitmap.create_spec (show s.disk.size < 2 ^ 32 by omega) junk
  refine ⟨(b.mark 0).mark 1, ?_, hcnt, ?_, ?_, fun x hx => ?_⟩
  · rw [freeMapInit, hcreate]
    rfl
  · rw [Bitmap.has_mark, Bitmap.has_mark]
    rfl
  · rw [Bitmap.has_mark]
    rfl
  · have hhas : ((b.mark 0).mark 1).has x = true ↔ x < 2 := by
      rw [Bitmap.has_mark, Bitmap.has_mark]
      by_cases h1 : x = 1
      · simp [h1]
      · by_cases h0 : x = 0
        · simp [h0]
        · rw [hfalse x hx]
          simp
          omega
    exact hhas

/-- An allocation on a packed device. -/
lemma Fs.Packed.alloc {u k cnt : ℕ} {b : Bitmap} {d : Disk} (h : s.Packed u) (hbits : s.freeMap.bitCnt = s.disk.size)
    (hsize : d.size = s.disk.size) (hrun : s.freeMap.Run false k cnt) (hfirst : ∀ j < k, ¬s.freeMap.Run false j cnt)
    (hhas : ∀ x, b.has x = if k ≤ x ∧ x < k + cnt then true else s.freeMap.has x) : (s.remap b d).Packed (u + cnt) := by
  intro x hx
  have hx : x < s.disk.size := hx.trans_eq hsize
  show b.has x = true ↔ _
  have hiff : b.has x = true ↔ k ≤ x ∧ x < k + cnt ∨ x < u := by
    rw [hhas x]
    split
    · rename_i hin
      simp [hin]
    · rw [h x hx]
      tauto
  rw [hiff]
  by_cases hzero : cnt = 0
  · omega
  · have hle := hrun.1
    have hku : u ≤ k := by
      by_contra hlt
      have hfree := hrun.2 k (Nat.le_refl k) (by omega)
      rw [(h k (by omega)).mpr (by omega)] at hfree
      cases hfree
    have hleast : k ≤ u := by
      by_contra hlt
      refine hfirst u (by omega) ⟨by omega, fun y hy hy' => ?_⟩
      rw [Bool.eq_false_iff]
      intro hused
      have := (h y (by omega)).mp hused
      omega
    omega

/-- The free map has its inode on the device, and is written to it. -/
structure MapCreated (s : Fs) (a : ℕ) : Prop where
  inv : Inv s (insert 0 ∅) (update (fun _ => 0) a 1)
  file : s.freeMapFile = some (fileOpen a)
  one : 1 < s.disk.size ∧ s.freeMap.has 1 = true ∧ ¬s.disk.Owns 0 1

/-- The file of the free map has a sector. -/
lemma bytesToSectors_byteCnt (d : Disk) (hpos : 0 < d.size) : 0 < bytesToSectors (byteCnt d.size) := by
  have hsmall := d.small
  have hbytes : 4 ≤ byteCnt d.size ∧ byteCnt d.size < 2 ^ 20 := by
    rw [byteCnt, elemCnt]
    omega
  have hsectors := bytesToSectors_eq (show (0 : ℤ) ≤ byteCnt d.size by omega) (by omega)
  omega

/-- The inode of the free map is opened and the free map written to it. -/
lemma mapWritten_spec (h : Inv s live fun _ => 0) (hzero : 0 ∈ live)
    (hlength : (s.disk.header 0).length = byteCnt s.freeMap.bitCnt) :
    ∃ a s₁ s', inodeOpen s 0 = .ok (a, s₁) ∧
      bitmapWrite { s₁ with freeMapFile := some (fileOpen a) } (fileOpen a) = .ok (true, s') ∧
      s'.freeMapFile = some (fileOpen a) ∧ s'.freeMap = s.freeMap ∧ s.disk.Quiet s'.disk live 0 ∧
      Inv s' live (update (fun _ => 0) a 1) := by
  obtain ⟨a, ino, s₁, hopen, hopened, hinv₁⟩ := inodeOpen_spec h hzero
  have hsector := hopened.sector
  let s₂ : Fs := { s₁ with freeMapFile := some (fileOpen a) }
  have hcached := hinv₁.table.cached a ino hopened.self
  rw [hsector] at hcached
  have hfile : MapFile s₂ (fileOpen a) := by
    refine ⟨⟨ino, hopened.self, hsector, hcached, (hinv₁.table.system a ino hopened.self (by omega)).1⟩, ?_⟩
    rw [show s₂.disk = s.disk from hopened.disk, show s₂.freeMap = s.freeMap from hopened.freeMap]
    exact hlength
  have hlayout : Layout s₂.disk s₂.freeMap.has live := hinv₁.space.layout
  obtain ⟨d, hwrite, hquiet, hmapped⟩ := bitmapWrite_spec hlayout hzero hfile rfl
  refine ⟨a, s₁, s₂.remap s₂.freeMap d, hopen, hwrite, rfl, hopened.freeMap, ?_, ⟨?_, ?_, ?_⟩, ?_⟩
  · rw [← hopened.disk]
    exact hquiet
  · exact hinv₁.space.bits.trans hquiet.size.symm
  · exact hlayout.congr hquiet.size hquiet.header fun _ _ _ _ hx => hx
  · intro file hsome
    cases hsome
    exact ⟨hzero, hmapped⟩
  · exact hinv₁.table.congr rfl rfl rfl hquiet.header

/-- `free_map_create`, on a device without inodes. -/
lemma freeMapCreate_spec (h : Inv s ∅ fun _ => 0) (hzero : s.freeMap.has 0 = true) (hone : s.freeMap.has 1 = true)
    (hpacked : s.Packed 2) (hrun : freeMapCreate s = .ok s') : ∃ a u, MapCreated s' a ∧ s'.Packed u := by
  have hbits := h.space.bits
  have hsmall := s.disk.small
  have hbytes : (byteCnt s.disk.size : ℤ) < 2 ^ 31 := by
    rw [byteCnt, elemCnt]
    omega
  rw [freeMapCreate, Bitmap.fileSize, hbits] at hrun
  cases hcreate : inodeCreate s 0 (byteCnt s.disk.size) with
  | error e =>
    rw [hcreate] at hrun
    cases hrun
  | ok r =>
    obtain ⟨created, s₁⟩ := r
    rw [hcreate, except_ok_bind] at hrun
    cases created with
    | false => cases hrun
    | true =>
      have hpos : 0 < s.disk.size := inodeCreate_lt h.space hcreate
      rcases inodeCreate_spec h.space (by omega) hbytes hpos hzero (fun m hm => absurd hm (Set.notMem_empty m)) with
        ⟨k, b, d, hcreate', hfree, hfirst, hhas, hheader, _, hquiet, hspace⟩ | ⟨hcreate', _⟩
      · rw [hcreate] at hcreate'
        cases hcreate'
        have hpacked' := hpacked.alloc hbits hquiet.size hfree hfirst hhas
        have hcnt := bytesToSectors_byteCnt s.disk hpos
        have htable : Table (s.remap b d) (insert 0 ∅) fun _ => 0 :=
          (h.table.remap hquiet).grow fun m hm => Or.inr hm
        have hlength : ((s.remap b d).disk.header 0).length = byteCnt (s.remap b d).freeMap.bitCnt := by
          rw [hspace.bits, show (s.remap b d).disk.size = s.disk.size from hquiet.size,
            show (s.remap b d).disk.header 0 = _ from hheader]
        obtain ⟨a, s₁, s₂, hopen, hwrite, hfile, hmap, hquiet₂, hinv⟩ :=
          mapWritten_spec ⟨hspace, htable⟩ (Or.inl rfl) hlength
        have hrun : s₂ = s' := by
          dsimp only at hrun
          rw [hopen, except_ok_bind] at hrun
          rw [hwrite] at hrun
          exact Except.ok.inj hrun
        subst hrun
        -- the sectors of its data come after the first two
        have hk : 2 ≤ k := by
          have hkfree := hfree.2 k (Nat.le_refl k) (by omega)
          by_contra hlt
          have hk' : k = 0 ∨ k = 1 := by omega
          rcases hk' with rfl | rfl
          · rw [hzero] at hkfree
            cases hkfree
          · rw [hone] at hkfree
            cases hkfree
        refine ⟨a, 2 + bytesToSectors (byteCnt s.disk.size), ⟨hinv, hfile, ?_, ?_, ?_⟩, fun x hx => ?_⟩
        · have hle := hfree.1
          rw [hquiet₂.size, show (s.remap b d).disk.size = s.disk.size from hquiet.size]
          omega
        · rw [hmap, show (s.remap b d).freeMap.has 1 = _ from hhas 1, hone]
          exact ite_self _
        · rw [Disk.owns_of_header_eq (hquiet₂.header 0 (Or.inl rfl)), Disk.Owns, Disk.Data,
            show (s.remap b d).disk.header 0 = _ from hheader]
          dsimp only
          omega
        · rw [hmap]
          exact hpacked' x (hx.trans_eq hquiet₂.size)
      · rw [hcreate] at hcreate'
        cases hcreate'

/-- A directory of zero bytes is empty. -/
lemma Root.of_zeros {d : Disk} (hlength : (d.header 1).length = 320) (hzero : ∀ p : ℕ, (p : ℤ) < 320 → d.byte 1 p = 0) :
    Root d ∧ ∀ w n, ¬d.Bound w n := by
  have hunused : ∀ i < 16, entryInUse (d.entry i) = false := by
    intro i hi
    rw [entryInUse, Disk.entry, hzero (20 * i + 19) (by omega)]
    rfl
  have hslot : ∀ i < 16, d.slot i = none := by
    intro i hi
    rw [Disk.slot, entryOf, hunused i hi]
    rfl
  have hbound : ∀ w n, ¬d.Bound w n := by
    rintro w n ⟨i, hi, hsome⟩
    rw [hslot i hi] at hsome
    cases hsome
  refine ⟨⟨hlength, fun i hi huse => ?_, fun w n hw => absurd hw (hbound w n), fun w n hw => absurd hw (hbound w n),
    ⟨fun i hi j hj w n m hsome _ => ?_, fun i hi j hj w v n hsome _ => ?_⟩⟩, hbound⟩
  · rw [hunused i hi] at huse
    cases huse
  · rw [hslot i hi] at hsome
    cases hsome
  · rw [hslot i hi] at hsome
    cases hsome

/-- The file system has no files, and no gaps. -/
def Fs.NoFiles (s : Fs) : Prop :=
  (∀ w n, ¬s.disk.Bound w n) ∧ ∃ u, s.Packed u

/-- The root directory is created, and the free map closed. -/
lemma rootCreated_spec {u : ℕ} (h : MapCreated s a) (hpacked : s.Packed u) (hrun : dirCreate s 1 16 = .ok (true, s')) :
    ∃ s'', freeMapClose s' = .ok s'' ∧ Unmounted s'' s''.disk.named s''.freeMap.has ∧ Root s''.disk ∧ s''.NoFiles := by
  obtain ⟨hlt, hused, howns⟩ := h.one
  have hother : ∀ m ∈ insert 0 (∅ : Set ℕ), ¬s.disk.Owns m 1 := by
    rintro m (rfl | hm)
    · exact howns
    · exact absurd hm (Set.notMem_empty m)
  rcases inodeCreate_spec h.inv.space (show (0 : ℤ) ≤ (16 : ℕ) * 20 by omega) (by omega) hlt hused hother with
    ⟨k, b, d, hcreate, hfree, hfirst, hhas, hheader, hzeros, hquiet, hspace⟩ | ⟨hcreate, _⟩
  · rw [dirCreate, hcreate] at hrun
    cases hrun
    have hpacked' := hpacked.alloc h.inv.space.bits hquiet.size hfree hfirst hhas
    have hlength : (d.header 1).length = 320 := by rw [hheader]; rfl
    obtain ⟨hroot, hbound⟩ := Root.of_zeros hlength hzeros
    have hlive : insert 1 (insert 0 ∅) = d.named := by
      ext m
      constructor
      · rintro (rfl | rfl | hm)
        · exact Or.inl (by omega)
        · exact Or.inl (by omega)
        · exact absurd hm (Set.notMem_empty m)
      · rintro (hm | ⟨w, hw⟩)
        · have hm : m = 1 ∨ m = 0 := by omega
          exact hm.imp_right Or.inl
        · exact absurd hw (hbound w m)
    have htable : Table (s.remap b d) (insert 1 (insert 0 ∅)) (update (fun _ => 0) a 1) :=
      (h.inv.table.remap hquiet).grow fun m hm => Or.inr hm
    obtain ⟨s'', hclose, hdisk, hmap, hun⟩ := freeMapClose_spec ⟨hspace, htable⟩ h.file
    have hdisk : s''.disk = d := hdisk
    refine ⟨s'', hclose, ?_, ?_, ?_, u + bytesToSectors ((16 : ℕ) * 20), fun x hx => ?_⟩
    · rw [hmap, hdisk, ← hlive]
      exact hun
    · rw [hdisk]
      exact hroot
    · rw [hdisk]
      exact hbound
    · rw [hmap]
      rw [hdisk] at hx
      exact hpacked' x hx
  · rw [dirCreate, hcreate] at hrun
    cases hrun

/-- `do_format`, if it returns. -/
lemma doFormat_spec (h : Inv s ∅ fun _ => 0) (hzero : s.freeMap.has 0 = true) (hone : s.freeMap.has 1 = true)
    (hpacked : s.Packed 2) (hrun : doFormat s = .ok s') :
    Unmounted s' s'.disk.named s'.freeMap.has ∧ Root s'.disk ∧ s'.NoFiles := by
  rw [doFormat] at hrun
  cases hmap : freeMapCreate s with
  | error e =>
    rw [hmap] at hrun
    cases hrun
  | ok s₁ =>
    rw [hmap, except_ok_bind] at hrun
    obtain ⟨a, u, hcreated, hpacked⟩ := freeMapCreate_spec h hzero hone hpacked hmap
    cases hdir : dirCreate s₁ 1 16 with
    | error e =>
      rw [hdir] at hrun
      cases hrun
    | ok r =>
      obtain ⟨created, s₂⟩ := r
      rw [hdir] at hrun
      cases created with
      | false => cases hrun
      | true =>
        obtain ⟨s₃, hclose, hspec⟩ := rootCreated_spec hcreated hpacked hdir
        have hclose' : freeMapClose s₂ = .ok s' := hrun
        rw [hclose] at hclose'
        cases hclose'
        exact hspec

/-- No inode is alive when the kernel starts. -/
lemma boot_inv (disk : Disk) {b : Bitmap} (hbits : b.bitCnt = disk.size) :
    Inv { Fs.boot disk with freeMap := b } ∅ fun _ => 0 where
  space := ⟨hbits, .empty disk b.has, fun file hfile => by cases hfile⟩
  table :=
    { nodup := List.nodup_nil
      mem_iff := fun a => ⟨nofun, nofun⟩
      fresh := fun _ _ => rfl
      inj := fun _ _ _ _ h => by cases h
      live := fun _ _ h => by cases h
      cached := fun _ _ h => by cases h
      count := fun _ _ h => by cases h
      absent := fun _ _ => rfl
      system := fun _ _ h => by cases h }

/-- What `filesys_init` does, after a format or without one. -/
lemma mount_spec (h : Unmounted s s.disk.named used) (hroot : Root s.disk) :
    ∃ s', freeMapOpen s = .ok s' ∧ s'.disk = s.disk ∧ s'.freeMap.bitCnt = s.disk.size ∧
      (∀ x < s.disk.size, s'.freeMap.has x = used x) ∧ World.Valid ⟨s', []⟩ := by
  obtain ⟨s', a, hopen, hdisk, hcnt, hmounted⟩ := freeMapOpen_spec h
  have hbits := hmounted.bits
  rw [← hdisk] at hroot hmounted
  refine ⟨s', hopen, hdisk, hcnt.trans h.bits, ?_, hmounted.valid hroot⟩
  rw [← hdisk]
  exact hbits

/-- A device that is formatted when the kernel starts has a file system without files. -/
lemma format_spec {w : World} (h : w.Formatted) : w.Valid ∧ w.fs.NoFiles := by
  obtain ⟨fs, handles⟩ := w
  obtain ⟨disk, junk, hrun, hhandles⟩ := h
  obtain rfl : handles = [] := hhandles
  obtain ⟨b, hinit, hbits, hzero, hone, hpacked⟩ := freeMapInit_spec (Fs.boot disk) junk
  have hinit : freeMapInit { Fs.boot disk with openInodes := [] } junk = _ := hinit
  rw [filesysInit] at hrun
  dsimp only at hrun
  rw [hinit, except_ok_bind] at hrun
  cases hformat : doFormat { Fs.boot disk with freeMap := b } with
  | error e =>
    rw [hformat] at hrun
    cases hrun
  | ok s =>
    rw [hformat, except_ok_bind] at hrun
    obtain ⟨hun, hroot, hnone, u, hpacked⟩ := doFormat_spec (boot_inv disk hbits) hzero hone hpacked hformat
    obtain ⟨s', hopen, hdisk, _, hhas, hvalid⟩ := mount_spec hun hroot
    rw [hopen] at hrun
    cases hrun
    refine ⟨hvalid, ?_, u, fun x hx => ?_⟩
    · rw [hdisk]
      exact hnone
    · have hx : x < s.disk.size := hx.trans_eq (by rw [hdisk])
      rw [hhas x hx]
      exact hpacked x hx

lemma format_valid {w : World} (h : w.Formatted) : w.Valid :=
  (format_spec h).1

end OsLabs.Filesys
