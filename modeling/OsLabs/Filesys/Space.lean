import OsLabs.Filesys.Layout

/-!
# The free map and the device agree

`Space s live` says that the sectors of the living inodes are in use in the free map and on different places, and that the
file of the free map, if it is open, holds the free map. Allocating and releasing sectors keeps it
(`freeMapAllocate_spec`, `freeMapRelease_spec`), and so does creating an inode (`inodeCreate_spec`).
-/

namespace OsLabs.Filesys

open Lib LibKernel

/-- The open file of the free map has room for it. -/
structure MapFile (s : Fs) (file : File) : Prop where
  inode : ∃ ino, s.inodes file.inode = some ino ∧ ino.sector = 0 ∧ ino.data = s.disk.header 0 ∧ ino.denyWriteCnt = 0
  length : (s.disk.header 0).length = byteCnt s.freeMap.bitCnt

/-- The open file of the free map holds it. The last word of the file may have other bits than the one in memory, where
no sector has a bit. -/
structure Mapped (s : Fs) (file : File) : Prop extends MapFile s file where
  synced : ∀ x < s.freeMap.bitCnt, (Bitmap.ofBytes s.freeMap.bitCnt (s.disk.byte 0)).has x = s.freeMap.has x

/-- The sectors of the living inodes are in use, and the free map is on the device. -/
structure Space (s : Fs) (live : Set ℕ) : Prop where
  bits : s.freeMap.bitCnt = s.disk.size
  layout : Layout s.disk s.freeMap.has live
  mapped : ∀ file, s.freeMapFile = some file → 0 ∈ live ∧ Mapped s file

/-- The same inodes, with another free map and another device. -/
def Fs.remap (s : Fs) (b : Bitmap) (d : Disk) : Fs :=
  { s with freeMap := b, disk := d }

variable {s : Fs} {live : Set ℕ} {file : File} {b : Bitmap}

lemma Space.small (h : Space s live) : s.freeMap.bitCnt < 2 ^ 32 := by
  have hsmall := s.disk.small
  rw [h.bits]
  omega

/-- The free map `b` is written to its file, whatever the file holds. -/
lemma bitmapWrite_spec {used : ℕ → Bool} (hlayout : Layout s.disk used live) (hzero : 0 ∈ live)
    (hfile : MapFile s file) (hcnt : b.bitCnt = s.freeMap.bitCnt) :
    ∃ d, bitmapWrite { s with freeMap := b } file = .ok (true, s.remap b d) ∧ s.disk.Quiet d live 0 ∧
      Mapped (s.remap b d) file := by
  obtain ⟨⟨ino, hino, hsector, hdata, hdeny⟩, hlength⟩ := hfile
  have havailable : available ino (byteCnt b.bitCnt) (0 : ℕ) = byteCnt b.bitCnt := by
    rw [available, hdata, hcnt]
    omega
  let s₁ : Fs := { s with freeMap := b }
  have hino₁ : s₁.inodes file.inode = some ino := hino
  have hlayout₁ : Layout s₁.disk used live := hlayout
  obtain ⟨d, hrun, hquiet, hbyte⟩ :=
    Fs.writeAt_spec hlayout₁ hzero hino₁ hdata hdeny b.bytes (byteCnt b.bitCnt) 0
  rw [havailable] at hrun hbyte
  have hheader := hquiet.header 0 hzero
  refine ⟨d, ?_, hquiet, ⟨⟨ino, hino, hsector, hdata.trans hheader.symm, hdeny⟩, ?_⟩, ?_⟩
  · rw [bitmapWrite, fileWriteAt]
    dsimp only
    rw [show (0 : ℤ) = (0 : ℕ) from rfl, hrun, except_ok_bind]
    rw [decide_eq_true rfl]
    rfl
  · have hlength' : (d.header 0).length = byteCnt b.bitCnt := by
      rw [hheader, hcnt]
      exact hlength
    exact hlength'
  · intro x hx
    refine Bitmap.has_ofBytes (fun k hk => ?_) hx
    have hbyte' : (s.remap b d).disk.byte 0 k = copy (s₁.disk.byte 0) 0 b.bytes 0 (byteCnt b.bitCnt) k :=
      congrFun hbyte k
    have hk' : k < 0 + byteCnt b.bitCnt := by
      rw [Nat.zero_add]
      exact hk
    rw [hbyte', copy_of_mem (Nat.zero_le k) hk', Nat.zero_add]
    rfl

/-- The free map is read from its file. -/
lemma bitmapRead_spec {used : ℕ → Bool} (hlayout : Layout s.disk used live) (hzero : 0 ∈ live)
    (hfile : MapFile s file) (hpos : 0 < s.freeMap.bitCnt) :
    ∃ b, bitmapRead s file = .ok (true, { s with freeMap := b }) ∧ b.bitCnt = s.freeMap.bitCnt ∧
      ∀ x < s.freeMap.bitCnt, b.has x = (Bitmap.ofBytes s.freeMap.bitCnt (s.disk.byte 0)).has x := by
  obtain ⟨⟨ino, hino, _, hdata, _⟩, hlength⟩ := hfile
  have havailable : available ino (byteCnt s.freeMap.bitCnt) (0 : ℕ) = byteCnt s.freeMap.bitCnt := by
    rw [available, hdata]
    omega
  have hread := Fs.readAt_eq hlayout hzero hino hdata s.freeMap.bytes (byteCnt s.freeMap.bitCnt) 0
  rw [havailable] at hread
  let buffer := copy s.freeMap.bytes 0 (s.disk.byte 0) 0 (byteCnt s.freeMap.bitCnt)
  let last := elemCnt s.freeMap.bitCnt - 1
  let b : Bitmap := ⟨s.freeMap.bitCnt,
    Function.update (Bitmap.wordsOf buffer) last (Bitmap.wordsOf buffer last &&& s.freeMap.lastMask)⟩
  refine ⟨b, ?_, rfl, fun x hx => ?_⟩
  · have hfile : fileReadAt s file s.freeMap.bytes (byteCnt s.freeMap.bitCnt) 0 =
        .ok (byteCnt s.freeMap.bitCnt, buffer) := hread
    rw [bitmapRead, if_pos hpos]
    dsimp only
    rw [hfile, except_ok_bind]
    rw [decide_eq_true rfl]
    rfl
  · have hmasked : b.has x = (Bitmap.ofBytes s.freeMap.bitCnt buffer).has x :=
      Bitmap.has_masked (Bitmap.wordsOf buffer) hx
    rw [hmasked]
    refine Bitmap.has_ofBytes_congr (fun k hk => ?_) hx
    have hk' : k < 0 + byteCnt s.freeMap.bitCnt := by omega
    have hbyte : buffer k = s.disk.byte 0 (0 + (k - 0)) := copy_of_mem (Nat.zero_le k) hk'
    rw [hbyte, Nat.zero_add, Nat.sub_zero]

/-- Another free map is written to the device; the sectors of the living inodes stay in use. -/
lemma Space.remap (h : Space s live) (hcnt : b.bitCnt = s.freeMap.bitCnt)
    (hused : ∀ m ∈ live, ∀ x, s.disk.Owns m x → s.freeMap.has x = true → b.has x = true) {d : Disk}
    (hquiet : s.disk.Quiet d live 0) (hmapped : ∀ file, s.freeMapFile = some file → Mapped (s.remap b d) file) :
    Space (s.remap b d) live where
  bits := hcnt.trans (h.bits.trans hquiet.size.symm)
  layout := h.layout.congr hquiet.size hquiet.header hused
  mapped file hfile := ⟨(h.mapped file hfile).1, hmapped file hfile⟩

/-- `free_map_allocate` takes the first run of free sectors. -/
lemma freeMapAllocate_spec (h : Space s live) (cnt : ℕ) :
    (∃ k b d, freeMapAllocate s cnt = .ok (some k, s.remap b d) ∧ s.freeMap.Run false k cnt ∧
      (∀ j < k, ¬s.freeMap.Run false j cnt) ∧
      (∀ x, b.has x = if k ≤ x ∧ x < k + cnt then true else s.freeMap.has x) ∧
      s.disk.Quiet d live 0 ∧ Space (s.remap b d) live) ∨
    (freeMapAllocate s cnt = .ok (none, s) ∧ ∀ j, ¬s.freeMap.Run false j cnt) := by
  rw [freeMapAllocate]
  rcases s.freeMap.scanAndFlip_spec h.small cnt false (Nat.zero_le _) with
    ⟨k, b, hscan, _, hrun, hfirst, hcnt, hhas⟩ | ⟨hscan, hnone⟩
  · left
    rw [hscan, bitmapAssert, except_ok_bind]
    have hused : ∀ m ∈ live, ∀ x, s.disk.Owns m x → s.freeMap.has x = true → b.has x = true := by
      intro m _ x _ hx
      rw [hhas]
      split
      · rfl
      · exact hx
    have hfirst' : ∀ j < k, ¬s.freeMap.Run false j cnt := fun j hj => hfirst j (Nat.zero_le j) hj
    cases hfile : s.freeMapFile with
    | none =>
      refine ⟨k, b, s.disk, ?_, hrun, hfirst', hhas, .refl s.disk live 0, ?_⟩
      · obtain ⟨disk, freeMap, freeMapFile, openInodes, inodes, nextInode⟩ := s
        cases hfile
        rfl
      · apply h.remap hcnt hused (.refl s.disk live 0)
        intro file hsome
        rw [hfile] at hsome
        cases hsome
    | some file =>
      obtain ⟨hzero, hmapped⟩ := h.mapped file hfile
      obtain ⟨d, hwrite, hquiet, hmapped'⟩ := bitmapWrite_spec h.layout hzero hmapped.toMapFile hcnt
      refine ⟨k, b, d, ?_, hrun, hfirst', hhas, hquiet, ?_⟩
      · obtain ⟨disk, freeMap, freeMapFile, openInodes, inodes, nextInode⟩ := s
        cases hfile
        dsimp only at hwrite ⊢
        rw [hwrite]
        rfl
      · apply h.remap hcnt hused hquiet
        intro file' hsome
        rw [hfile] at hsome
        cases hsome
        exact hmapped'
  · right
    refine ⟨?_, fun j => hnone j (Nat.zero_le j)⟩
    rw [hscan]
    obtain ⟨disk, freeMap, freeMapFile, openInodes, inodes, nextInode⟩ := s
    cases freeMapFile <;> rfl

/-- `free_map_release` frees sectors that are in use and that no inode owns. -/
lemma freeMapRelease_spec (h : Space s live) (hfile : s.freeMapFile = some file) {sector cnt : ℕ}
    (hrun : s.freeMap.Run true sector cnt)
    (hfree : ∀ m ∈ live, ∀ x, s.disk.Owns m x → ¬(sector ≤ x ∧ x < sector + cnt)) :
    ∃ b d, freeMapRelease s sector cnt = .ok (s.remap b d) ∧
      (∀ x, b.has x = if sector ≤ x ∧ x < sector + cnt then false else s.freeMap.has x) ∧
      s.disk.Quiet d live 0 ∧ Space (s.remap b d) live := by
  obtain ⟨b, hset, hcnt, hhas⟩ := s.freeMap.setMultiple_spec h.small false hrun.1
  obtain ⟨hzero, hmapped⟩ := h.mapped file hfile
  obtain ⟨d, hwrite, hquiet, hmapped'⟩ := bitmapWrite_spec h.layout hzero hmapped.toMapFile hcnt
  have hused : ∀ m ∈ live, ∀ x, s.disk.Owns m x → s.freeMap.has x = true → b.has x = true := by
    intro m hm x howns hx
    rw [hhas, if_neg (hfree m hm x howns)]
    exact hx
  refine ⟨b, d, ?_, hhas, hquiet, ?_⟩
  · rw [freeMapRelease, s.freeMap.all_eq h.small hrun, bitmapAssert, except_ok_bind, if_pos rfl, hset, bitmapAssert,
      except_ok_bind]
    obtain ⟨disk, freeMap, freeMapFile, openInodes, inodes, nextInode⟩ := s
    cases hfile
    dsimp only at hwrite ⊢
    rw [hwrite]
    rfl
  · apply h.remap hcnt hused hquiet
    intro file' hsome
    rw [hfile] at hsome
    cases hsome
    exact hmapped'

/-! ## New inodes -/

lemma writeZeros_eq {d : Disk} {start n : ℕ} (h : start + n ≤ d.size) :
    writeZeros d start n = .ok (d.put (512 * start) (fun _ => 0) 0 (512 * n)) := by
  induction n with
  | zero =>
    rw [Disk.put_zero]
    rfl
  | succ n ih =>
    have hlt : start + n < (d.put (512 * start) (fun _ => 0) 0 (512 * n)).size := by
      rw [Disk.put_size]
      omega
    rw [writeZeros, ih (by omega), except_ok_bind, blockWrite_of_lt hlt]
    simp only [Disk.put]
    rw [show 512 * (start + n) = 512 * start + 512 * n by omega, show 512 * (n + 1) = 512 * n + 512 by omega,
      ← copy_append]
    congr 2

lemma Mapped.congr {d d' : Disk} (h : Mapped (s.remap b d) file) (hsame : d.Same d' 0) :
    Mapped (s.remap b d') file := by
  obtain ⟨⟨⟨ino, hino, hsector, hdata, hdeny⟩, hlength⟩, hsynced⟩ := h
  have hlength : (d.header 0).length = byteCnt b.bitCnt := hlength
  refine ⟨⟨⟨ino, hino, hsector, hdata.trans hsame.1.symm, hdeny⟩,
    (congrArg InodeDisk.length hsame.1).trans hlength⟩, ?_⟩
  intro x hx
  refine (Bitmap.has_ofBytes_congr (fun k hk => ?_) hx).trans (hsynced x hx)
  have hk : k < byteCnt b.bitCnt := hk
  exact hsame.2 k (by omega)

/-- `inode_create` in a sector that is in use, but that no inode owns. -/
lemma inodeCreate_spec (h : Space s live) {n : ℕ} {length : ℤ} (hnonneg : 0 ≤ length) (hlength : length < 2 ^ 31)
    (hn : n < s.disk.size) (hused : s.freeMap.has n = true) (hfree : ∀ m ∈ live, ¬s.disk.Owns m n) :
    (∃ k b d, inodeCreate s n length = .ok (true, s.remap b d) ∧
      s.freeMap.Run false k (bytesToSectors length) ∧ (∀ j < k, ¬s.freeMap.Run false j (bytesToSectors length)) ∧
      (∀ x, b.has x = if k ≤ x ∧ x < k + bytesToSectors length then true else s.freeMap.has x) ∧
      d.header n = ⟨k, length⟩ ∧ (∀ p : ℕ, p < length → d.byte n p = 0) ∧
      s.disk.Quiet d live 0 ∧ Space (s.remap b d) (insert n live)) ∨
    (inodeCreate s n length = .ok (false, s) ∧ ∀ j, ¬s.freeMap.Run false j (bytesToSectors length)) := by
  rw [inodeCreate, if_neg (by omega)]
  dsimp only
  rcases freeMapAllocate_spec h (bytesToSectors length) with
    ⟨k, b, d₁, halloc, hrun, hfirst, hhas, hquiet, hspace⟩ | ⟨halloc, hnone⟩
  · left
    have hsize := hquiet.size
    have hrunle : k + bytesToSectors length ≤ d₁.size := by
      have hle := hrun.1
      rw [h.bits, ← hsize] at hle
      exact hle
    -- the sectors were free before the call
    have hlayout₁ : Layout d₁ s.freeMap.has live :=
      h.layout.congr hsize hquiet.header fun _ _ _ _ hx => hx
    have hfree₁ : ∀ m ∈ live, ¬d₁.Owns m n := by
      intro m hm
      rw [Disk.owns_of_header_eq (hquiet.header m hm)]
      exact hfree m hm
    obtain ⟨hheader, hzeros, hsame, hlayout⟩ := hlayout₁.create hnonneg hlength (by omega) hused hfree₁
      hrunle hrun.2 hhas
    refine ⟨k, b, _, ?_, hrun, hfirst, hhas, hheader, hzeros, hquiet.trans (.of_same rfl hsame), ?_, hlayout, ?_⟩
    · rw [halloc, except_ok_bind]
      dsimp only [Fs.remap]
      rw [blockWrite_of_lt (show n < d₁.size by omega), except_ok_bind,
        writeZeros_eq (by rw [Disk.put_size]; exact hrunle), except_ok_bind]
      rfl
    · exact hspace.bits
    · intro file hfile
      obtain ⟨hzero, hmapped⟩ := hspace.mapped file hfile
      exact ⟨Or.inr hzero, hmapped.congr (hsame 0 hzero)⟩
  · right
    rw [halloc]
    exact ⟨rfl, hnone⟩

/-- An inode can only be created on the device. -/
lemma inodeCreate_lt (h : Space s live) {s' : Fs} {n : ℕ} {length : ℤ}
    (hrun : inodeCreate s n length = .ok (true, s')) : n < s.disk.size := by
  rw [inodeCreate] at hrun
  split at hrun
  · cases hrun
  · dsimp only at hrun
    rcases freeMapAllocate_spec h (bytesToSectors length) with ⟨k, b, d, halloc, _, _, _, hquiet, _⟩ | ⟨halloc, _⟩
    · rw [halloc, except_ok_bind] at hrun
      dsimp only [Fs.remap] at hrun
      by_contra hge
      rw [blockWrite, if_neg (by rw [hquiet.size]; exact hge)] at hrun
      cases hrun
    · rw [halloc] at hrun
      cases hrun

end OsLabs.Filesys
