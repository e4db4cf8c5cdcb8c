import OsLabs.Filesys.Space

/-!
# An inode is an array of bytes

`inode_write_at` and `inode_read_at` go through the sectors of an inode in chunks. Seen from outside they write and read an
array: `inode_byte_array` says so for a single call, for any number of writes one after the other, and for an inode
that `inode_create` has made, which is zero where it was not written.
-/

namespace OsLabs.Filesys

open Lib LibKernel

/-- Byte `p` of an inode. -/
def Disk.content (d : Disk) (data : InodeDisk) (p : ℕ) : UInt8 :=
  d.bytes (512 * data.start + p)

/-- `inode_write_at` writes to the array, and nowhere else. -/
def WritesArray (d : Disk) (ino : Inode) : Prop :=
  ∀ (buffer : ℕ → UInt8) (size offset : ℤ), 0 ≤ size → 0 ≤ offset →
    ∃ k d', inodeWriteAt d ino true buffer size offset = .ok (k, d') ∧
      (k : ℤ) = max 0 (min size (ino.data.length - offset)) ∧ d'.size = d.size ∧
      ∀ q, d'.bytes q =
        if 512 * ino.data.start + offset ≤ q ∧ q < 512 * ino.data.start + offset + k then
          buffer (q - (512 * ino.data.start + offset.toNat))
        else d.bytes q

/-- `inode_read_at` reads the array `m`, and leaves the rest of the buffer as it is. -/
def ReadsArray (d : Disk) (ino : Inode) (m : ℕ → UInt8) : Prop :=
  ∀ (buffer : ℕ → UInt8) (size offset : ℤ), 0 ≤ size → 0 ≤ offset →
    ∃ k buffer', inodeReadAt d ino true buffer size offset = .ok (k, buffer') ∧
      (k : ℤ) = max 0 (min size (ino.data.length - offset)) ∧
      ∀ i, buffer' i = if i < k then m (offset.toNat + i) else buffer i

/-- A call of `inode_write_at`. -/
structure Request where
  buffer : ℕ → UInt8
  size : ℤ
  offset : ℕ

/-- What the call writes. -/
def Request.write (ino : Inode) (r : Request) : Write UInt8 :=
  ⟨r.offset, r.buffer, available ino r.size r.offset⟩

/-- Calls of `inode_write_at`, one after the other. -/
def writeAll (d : Disk) (ino : Inode) : List Request → Except Panic Disk
  | [] => return d
  | r :: rs => do
    let (_, d) ← inodeWriteAt d ino true r.buffer r.size r.offset
    writeAll d ino rs

variable {d d' : Disk} {ino : Inode} {s s' : Fs} {n : ℕ}

/-! ## One call -/

lemma available_eq_max (ino : Inode) (size offset : ℤ) :
    (available ino size offset : ℤ) = max 0 (min size (ino.data.length - offset)) := by
  unfold available
  omega

lemma writesArray (hdev : OnDevice d ino.data) (hdeny : ino.denyWriteCnt = 0) : WritesArray d ino := by
  intro buffer size offset _ hoffset
  obtain ⟨p, rfl⟩ := Int.eq_ofNat_of_zero_le hoffset
  refine ⟨_, _, inodeWriteAt_eq hdev hdeny size p, available_eq_max ino size p, rfl, fun q => ?_⟩
  show copy d.bytes (512 * ino.data.start + p) buffer 0 (available ino size p) q = _
  by_cases hq : 512 * ino.data.start + p ≤ q ∧ q < 512 * ino.data.start + p + available ino size p
  · rw [copy_of_mem hq.1 hq.2, if_pos (by omega), Int.toNat_natCast, Nat.zero_add]
  · rw [copy_of_not_mem (by omega), if_neg (by omega)]

lemma readsArray (hdev : OnDevice d ino.data) {m : ℕ → UInt8}
    (hm : ∀ p : ℕ, p < ino.data.length → d.content ino.data p = m p) : ReadsArray d ino m := by
  intro buffer size offset _ hoffset
  obtain ⟨p, rfl⟩ := Int.eq_ofNat_of_zero_le hoffset
  have hcount := available_eq_max ino size p
  refine ⟨_, _, inodeReadAt_eq hdev size p, hcount, fun i => ?_⟩
  by_cases hi : i < available ino size p
  · rw [copy_of_mem (Nat.zero_le i) (by omega), if_pos hi, Int.toNat_natCast, ← hm (p + i) (by omega)]
    congr 1
    omega
  · rw [copy_of_not_mem (by omega), if_neg hi]

/-! ## Many calls -/

/-- The array after writes. -/
lemma writeAll_spec (hdev : OnDevice d ino.data) (hdeny : ino.denyWriteCnt = 0) (rs : List Request) :
    ∃ d', writeAll d ino rs = .ok d' ∧ d'.size = d.size ∧
      d'.content ino.data = afterWrites (d.content ino.data) (rs.map (Request.write ino)) := by
  induction rs generalizing d with
  | nil => exact ⟨d, rfl, rfl, rfl⟩
  | cons r rs ih =>
    have hwrite : inodeWriteAt d ino true r.buffer r.size r.offset = .ok _ := inodeWriteAt_eq hdev hdeny r.size r.offset
    let d₁ := d.put (512 * ino.data.start + r.offset) r.buffer 0 (available ino r.size r.offset)
    have hcontent : d₁.content ino.data = (r.write ino).apply (d.content ino.data) :=
      copy_shift d.bytes r.buffer (512 * ino.data.start) r.offset 0 (available ino r.size r.offset)
    obtain ⟨d', hrun, hsize, hafter⟩ := ih (d := d₁) hdev
    refine ⟨d', ?_, hsize, ?_⟩
    · rw [writeAll, hwrite]
      exact hrun
    · rw [hafter, hcontent]
      rfl

/-- Reads after writes return what was written last. -/
lemma writeAll_reads (hdev : OnDevice d ino.data) (hdeny : ino.denyWriteCnt = 0) {m : ℕ → UInt8}
    (hm : ∀ p : ℕ, p < ino.data.length → d.content ino.data p = m p) (rs : List Request) :
    ∃ d', writeAll d ino rs = .ok d' ∧ ReadsArray d' ino (lastWritten m (rs.map (Request.write ino))) := by
  obtain ⟨d', hrun, hsize, hafter⟩ := writeAll_spec hdev hdeny rs
  have hdev' : OnDevice d' ino.data := by
    unfold OnDevice
    rw [hsize]
    exact hdev
  refine ⟨d', hrun, readsArray hdev' fun p hp => ?_⟩
  rw [hafter, afterWrites_congr (hm p hp), afterWrites_apply]

/-! ## A new inode -/

lemma blockWrite_size (d : Disk) (x : ℕ) (buffer : ℕ → UInt8) (i : ℕ) :
    Yields (fun d' => d'.size = d.size) (blockWrite d x buffer i) :=
  .ite (fun _ => .ok rfl) fun _ => .error _

lemma writeChunk_size (d : Disk) (ino : Inode) (bounce : Bool) (buffer : ℕ → UInt8) (offset chunk : ℤ) (k : ℕ) :
    Yields (fun o => ∀ d', o = some d' → d'.size = d.size) (writeChunk d ino bounce buffer offset chunk k) := by
  have hwrite : ∀ x buffer i, Yields (fun o => ∀ d', o = some d' → d'.size = d.size)
      (blockWrite d x buffer i >>= fun d => pure (some d)) := by
    intro x buffer i
    apply (blockWrite_size d x buffer i).bind
    intro d₁ hsize
    apply Yields.ok
    intro d' hd'
    cases hd'
    exact hsize
  apply Yields.ite
  · intro _
    exact hwrite ..
  · intro _
    apply Yields.ite
    · intro _
      exact .ok fun d' hd' => by cases hd'
    · intro _
      apply Yields.ite
      · intro _
        exact (Yields.trivial _).bind fun _ _ => hwrite ..
      · intro _
        exact hwrite ..

/-- Writing does not change the size of the device. -/
lemma writeLoop_size (ino : Inode) (bounce : Bool) (buffer : ℕ → UInt8) (fuel : ℕ) (d : Disk) (size offset : ℤ) (k : ℕ) :
    Yields (fun r => r.2.size = d.size) (writeLoop ino bounce buffer fuel d size offset k) := by
  induction fuel generalizing d size offset k with
  | zero => exact .ok rfl
  | succ fuel ih =>
    apply Yields.ite
    · intro _
      exact .ok rfl
    · intro _
      apply (writeChunk_size ..).bind
      intro o ho
      cases o with
      | none => exact .ok rfl
      | some d₁ =>
        rw [← ho d₁ rfl]
        exact ih ..

lemma writeAt_size (s : Fs) (a : ℕ) (bounce : Bool) (buffer : ℕ → UInt8) (size offset : ℤ) :
    Yields (fun r => r.2.disk.size = s.disk.size) (s.writeAt a bounce buffer size offset) := by
  apply (Yields.trivial (s.deref a)).bind
  intro ino _
  have hwrite : Yields (fun r => r.2.size = s.disk.size) (inodeWriteAt s.disk ino bounce buffer size offset) :=
    .ite (fun _ => .ok rfl) fun _ => writeLoop_size ..
  apply hwrite.bind
  intro r hr
  exact .ok hr

lemma bitmapWrite_size (s : Fs) (file : File) : Yields (fun r => r.2.disk.size = s.disk.size) (bitmapWrite s file) := by
  apply (writeAt_size ..).bind
  intro r hr
  exact .ok hr

/-- The sectors that `free_map_allocate` returns were free. -/
lemma freeMapAllocate_run (hbits : s.freeMap.bitCnt = s.disk.size) (cnt : ℕ) :
    Yields (fun r => r.2.disk.size = s.disk.size ∧ ∀ k, r.1 = some k → s.freeMap.Run false k cnt)
      (freeMapAllocate s cnt) := by
  have hsmall := s.disk.small
  unfold freeMapAllocate
  rcases s.freeMap.scanAndFlip_spec (show s.freeMap.bitCnt < 2 ^ 32 by omega) cnt false (Nat.zero_le _) with
    ⟨j, b, hscan, _, hrun, _⟩ | ⟨hscan, _⟩
  · rw [hscan]
    have hsome : ∀ k, some j = some k → s.freeMap.Run false k cnt := by
      intro k hk
      cases hk
      exact hrun
    cases hfile : s.freeMapFile with
    | none => exact .ok ⟨rfl, hsome⟩
    | some file =>
      apply (bitmapWrite_size ..).bind
      intro r hr
      apply Yields.ite
      · intro _
        exact .ok ⟨hr, hsome⟩
      · intro _
        apply (Yields.trivial _).bind
        intro b' _
        exact .ok ⟨hr, fun k hk => by cases hk⟩
  · rw [hscan]
    exact .ok ⟨rfl, fun k hk => by cases hk⟩

/-- The inode that `inode_create` makes is on the device, and its bytes are zero. -/
lemma inodeCreate_zeros (hbits : s.freeMap.bitCnt = s.disk.size) (hused : s.freeMap.has n = true) {length : ℤ}
    (hlength : length < 2 ^ 31) (hrun : inodeCreate s n length = .ok (true, s')) :
    (s'.disk.header n).length = length ∧ OnDevice s'.disk (s'.disk.header n) ∧
      ∀ p : ℕ, p < length → s'.disk.content (s'.disk.header n) p = 0 := by
  unfold inodeCreate at hrun
  split at hrun
  · cases hrun
  · cases halloc : freeMapAllocate s (bytesToSectors length) with
    | error e =>
      dsimp only at hrun
      rw [halloc] at hrun
      cases hrun
    | ok r =>
      obtain ⟨o, s₁⟩ := r
      obtain ⟨hsize, hfree⟩ := (freeMapAllocate_run hbits _).of_eq_ok _ halloc
      dsimp only at hrun hsize hfree
      rw [halloc, except_ok_bind] at hrun
      cases o with
      | none => cases hrun
      | some k =>
        obtain ⟨hle, hfree⟩ := hfree k rfl
        dsimp only at hrun
        -- the sector of the inode is on the device
        by_cases hn : n < s₁.disk.size
        · rw [blockWrite_of_lt hn, except_ok_bind, writeZeros_eq (by rw [Disk.put_size]; omega)] at hrun
          cases hrun
          obtain ⟨hheader, hzeros, _, hlayout⟩ := (Layout.empty s₁.disk s.freeMap.has).create (by omega) hlength hn
            hused (fun m hm => absurd hm (Set.notMem_empty m)) (by omega) hfree fun _ => rfl
          refine ⟨?_, hlayout.onDevice (Or.inl rfl), hzeros⟩
          show (Disk.header _ n).length = length
          rw [hheader]
        · rw [blockWrite, if_neg hn] at hrun
          cases hrun

/-! ## The contract -/

/-- An inode on the device is an array of bytes: `inode_write_at` writes as much as there is room for, and changes nothing
else on the device; `inode_read_at` reads what is there; so reads return what was written last, which is zero where nothing
was written since `inode_create`. -/
theorem inode_byte_array :
    (∀ (d : Disk) (ino : Inode), OnDevice d ino.data → ino.denyWriteCnt = 0 →
      WritesArray d ino ∧ ReadsArray d ino (d.content ino.data) ∧
      ∀ rs, ∃ d', writeAll d ino rs = .ok d' ∧
        ReadsArray d' ino (lastWritten (d.content ino.data) (rs.map (Request.write ino)))) ∧
    ∀ (s s' : Fs) (n : ℕ) (length : ℤ), s.freeMap.bitCnt = s.disk.size → s.freeMap.has n = true → length < 2 ^ 31 →
      inodeCreate s n length = .ok (true, s') → (s'.disk.header n).length = length ∧
      ∀ ino : Inode, ino.data = s'.disk.header n → ino.denyWriteCnt = 0 →
        ∀ rs, ∃ d', writeAll s'.disk ino rs = .ok d' ∧
          ReadsArray d' ino (lastWritten (fun _ => 0) (rs.map (Request.write ino))) := by
  constructor
  · intro d ino hdev hdeny
    exact ⟨writesArray hdev hdeny, readsArray hdev fun _ _ => rfl, writeAll_reads hdev hdeny fun _ _ => rfl⟩
  · intro s s' n length hbits hused hlength hrun
    obtain ⟨hheader, hdev, hzeros⟩ := inodeCreate_zeros hbits hused hlength hrun
    refine ⟨hheader, fun ino hdata hdeny rs => ?_⟩
    rw [← hdata] at hdev hzeros hheader
    rw [← hheader] at hzeros
    exact writeAll_reads hdev hdeny hzeros rs

/-- An inode of 600 bytes, with its data in sectors 1 and 2. Its last byte is written, and two more that it does not have. -/
theorem inode_byte_array_end :
    OnDevice ⟨4, by decide, fun _ => 0⟩ ⟨1, 600⟩ ∧
    ∃ d', writeAll ⟨4, by decide, fun _ => 0⟩ ⟨0, 1, false, 0, ⟨1, 600⟩⟩ [⟨fun _ => 7, 3, 599⟩] = .ok d' ∧
      ReadsArray d' ⟨0, 1, false, 0, ⟨1, 600⟩⟩ (lastWritten (fun _ => 0) [⟨599, fun _ => 7, 1⟩]) := by
  have hdev : OnDevice ⟨4, by decide, fun _ => 0⟩ ⟨1, 600⟩ := by
    intro p hp
    dsimp only at hp ⊢
    omega
  exact ⟨hdev, (inode_byte_array.1 _ ⟨0, 1, false, 0, ⟨1, 600⟩⟩ hdev rfl).2.2 [⟨fun _ => 7, 3, 599⟩]⟩

end OsLabs.Filesys
