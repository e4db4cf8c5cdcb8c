import OsLabs.Lib.Memory
import OsLabs.Lib.Yields
import Mathlib.Algebra.Group.Nat.Defs
import Mathlib.Algebra.Order.Group.Int

/-!
# The device and the bytes of an inode

`block_read` and `block_write` of `devices/block.c`, and the part of `filesys/inode.c` that needs nothing but the device
and an inode: `byte_to_sector`, `inode_read_at` and `inode_write_at`.

The bytes of the device are one sequence, sector after sector. The extent of an inode is a run of sectors, so its byte
`p` is the byte `512 * start + p` of the device, and the loops over the sectors come out as one copy
(`inodeReadAt_eq`, `inodeWriteAt_eq`).

Offsets and sizes are integers. None of the sums and differences here leaves the range of `off_t` when the arguments are
in it and the offset and the length are not negative.
-/

namespace OsLabs.Filesys

open Lib

/-! ## The device -/

/-- What stops the kernel. -/
inductive Panic where
  /-- "Access past end of device", from `check_sector`. -/
  | checkSector
  /-- The assertion of `free_map_release`. -/
  | release
  /-- An assertion of `bitmap.c`. -/
  | bitmap
  /-- The assertion of `inode_create` about the length. -/
  | length
  /-- The assertions of `inode_deny_write` and `inode_allow_write`. -/
  | denyWrite
  /-- The assertion of `file_seek`. -/
  | seek
  /-- "free map creation failed" -/
  | createFreeMap
  /-- "can't write free map" -/
  | writeFreeMap
  /-- "can't read free map" -/
  | readFreeMap
  /-- "root directory creation failed" -/
  | rootDirectory
  /-- A pointer to an inode that is not there. -/
  | pointer
deriving DecidableEq

/-- The device of the file system. `ide.c` ignores disks of 1 GB and more, and a partition is smaller than its disk. -/
structure Disk where
  size : ℕ
  small : size < 2 ^ 21
  bytes : ℕ → UInt8

/-- The device with a part of its bytes overwritten. -/
def Disk.put (d : Disk) (a : ℕ) (buffer : ℕ → UInt8) (b n : ℕ) : Disk :=
  { d with bytes := copy d.bytes a buffer b n }

/-- `block_read`, to index `i` of a buffer. -/
def blockRead (d : Disk) (sector : ℕ) (buffer : ℕ → UInt8) (i : ℕ) : Except Panic (ℕ → UInt8) :=
  if sector < d.size then .ok (copy buffer i d.bytes (512 * sector) 512) else .error .checkSector

/-- `block_write`, from index `i` of a buffer. -/
def blockWrite (d : Disk) (sector : ℕ) (buffer : ℕ → UInt8) (i : ℕ) : Except Panic Disk :=
  if sector < d.size then .ok (d.put (512 * sector) buffer i 512) else .error .checkSector

/-! ## Inodes -/

/-- `struct inode_disk`, without the fields that are never read. -/
structure InodeDisk where
  start : ℕ
  length : ℤ
deriving DecidableEq

/-- `struct inode`, without its list element. -/
structure Inode where
  sector : ℕ
  openCnt : ℤ
  removed : Bool
  denyWriteCnt : ℤ
  data : InodeDisk
deriving DecidableEq

/-- `bytes_to_sectors`: the sum is one of `int`, the result is a `size_t`. -/
def bytesToSectors (size : ℤ) : ℕ :=
  ((Int.bmod (size + 511) (2 ^ 32)).tdiv 512 % 2 ^ 32).toNat

/-- `byte_to_sector`. -/
def byteToSector (ino : Inode) (pos : ℤ) : ℕ :=
  if pos < ino.data.length then ((ino.data.start + pos.tdiv 512) % 2 ^ 32).toNat else 2 ^ 32 - 1

/-- The number of bytes `inode_read_at` and `inode_write_at` copy in one round: what is left of the request, of the inode
and of the sector. -/
def chunkSize (ino : Inode) (size offset : ℤ) : ℤ :=
  let sectorOfs := offset.tmod 512
  let inodeLeft := ino.data.length - offset
  let sectorLeft := 512 - sectorOfs
  let minLeft := if inodeLeft < sectorLeft then inodeLeft else sectorLeft
  if size < minLeft then size else minLeft

/-- The copy of one round of `inode_read_at`. If there is no memory for the bounce buffer, then the loop is left. -/
def readChunk (d : Disk) (ino : Inode) (bounce : Bool) (buffer : ℕ → UInt8) (offset chunk : ℤ) (bytesRead : ℕ) :
    Except Panic (Option (ℕ → UInt8)) := do
  let sectorIdx := byteToSector ino offset
  let sectorOfs := offset.tmod 512
  if sectorOfs = 0 && chunk = 512 then
    let buffer ← blockRead d sectorIdx buffer bytesRead
    return some buffer
  else if !bounce then return none
  else
    let bounce ← blockRead d sectorIdx (fun _ => 0) 0
    return some (copy buffer bytesRead bounce sectorOfs.toNat chunk.toNat)

/-- The loop of `inode_read_at`. Each round reads a byte at least, so the size bounds the number of rounds. -/
def readLoop (d : Disk) (ino : Inode) (bounce : Bool) :
    ℕ → (ℕ → UInt8) → ℤ → ℤ → ℕ → Except Panic (ℕ × (ℕ → UInt8))
  | 0, buffer, _, _, bytesRead => return (bytesRead, buffer)
  | fuel + 1, buffer, size, offset, bytesRead => do
    let chunk := chunkSize ino size offset
    if size ≤ 0 || chunk ≤ 0 then return (bytesRead, buffer)
    else
      match ← readChunk d ino bounce buffer offset chunk bytesRead with
      | none => return (bytesRead, buffer)
      | some buffer => readLoop d ino bounce fuel buffer (size - chunk) (offset + chunk) (bytesRead + chunk.toNat)

/-- `inode_read_at`: the number of bytes read, and the buffer. `bounce` says if there is memory for the bounce buffer. -/
def inodeReadAt (d : Disk) (ino : Inode) (bounce : Bool) (buffer : ℕ → UInt8) (size offset : ℤ) :
    Except Panic (ℕ × (ℕ → UInt8)) :=
  readLoop d ino bounce size.toNat buffer size offset 0

/-- The copy of one round of `inode_write_at`. -/
def writeChunk (d : Disk) (ino : Inode) (bounce : Bool) (buffer : ℕ → UInt8) (offset chunk : ℤ) (bytesWritten : ℕ) :
    Except Panic (Option Disk) := do
  let sectorIdx := byteToSector ino offset
  let sectorOfs := offset.tmod 512
  let sectorLeft := 512 - sectorOfs
  if sectorOfs = 0 && chunk = 512 then
    let d ← blockWrite d sectorIdx buffer bytesWritten
    return some d
  else if !bounce then return none
  else
    -- a sector that is not written as a whole is read first
    let bounce ← if sectorOfs > 0 || chunk < sectorLeft then blockRead d sectorIdx (fun _ => 0) 0
      else pure fun _ => 0
    let bounce := copy bounce sectorOfs.toNat buffer bytesWritten chunk.toNat
    let d ← blockWrite d sectorIdx bounce 0
    return some d

/-- The loop of `inode_write_at`. -/
def writeLoop (ino : Inode) (bounce : Bool) (buffer : ℕ → UInt8) : ℕ → Disk → ℤ → ℤ → ℕ → Except Panic (ℕ × Disk)
  | 0, d, _, _, bytesWritten => return (bytesWritten, d)
  | fuel + 1, d, size, offset, bytesWritten => do
    let chunk := chunkSize ino size offset
    if size ≤ 0 || chunk ≤ 0 then return (bytesWritten, d)
    else
      match ← writeChunk d ino bounce buffer offset chunk bytesWritten with
      | none => return (bytesWritten, d)
      | some d => writeLoop ino bounce buffer fuel d (size - chunk) (offset + chunk) (bytesWritten + chunk.toNat)

/-- `inode_write_at`: the number of bytes written, and the device. -/
def inodeWriteAt (d : Disk) (ino : Inode) (bounce : Bool) (buffer : ℕ → UInt8) (size offset : ℤ) :
    Except Panic (ℕ × Disk) :=
  if ino.denyWriteCnt ≠ 0 then return (0, d)
  else writeLoop ino bounce buffer size.toNat d size offset 0

/-! ## One copy -/

/-- The sectors of the inode's bytes are on the device. -/
def OnDevice (d : Disk) (data : InodeDisk) : Prop :=
  ∀ p : ℕ, p < data.length → data.start + p / 512 < d.size

/-- The number of bytes that are read or written. -/
def available (ino : Inode) (size offset : ℤ) : ℕ :=
  (min size (ino.data.length - offset)).toNat

variable {d : Disk} {ino : Inode} {buffer : ℕ → UInt8}

variable {size : ℤ} {offset n : ℕ}

/-- A round that copies something stays inside of one sector, which is on the device. -/
lemma chunk_spec (hdev : OnDevice d ino.data) (hchunk : 0 < chunkSize ino size offset) :
    byteToSector ino offset = ino.data.start + offset / 512 ∧ ino.data.start + offset / 512 < d.size ∧
      (offset : ℤ).tmod 512 = (offset % 512 : ℕ) ∧
      offset % 512 + (chunkSize ino size offset).toNat ≤ 512 := by
  have hmod : (offset : ℤ).tmod 512 = (offset % 512 : ℕ) := by
    rfl
  have hdiv : (offset : ℤ).tdiv 512 = (offset / 512 : ℕ) := by
    rfl
  have hle : offset % 512 + (chunkSize ino size offset).toNat ≤ 512 := by
    simp only [chunkSize]
    split <;> split <;> omega
  have hlt : (offset : ℤ) < ino.data.length := by
    simp only [chunkSize] at hchunk
    split at hchunk <;> split at hchunk <;> omega
  have hsector := hdev offset hlt
  have hsmall := d.small
  refine ⟨?_, hsector, hmod, hle⟩
  rw [byteToSector, if_pos hlt]
  omega

@[simp] lemma Disk.put_size (d : Disk) (a : ℕ) (buffer : ℕ → UInt8) (b n : ℕ) : (d.put a buffer b n).size = d.size :=
  rfl

lemma Disk.put_of_not_mem {a b i : ℕ} (h : i < a ∨ a + n ≤ i) : (d.put a buffer b n).bytes i = d.bytes i :=
  copy_of_not_mem h

lemma Disk.put_add {a b i : ℕ} (h : i < n) : (d.put a buffer b n).bytes (a + i) = buffer (b + i) :=
  copy_add h

lemma Disk.put_zero (d : Disk) (a : ℕ) (buffer) (b : ℕ) : d.put a buffer b 0 = d := by
  simp [Disk.put]

lemma blockRead_of_lt {sector : ℕ} (h : sector < d.size) (i : ℕ) :
    blockRead d sector buffer i = .ok (copy buffer i d.bytes (512 * sector) 512) :=
  if_pos h

lemma blockWrite_of_lt {sector : ℕ} (h : sector < d.size) (i : ℕ) :
    blockWrite d sector buffer i = .ok (d.put (512 * sector) buffer i 512) :=
  if_pos h

/-- Whether a round copies a whole sector. -/
lemma whole_sector_iff {chunk : ℤ} :
    (((offset % 512 : ℕ) : ℤ) = 0 && chunk = 512) = true ↔ offset % 512 = 0 ∧ chunk = 512 := by
  rw [Bool.and_eq_true, decide_eq_true_eq, decide_eq_true_eq, Int.natCast_eq_zero]

lemma readChunk_eq (hdev : OnDevice d ino.data) (hchunk : 0 < chunkSize ino size offset) (n : ℕ) :
    readChunk d ino true buffer offset (chunkSize ino size offset) n =
      .ok (some (copy buffer n d.bytes (512 * ino.data.start + offset) (chunkSize ino size offset).toNat)) := by
  obtain ⟨hidx, hlt, hmod, hle⟩ := chunk_spec hdev hchunk
  unfold readChunk
  dsimp only
  rw [hidx, hmod, blockRead_of_lt hlt, blockRead_of_lt hlt]
  by_cases hfull : offset % 512 = 0 ∧ chunkSize ino size offset = 512
  · have hpos : 512 * (ino.data.start + offset / 512) = 512 * ino.data.start + offset := by omega
    rw [if_pos (whole_sector_iff.mpr hfull), hfull.2, hpos]
    rfl
  · have hpos : 512 * (ino.data.start + offset / 512) + offset % 512 = 512 * ino.data.start + offset := by omega
    rw [if_neg (mt whole_sector_iff.mp hfull), except_ok_bind, Int.toNat_natCast, copy_buffer hle, hpos]
    rfl

/-- A round takes its part off the request. -/
lemma available_chunk (hsize : 0 < size) (hchunk : 0 < chunkSize ino size offset) :
    ∃ c : ℕ, chunkSize ino size offset = c ∧ 0 < c ∧
      available ino size offset = c + available ino (size - c) (offset + c : ℕ) := by
  have hle : chunkSize ino size offset ≤ size ∧ chunkSize ino size offset ≤ ino.data.length - offset := by
    simp only [chunkSize]
    split <;> split <;> omega
  obtain ⟨c, hc⟩ := Int.eq_ofNat_of_zero_le (Int.le_of_lt hchunk)
  refine ⟨c, hc, by omega, ?_⟩
  simp only [available]
  omega

/-- The loops stop before the request is done only at the end of the inode. -/
lemma available_of_chunk_nonpos (h : size ≤ 0 ∨ chunkSize ino size offset ≤ 0) :
    available ino size offset = 0 := by
  have hmod : (offset : ℤ).tmod 512 = (offset % 512 : ℕ) := by
    rfl
  have hle : min size (ino.data.length - offset) ≤ 0 := by
    rcases h with h | h
    · omega
    · simp only [chunkSize] at h
      split at h <;> split at h <;> omega
  rw [available]
  omega

/-- Without the bounce buffer, a round that needs it reads nothing. -/
lemma readChunk_cases (d : Disk) (ino : Inode) (bounce : Bool) (buffer) (offset chunk : ℤ) (n : ℕ) :
    bounce ≠ true ∧ readChunk d ino bounce buffer offset chunk n = .ok none ∨
      readChunk d ino bounce buffer offset chunk n = readChunk d ino true buffer offset chunk n := by
  cases bounce with
  | true => exact Or.inr rfl
  | false =>
    unfold readChunk
    by_cases hdirect : ((offset.tmod 512 = 0 && chunk = 512) : Bool) = true
    · rw [if_pos hdirect, if_pos hdirect]
      exact Or.inr rfl
    · rw [if_neg hdirect]
      exact Or.inl ⟨Bool.false_ne_true, rfl⟩

section OnDevice

variable (hdev : OnDevice d ino.data)
include hdev

/-- Whether or not there is a bounce buffer: what is read is what the extent has at the offset. With it, all that the
inode has is read. -/
lemma readLoop_eq (bounce : Bool) (fuel : ℕ) (buffer) (size : ℤ)
    (offset n : ℕ) :
    ∃ k ≤ available ino size offset, (bounce = true → size.toNat ≤ fuel → k = available ino size offset) ∧
      readLoop d ino bounce fuel buffer size offset n =
        .ok (n + k, copy buffer n d.bytes (512 * ino.data.start + offset) k) := by
  induction fuel generalizing buffer size offset n with
  | zero =>
    refine ⟨0, Nat.zero_le _, fun _ hfuel => ?_, ?_⟩
    · exact (available_of_chunk_nonpos (Or.inl (by omega))).symm
    · rw [copy_zero]
      rfl
  | succ fuel ih =>
    rw [readLoop]
    by_cases hstop : size ≤ 0 ∨ chunkSize ino size offset ≤ 0
    · refine ⟨0, Nat.zero_le _, fun _ _ => (available_of_chunk_nonpos hstop).symm, ?_⟩
      rw [if_pos (by simpa using hstop), copy_zero]
      rfl
    · rw [if_neg (by simpa using hstop)]
      rcases readChunk_cases d ino bounce buffer offset (chunkSize ino size offset) n with ⟨hno, hnone⟩ | hsome
      · refine ⟨0, Nat.zero_le _, fun hbounce => absurd hbounce hno, ?_⟩
        rw [hnone, copy_zero]
        rfl
      · have hchunk : 0 < chunkSize ino size offset := by omega
        obtain ⟨c, hc, hpos, havail⟩ := available_chunk (by omega) hchunk
        rw [hsome, readChunk_eq hdev hchunk, except_ok_bind, hc]
        dsimp only
        obtain ⟨k, hk, hall, hrun⟩ := ih (copy buffer n d.bytes (512 * ino.data.start + offset) c) (size - c) (offset + c)
          (n + c)
        refine ⟨c + k, by omega, fun hbounce hfuel => ?_, ?_⟩
        · rw [havail, hall hbounce (by omega)]
        · rw [Int.toNat_natCast, ← Int.natCast_add, hrun, Nat.add_assoc n, ← Nat.add_assoc (512 * _), copy_append]

lemma inodeReadAt_le (bounce : Bool) (buffer) (size : ℤ) (offset : ℕ) :
    ∃ k ≤ available ino size offset, inodeReadAt d ino bounce buffer size offset =
      .ok (k, copy buffer 0 d.bytes (512 * ino.data.start + offset) k) := by
  obtain ⟨k, hk, -, hrun⟩ := readLoop_eq hdev bounce size.toNat buffer size offset 0
  rw [Nat.zero_add] at hrun
  exact ⟨k, hk, hrun⟩

/-- `inode_read_at` is one copy from the extent of the inode. -/
lemma inodeReadAt_eq (size : ℤ) (offset : ℕ) :
    inodeReadAt d ino true buffer size offset = .ok (available ino size offset,
      copy buffer 0 d.bytes (512 * ino.data.start + offset) (available ino size offset)) := by
  obtain ⟨k, -, hall, hrun⟩ := readLoop_eq hdev true size.toNat buffer size offset 0
  rw [Nat.zero_add, hall rfl (Nat.le_refl _)] at hrun
  exact hrun

lemma writeChunk_eq (hchunk : 0 < chunkSize ino size offset) (n : ℕ) :
    writeChunk d ino true buffer offset (chunkSize ino size offset) n =
      .ok (some (d.put (512 * ino.data.start + offset) buffer n (chunkSize ino size offset).toNat)) := by
  obtain ⟨hidx, hlt, hmod, hle⟩ := chunk_spec hdev hchunk
  unfold writeChunk
  dsimp only
  rw [hidx, hmod, blockWrite_of_lt hlt, blockRead_of_lt hlt]
  by_cases hfull : offset % 512 = 0 ∧ chunkSize ino size offset = 512
  · have hpos : 512 * (ino.data.start + offset / 512) = 512 * ino.data.start + offset := by omega
    rw [if_pos (whole_sector_iff.mpr hfull), hfull.2, hpos]
    rfl
  · -- a chunk that is not a whole sector leaves something of the sector, so the sector is read first
    have hpart : (decide (((offset % 512 : ℕ) : ℤ) > 0) ||
        decide (chunkSize ino size offset < 512 - ((offset % 512 : ℕ) : ℤ))) = true := by
      simp only [Bool.or_eq_true, decide_eq_true_eq]
      omega
    have hpos : 512 * (ino.data.start + offset / 512) + offset % 512 = 512 * ino.data.start + offset := by omega
    rw [if_neg (mt whole_sector_iff.mp hfull), if_neg (by simp), if_pos hpart, except_ok_bind, Int.toNat_natCast,
      blockWrite_of_lt hlt, except_ok_bind, Disk.put, copy_through hle, hpos]
    rfl

lemma writeLoop_eq {fuel : ℕ} (hfuel : size.toNat ≤ fuel) :
    writeLoop ino true buffer fuel d size offset n = .ok (n + available ino size offset,
      d.put (512 * ino.data.start + offset) buffer n (available ino size offset)) := by
  induction fuel generalizing d size offset n with
  | zero =>
    have hnone : available ino size offset = 0 := available_of_chunk_nonpos (Or.inl (by omega))
    rw [hnone, Disk.put_zero]
    rfl
  | succ fuel ih =>
    rw [writeLoop]
    by_cases hstop : size ≤ 0 ∨ chunkSize ino size offset ≤ 0
    · rw [if_pos (by simpa using hstop), available_of_chunk_nonpos hstop, Disk.put_zero]
      rfl
    · have hchunk : 0 < chunkSize ino size offset := by omega
      obtain ⟨c, hc, hpos, havail⟩ := available_chunk (by omega) hchunk
      rw [if_neg (by simpa using hstop), writeChunk_eq hdev hchunk, except_ok_bind, hc]
      dsimp only
      have hdev' : OnDevice (d.put (512 * ino.data.start + offset) buffer n c) ino.data := hdev
      rw [Int.toNat_natCast, ← Int.natCast_add, ih hdev' (by omega), havail, Nat.add_assoc n]
      simp only [Disk.put]
      rw [← Nat.add_assoc (512 * _), copy_append]

/-- `inode_write_at` is one copy to the extent of the inode, unless writes are denied. -/
lemma inodeWriteAt_eq (hdeny : ino.denyWriteCnt = 0) (size : ℤ) (offset : ℕ) :
    inodeWriteAt d ino true buffer size offset = .ok (available ino size offset,
      d.put (512 * ino.data.start + offset) buffer 0 (available ino size offset)) := by
  rw [inodeWriteAt, if_neg (not_not.mpr hdeny), writeLoop_eq hdev (Nat.le_refl _), Nat.zero_add]

end OnDevice

lemma inodeWriteAt_denied (hdeny : ino.denyWriteCnt ≠ 0) (size offset : ℤ) :
    inodeWriteAt d ino true buffer size offset = .ok (0, d) :=
  if_pos hdeny

end OsLabs.Filesys
