import OsLabs.Filesys.FreeMap

/-!
# Inodes and open files

The rest of `filesys/inode.c`, and `filesys/file.c`. A `struct file` belongs to the handle it was opened for, so the
functions on files take it and return it as a value.
-/

namespace OsLabs.Filesys

open Lib LibKernel

/-! ## The inode on disk -/

/-- `INODE_MAGIC`. -/
def inodeMagic : ℕ :=
  0x494e4f44

/-- The bytes of a `struct inode_disk`. -/
def InodeDisk.bytes (data : InodeDisk) : ℕ → UInt8 :=
  let m := copy (fun _ => 0) 0 (leBytes data.start) 0 4
  let m := copy m 4 (leBytes (data.length % 2 ^ 32).toNat) 0 4
  copy m 8 (leBytes inodeMagic) 0 4

/-- The `struct inode_disk` in a buffer; its length is signed. -/
def InodeDisk.ofBytes (m : ℕ → UInt8) : InodeDisk where
  start := le32 m 0
  length := Int.bmod (le32 m 4) (2 ^ 32)

/-- The loop of `inode_create` that writes zeros, after `n` rounds. -/
def writeZeros (d : Disk) (start : ℕ) : ℕ → Except Panic Disk
  | 0 => return d
  | n + 1 => do
    let d ← writeZeros d start n
    blockWrite d (start + n) (fun _ => 0) 0

/-- `inode_create`. -/
def inodeCreate (s : Fs) (sector : ℕ) (length : ℤ) : Except Panic (Bool × Fs) := do
  if length < 0 then .error .length
  else
    let sectors := bytesToSectors length
    match ← freeMapAllocate s sectors with
    | (none, s) => return (false, s)
    | (some start, s) =>
      let d ← blockWrite s.disk sector (InodeDisk.bytes ⟨start, length⟩) 0
      let d ← writeZeros d start sectors
      return (true, { s with disk := d })

/-! ## Open inodes -/

/-- `inode_reopen`. -/
def inodeReopen (s : Fs) (a : ℕ) : Except Panic Fs := do
  let ino ← s.deref a
  return s.setInode a { ino with openCnt := ino.openCnt + 1 }

/-- `inode_open`: the first open inode of the sector, or a new one. -/
def inodeOpen (s : Fs) (sector : ℕ) : Except Panic (ℕ × Fs) := do
  match s.openInodes.find? fun a => (s.inodes a).any fun ino => ino.sector = sector with
  | some a =>
    let s ← inodeReopen s a
    return (a, s)
  | none =>
    let a := s.nextInode
    let data ← blockRead s.disk sector (fun _ => 0) 0
    let s := s.setInode a ⟨sector, 1, false, 0, .ofBytes data⟩
    return (a, { s with openInodes := a :: s.openInodes, nextInode := a + 1 })

/-- `inode_close`. -/
def inodeClose (s : Fs) (a : ℕ) : Except Panic Fs := do
  let ino ← s.deref a
  let ino := { ino with openCnt := ino.openCnt - 1 }
  let s := s.setInode a ino
  if ino.openCnt = 0 then
    let s := { s with openInodes := s.openInodes.erase a }
    let s ← if ino.removed then do
        let s ← freeMapRelease s ino.sector 1
        freeMapRelease s ino.data.start (bytesToSectors ino.data.length)
      else pure s
    return { s with inodes := Function.update s.inodes a none }
  else return s

/-- `inode_remove`. -/
def inodeRemove (s : Fs) (a : ℕ) : Except Panic Fs := do
  let ino ← s.deref a
  return s.setInode a { ino with removed := true }

/-- `inode_deny_write`. -/
def inodeDenyWrite (s : Fs) (a : ℕ) : Except Panic Fs := do
  let ino ← s.deref a
  if ino.denyWriteCnt + 1 ≤ ino.openCnt then return s.setInode a { ino with denyWriteCnt := ino.denyWriteCnt + 1 }
  else .error .denyWrite

/-- `inode_allow_write`. -/
def inodeAllowWrite (s : Fs) (a : ℕ) : Except Panic Fs := do
  let ino ← s.deref a
  if ino.denyWriteCnt > 0 ∧ ino.denyWriteCnt ≤ ino.openCnt then
    return s.setInode a { ino with denyWriteCnt := ino.denyWriteCnt - 1 }
  else .error .denyWrite

/-! ## Files -/

/-- `file_open`. -/
def fileOpen (a : ℕ) : File :=
  ⟨a, 0, false⟩

/-- `file_reopen`. -/
def fileReopen (s : Fs) (file : File) : Except Panic (File × Fs) := do
  let s ← inodeReopen s file.inode
  return (fileOpen file.inode, s)

/-- `file_deny_write`. -/
def fileDenyWrite (s : Fs) (file : File) : Except Panic (File × Fs) := do
  if file.denyWrite then return (file, s)
  else
    let s ← inodeDenyWrite s file.inode
    return ({ file with denyWrite := true }, s)

/-- `file_allow_write`. -/
def fileAllowWrite (s : Fs) (file : File) : Except Panic (File × Fs) := do
  if file.denyWrite then
    let s ← inodeAllowWrite s file.inode
    return ({ file with denyWrite := false }, s)
  else return (file, s)

/-- `file_close`. -/
def fileClose (s : Fs) (file : File) : Except Panic Fs := do
  let (file, s) ← fileAllowWrite s file
  inodeClose s file.inode

/-- `file_read`. -/
def fileRead (s : Fs) (file : File) (buffer : ℕ → UInt8) (size : ℤ) : Except Panic (ℕ × (ℕ → UInt8) × File) := do
  let (n, buffer) ← fileReadAt s file buffer size file.pos
  return (n, buffer, { file with pos := file.pos + n })

/-- `file_write`. -/
def fileWrite (s : Fs) (file : File) (buffer : ℕ → UInt8) (size : ℤ) : Except Panic (ℕ × File × Fs) := do
  let (n, s) ← fileWriteAt s file buffer size file.pos
  return (n, { file with pos := file.pos + n }, s)

/-- `file_seek`. -/
def fileSeek (file : File) (newPos : ℤ) : Except Panic File :=
  if newPos ≥ 0 then .ok { file with pos := newPos } else .error .seek

/-- `file_length`. -/
def fileLength (s : Fs) (file : File) : Except Panic ℤ := do
  let ino ← s.deref file.inode
  return ino.data.length

end OsLabs.Filesys
