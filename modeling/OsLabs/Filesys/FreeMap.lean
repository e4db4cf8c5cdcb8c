import OsLabs.Filesys.Disk
import OsLabs.LibKernel.Bitmap

/-!
# The state of the file system and the free map

`filesys/free-map.c`, with the functions of `bitmap.c` and `file.c` that write the free map to its file and read it back.

The state has the device and the static variables of the file system. A pointer to an inode is an address, of which
`inodes` tells what is there; `open_inodes` is the list of the addresses. Addresses are handed out once. Memory
allocation succeeds, except where a function takes the outcome as an argument.
-/

namespace OsLabs.Filesys

open Lib LibKernel Function

/-- `struct file`. -/
structure File where
  inode : ℕ
  pos : ℤ
  denyWrite : Bool
deriving DecidableEq

/-- The file system. -/
structure Fs where
  disk : Disk
  freeMap : Bitmap
  freeMapFile : Option File
  openInodes : List ℕ
  inodes : ℕ → Option Inode
  nextInode : ℕ

namespace Fs

/-- Follow a pointer to an inode. -/
def deref (s : Fs) (a : ℕ) : Except Panic Inode :=
  match s.inodes a with
  | some ino => .ok ino
  | none => .error .pointer

/-- Store an inode. -/
def setInode (s : Fs) (a : ℕ) (ino : Inode) : Fs :=
  { s with inodes := update s.inodes a (some ino) }

@[simp] lemma setInode_self (s : Fs) (a : ℕ) (ino : Inode) : (s.setInode a ino).inodes a = some ino :=
  update_self ..

lemma setInode_of_ne (s : Fs) {a b : ℕ} (ino : Inode) (h : b ≠ a) : (s.setInode a ino).inodes b = s.inodes b :=
  update_of_ne h ..

/-- `inode_read_at`, through a pointer. -/
def readAt (s : Fs) (a : ℕ) (bounce : Bool) (buffer : ℕ → UInt8) (size offset : ℤ) :
    Except Panic (ℕ × (ℕ → UInt8)) := do
  let ino ← s.deref a
  inodeReadAt s.disk ino bounce buffer size offset

/-- `inode_write_at`, through a pointer. -/
def writeAt (s : Fs) (a : ℕ) (bounce : Bool) (buffer : ℕ → UInt8) (size offset : ℤ) : Except Panic (ℕ × Fs) := do
  let ino ← s.deref a
  let (n, d) ← inodeWriteAt s.disk ino bounce buffer size offset
  return (n, { s with disk := d })

end Fs

/-- `file_read_at`. -/
def fileReadAt (s : Fs) (file : File) (buffer : ℕ → UInt8) (size ofs : ℤ) : Except Panic (ℕ × (ℕ → UInt8)) :=
  s.readAt file.inode true buffer size ofs

/-- `file_write_at`. -/
def fileWriteAt (s : Fs) (file : File) (buffer : ℕ → UInt8) (size ofs : ℤ) : Except Panic (ℕ × Fs) :=
  s.writeAt file.inode true buffer size ofs

/-- An assertion of the bitmap. -/
def bitmapAssert {α : Type} : Option α → Except Panic α
  | some a => .ok a
  | none => .error .bitmap

/-- `bitmap_write`, for the free map. -/
def bitmapWrite (s : Fs) (file : File) : Except Panic (Bool × Fs) := do
  let size := byteCnt s.freeMap.bitCnt
  let (n, s) ← fileWriteAt s file s.freeMap.bytes size 0
  return (n = size, s)

/-- `bitmap_read`, for the free map. -/
def bitmapRead (s : Fs) (file : File) : Except Panic (Bool × Fs) := do
  if s.freeMap.bitCnt > 0 then
    let size := byteCnt s.freeMap.bitCnt
    let (n, buffer) ← fileReadAt s file s.freeMap.bytes size 0
    let bits := Bitmap.wordsOf buffer
    let last := elemCnt s.freeMap.bitCnt - 1
    let bits := update bits last (bits last &&& s.freeMap.lastMask)
    return (n = size, { s with freeMap := { s.freeMap with bits } })
  else return (true, s)

/-- `free_map_init`, after `bitmap_create`. -/
def freeMapInit (s : Fs) (junk : ℕ → BitVec 32) : Except Panic Fs := do
  let b ← bitmapAssert (Bitmap.create s.disk.size junk)
  return { s with freeMap := (b.mark 0).mark 1 }

/-- `free_map_allocate`: the first sector, if there are `cnt` free sectors one after the other. -/
def freeMapAllocate (s : Fs) (cnt : ℕ) : Except Panic (Option ℕ × Fs) := do
  let (sector, b) ← bitmapAssert (s.freeMap.scanAndFlip 0 cnt false)
  let s := { s with freeMap := b }
  match sector, s.freeMapFile with
  | some sector, some file =>
    let (written, s) ← bitmapWrite s file
    if written then return (some sector, s)
    else
      let b ← bitmapAssert (s.freeMap.setMultiple sector cnt false)
      return (none, { s with freeMap := b })
  | sector, _ => return (sector, s)

/-- `free_map_release`. The file is written through its pointer. -/
def freeMapRelease (s : Fs) (sector cnt : ℕ) : Except Panic Fs := do
  if ← bitmapAssert (s.freeMap.all sector cnt) then
    let b ← bitmapAssert (s.freeMap.setMultiple sector cnt false)
    let s := { s with freeMap := b }
    match s.freeMapFile with
    | none => .error .pointer
    | some file =>
      let (_, s) ← bitmapWrite s file
      return s
  else .error .release

end OsLabs.Filesys
