import OsLabs.Filesys.Inode
import OsLabs.Lib.CString

/-!
# The root directory, and the functions of the file system

`filesys/directory.c` and `filesys/filesys.c`. A `struct dir_entry` takes 20 bytes: the sector, the name with its
terminator and the flag. The functions that read entries take the outcomes of the allocations of bounce buffers, one
for each entry.
-/

namespace OsLabs.Filesys

open Lib LibKernel Function

/-! ## Entries -/

/-- The field `inode_sector` of an entry. -/
def entrySector (e : ℕ → UInt8) : ℕ :=
  le32 e 0

/-- The field `in_use` of an entry. -/
def entryInUse (e : ℕ → UInt8) : Bool :=
  e 19 ≠ 0

/-- `!strcmp (name, e.name)`: the string at index `i` of the entry is `name`. -/
def sameString (e : ℕ → UInt8) : ℕ → List UInt8 → Bool
  | i, [] => e i = 0
  | i, c :: w => e i = c && sameString e (i + 1) w

/-- `strlcpy`: at most `size - 1` characters, and a terminator. -/
def strlcpy (m : ℕ → UInt8) (i : ℕ) (src : List UInt8) (size : ℕ) : ℕ → UInt8 :=
  putString m i (src.take (size - 1))

/-- The entry that `dir_add` writes, over the bytes of a free one. -/
def newEntry (e : ℕ → UInt8) (name : CStr) (inodeSector : ℕ) : ℕ → UInt8 :=
  let e := update e 19 1
  let e := strlcpy e 4 name.chars 15
  copy e 0 (leBytes inodeSector) 0 4

/-! ## Directories -/

/-- `struct dir`. -/
structure Dir where
  inode : ℕ
  pos : ℤ

/-- `dir_open_root`. -/
def dirOpenRoot (s : Fs) : Except Panic (Dir × Fs) := do
  let (a, s) ← inodeOpen s 1
  return (⟨a, 0⟩, s)

/-- `dir_close`. -/
def dirClose (s : Fs) (dir : Dir) : Except Panic Fs :=
  inodeClose s dir.inode

/-- `dir_create`. -/
def dirCreate (s : Fs) (sector entryCnt : ℕ) : Except Panic (Bool × Fs) :=
  inodeCreate s sector (entryCnt * 20)

/-- The loop of `lookup`, from entry `i` on: the entry of the name, and its offset. -/
def lookupLoop (s : Fs) (dir : Dir) (bounce : ℕ → Bool) (name : CStr) :
    ℕ → ℕ → (ℕ → UInt8) → Except Panic (Option ((ℕ → UInt8) × ℕ))
  | 0, _, _ => return none
  | fuel + 1, i, e => do
    let (n, e) ← s.readAt dir.inode (bounce i) e 20 (20 * i : ℕ)
    if n = 20 then
      if entryInUse e && sameString e 4 name.chars then return some (e, 20 * i)
      else lookupLoop s dir bounce name fuel (i + 1) e
    else return none

/-- The number of rounds of the loops over a directory: each reads 20 bytes, and the last one less. -/
def entryRounds (s : Fs) (dir : Dir) : Except Panic ℕ := do
  let ino ← s.deref dir.inode
  return ino.data.length.toNat / 20 + 1

/-- `lookup`. -/
def lookup (s : Fs) (dir : Dir) (bounce : ℕ → Bool) (name : CStr) :
    Except Panic (Option ((ℕ → UInt8) × ℕ)) := do
  let fuel ← entryRounds s dir
  lookupLoop s dir bounce name fuel 0 fun _ => 0

/-- `dir_lookup`. -/
def dirLookup (s : Fs) (dir : Dir) (bounce : ℕ → Bool) (name : CStr) : Except Panic (Option ℕ × Fs) := do
  match ← lookup s dir bounce name with
  | some (e, _) =>
    let (a, s) ← inodeOpen s (entrySector e)
    return (some a, s)
  | none => return (none, s)

/-- The loop of `dir_add` that looks for a free entry, from entry `i` on: the offset, and what was read last. -/
def freeSlotLoop (s : Fs) (dir : Dir) (bounce : ℕ → Bool) :
    ℕ → ℕ → (ℕ → UInt8) → Except Panic (ℕ × (ℕ → UInt8))
  | 0, i, e => return (20 * i, e)
  | fuel + 1, i, e => do
    let (n, e) ← s.readAt dir.inode (bounce i) e 20 (20 * i : ℕ)
    if n = 20 && entryInUse e then freeSlotLoop s dir bounce fuel (i + 1) e
    else return (20 * i, e)

/-- The outcomes of the allocations of bounce buffers in a call of `dir_add`: in the loop of `lookup`, in the loop that
looks for a free entry, and for the write. -/
structure Bounces where
  lookup : ℕ → Bool
  scan : ℕ → Bool
  write : Bool

/-- All of them succeed. -/
def Bounces.all : Bounces :=
  ⟨fun _ => true, fun _ => true, true⟩

/-- `dir_add`. -/
def dirAdd (s : Fs) (dir : Dir) (bounces : Bounces) (name : CStr) (inodeSector : ℕ) : Except Panic (Bool × Fs) := do
  if name.chars = [] ∨ name.chars.length > 14 then return (false, s)
  else
    match ← lookup s dir bounces.lookup name with
    | some _ => return (false, s)
    | none =>
      let fuel ← entryRounds s dir
      let (ofs, e) ← freeSlotLoop s dir bounces.scan fuel 0 fun _ => 0
      let (n, s) ← s.writeAt dir.inode bounces.write (newEntry e name inodeSector) 20 ofs
      return (n = 20, s)

/-- `dir_remove`. -/
def dirRemove (s : Fs) (dir : Dir) (bounces : Bounces) (name : CStr) : Except Panic (Bool × Fs) := do
  match ← lookup s dir bounces.lookup name with
  | none => return (false, s)
  | some (e, ofs) =>
    let (a, s) ← inodeOpen s (entrySector e)
    let (n, s) ← s.writeAt dir.inode bounces.write (update e 19 0) 20 ofs
    if n ≠ 20 then
      let s ← inodeClose s a
      return (false, s)
    else
      let s ← inodeRemove s a
      let s ← inodeClose s a
      return (true, s)

/-- The loop of `dir_readdir`, from the position of the directory on. -/
def readdirLoop (s : Fs) (bounce : ℕ → Bool) : ℕ → Dir → (ℕ → UInt8) → Except Panic (Option (List UInt8) × Dir)
  | 0, dir, _ => return (none, dir)
  | fuel + 1, dir, e => do
    let (n, e) ← s.readAt dir.inode (bounce (dir.pos / 20).toNat) e 20 dir.pos
    if n = 20 then
      let dir := { dir with pos := dir.pos + 20 }
      -- the buffer of the caller has room for `NAME_MAX` characters
      if entryInUse e then return (some ((readString e 15 4).take 14), dir)
      else readdirLoop s bounce fuel dir e
    else return (none, dir)

/-- `dir_readdir`: the name of the next entry in use. -/
def dirReaddir (s : Fs) (dir : Dir) (bounce : ℕ → Bool) : Except Panic (Option (List UInt8) × Dir) := do
  let fuel ← entryRounds s dir
  readdirLoop s bounce fuel dir fun _ => 0

/-! ## The file system -/

/-- `filesys_create`. -/
def filesysCreate (s : Fs) (name : CStr) (initialSize : ℤ) : Except Panic (Bool × Fs) := do
  let (dir, s) ← dirOpenRoot s
  match ← freeMapAllocate s 1 with
  | (none, s) =>
    let s ← dirClose s dir
    return (false, s)
  | (some inodeSector, s) =>
    let (created, s) ← inodeCreate s inodeSector initialSize
    let (success, s) ← if created then dirAdd s dir .all name inodeSector else pure (false, s)
    let s ← if !success && inodeSector ≠ 0 then freeMapRelease s inodeSector 1 else pure s
    let s ← dirClose s dir
    return (success, s)

/-- `filesys_open`. -/
def filesysOpen (s : Fs) (name : CStr) : Except Panic (Option File × Fs) := do
  let (dir, s) ← dirOpenRoot s
  let (a, s) ← dirLookup s dir (fun _ => true) name
  let s ← dirClose s dir
  return (a.map fileOpen, s)

/-- `filesys_remove`. -/
def filesysRemove (s : Fs) (name : CStr) : Except Panic (Bool × Fs) := do
  let (dir, s) ← dirOpenRoot s
  let (success, s) ← dirRemove s dir .all name
  let s ← dirClose s dir
  return (success, s)

/-- `free_map_create`. -/
def freeMapCreate (s : Fs) : Except Panic Fs := do
  let (created, s) ← inodeCreate s 0 s.freeMap.fileSize
  if !created then .error .createFreeMap
  else
    let (a, s) ← inodeOpen s 0
    let s := { s with freeMapFile := some (fileOpen a) }
    let (written, s) ← bitmapWrite s (fileOpen a)
    if written then return s else .error .writeFreeMap

/-- `free_map_close`. The pointer to the file stays. -/
def freeMapClose (s : Fs) : Except Panic Fs :=
  match s.freeMapFile with
  | some file => fileClose s file
  | none => return s

/-- `free_map_open`. -/
def freeMapOpen (s : Fs) : Except Panic Fs := do
  let (a, s) ← inodeOpen s 0
  let s := { s with freeMapFile := some (fileOpen a) }
  let (read, s) ← bitmapRead s (fileOpen a)
  if read then return s else .error .readFreeMap

/-- `do_format`. -/
def doFormat (s : Fs) : Except Panic Fs := do
  let s ← freeMapCreate s
  let (created, s) ← dirCreate s 1 16
  if !created then .error .rootDirectory
  else freeMapClose s

/-- `filesys_init`, on the device of the state. -/
def filesysInit (s : Fs) (junk : ℕ → BitVec 32) (format : Bool) : Except Panic Fs := do
  let s := { s with openInodes := [] }
  let s ← freeMapInit s junk
  let s ← if format then doFormat s else pure s
  freeMapOpen s

/-- `filesys_done`. -/
def filesysDone (s : Fs) : Except Panic Fs :=
  freeMapClose s

/-- The static variables when the kernel starts. -/
def Fs.boot (disk : Disk) : Fs where
  disk
  freeMap := ⟨0, fun _ => 0⟩
  freeMapFile := none
  openInodes := []
  inodes _ := none
  nextInode := 0

end OsLabs.Filesys
