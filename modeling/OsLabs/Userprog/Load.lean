import OsLabs.Userprog.ExecFile

/-!
# Loading executables

`load`, `start_process` and `process_exit` of `userprog/process.c`. What `load` prints is left out, and so are the registers
of the processor: which page directory is active, and the frame for the return to user mode.
-/

namespace OsLabs.Userprog

open Lib Threads Filesys

/-! ## Headers -/

/-- The number of 16 bits at address `i`. -/
def le16 (m : ℕ → UInt8) (i : ℕ) : ℕ :=
  (m i).toNat + 256 * (m (i + 1)).toNat

/-- `struct Elf32_Ehdr`, as far as it is read. -/
structure Ehdr where
  eIdent : List UInt8
  eType : ℕ
  eMachine : ℕ
  eVersion : ℕ
  eEntry : ℕ
  ePhoff : ℕ
  ePhentsize : ℕ
  ePhnum : ℕ

def readEhdr (m : ℕ → UInt8) : Ehdr where
  eIdent := (List.range 7).map m
  eType := le16 m 16
  eMachine := le16 m 18
  eVersion := le32 m 20
  eEntry := le32 m 24
  ePhoff := le32 m 28
  ePhentsize := le16 m 42
  ePhnum := le16 m 44

/-- The checks of `load`. -/
def Ehdr.Valid (h : Ehdr) : Prop :=
  h.eIdent = [0x7f, 0x45, 0x4c, 0x46, 1, 1, 1] ∧ h.eType = 2 ∧ h.eMachine = 3 ∧ h.eVersion = 1 ∧ h.ePhentsize = 32 ∧
    h.ePhnum ≤ 1024

instance (h : Ehdr) : Decidable h.Valid := inferInstanceAs (Decidable (_ ∧ _ ∧ _ ∧ _ ∧ _ ∧ _))

/-- `struct Elf32_Phdr`, as far as it is read. -/
structure Phdr where
  pType : ℕ
  pOffset : ℕ
  pVaddr : ℕ
  pFilesz : ℕ
  pMemsz : ℕ
  pFlags : ℕ

def readPhdr (m : ℕ → UInt8) : Phdr where
  pType := le32 m 0
  pOffset := le32 m 4
  pVaddr := le32 m 8
  pFilesz := le32 m 16
  pMemsz := le32 m 20
  pFlags := le32 m 24

/-- `(phdr.p_flags & PF_W) != 0`. -/
def Phdr.writable (p : Phdr) : Bool :=
  p.pFlags &&& 2 ≠ 0

/-- `validate_segment`, for a file of the given length. -/
def validateSegment (p : Phdr) (fileLength : ℤ) : Bool :=
  if p.pOffset % 4096 ≠ p.pVaddr % 4096 then false
  else if p.pOffset > (fileLength % 2 ^ 32).toNat then false
  else if p.pMemsz < p.pFilesz then false
  else if p.pMemsz = 0 then false
  else if ¬p.pVaddr < physBase then false
  else if ¬(p.pVaddr + p.pMemsz) % 2 ^ 32 < physBase then false
  else if (p.pVaddr + p.pMemsz) % 2 ^ 32 < p.pVaddr then false
  else if p.pVaddr < 4096 then false
  else true

/-- `ROUND_UP (x, PGSIZE)`. -/
def roundUp (x : ℕ) : ℕ :=
  (x + 4095) % 2 ^ 32 / 4096 * 4096

/-- `read_bytes` of `load`. -/
def Phdr.readBytes (p : Phdr) : ℕ :=
  if p.pFilesz > 0 then (p.pVaddr % 4096 + p.pFilesz) % 2 ^ 32 else 0

/-- `zero_bytes` of `load`. -/
def Phdr.zeroBytes (p : Phdr) : ℕ :=
  let size := roundUp ((p.pVaddr % 4096 + p.pMemsz) % 2 ^ 32)
  if p.pFilesz > 0 then sub32 size p.readBytes else size

/-! ## The code -/

section Code

variable (R : Ram) (env : ℕ → Option ℕ)

namespace Proc

/-- `install_page`. -/
def installPage (k : Proc) (upage kpage : ℕ) (writable : Bool) : KernelM (Bool × Proc) :=
  match k.pagedir with
  | none => .error .pagedir
  | some pd => do
    match ← pagedirGetPage R env k.mem pd upage with
    | some _ => return (false, k)
    | none =>
      let (success, mem) ← pagedirSetPage R env k.mem pd upage kpage writable
      return (success, { k with mem })

/-- A page that has not been installed is given back. -/
def freePage (k : Proc) (kpage : ℕ) : KernelM Proc := do
  let mem ← k.mem.pallocFreePage R kpage
  return { k with mem }

/-- `setup_stack`: the stack pointer. -/
def setupStack (k : Proc) : KernelM (Option ℕ × Proc) :=
  match k.mem.pallocGetPage R env .user true with
  | (none, mem) => .ok (none, { k with mem })
  | (some kpage, mem) => do
    let (success, k) ← installPage R env { k with mem } (physBase - 4096) kpage true
    if success then return (some physBase, k)
    else
      let k ← freePage R k kpage
      return (none, k)

/-- One round of the loop of `load_segment`. -/
def loadPage (k : Proc) (file : File) (upage pageReadBytes : ℕ) (writable : Bool) : KernelM (Bool × File × Proc) :=
  let pageZeroBytes := 4096 - pageReadBytes
  match k.mem.pallocGetPage R env .user false with
  | (none, mem) => .ok (false, file, { k with mem })
  | (some kpage, mem) => do
    let k := { k with mem }
    let (n, page, file, k) ← fileRead R env k file (k.mem.bytes kpage) pageReadBytes
    let k := { k with mem := k.mem.setPage kpage page }
    if n ≠ pageReadBytes then
      let k ← freePage R k kpage
      return (false, file, k)
    else
      let k := { k with mem := k.mem.setPage kpage (copy page pageReadBytes (fun _ => 0) 0 pageZeroBytes) }
      let (success, k) ← installPage R env k upage kpage writable
      if success then return (true, file, k)
      else
        let k ← freePage R k kpage
        return (false, file, k)

/-- The loop of `load_segment`. -/
def loadPages (writable : Bool) : ℕ → Proc → File → ℕ → ℕ → ℕ → KernelM (Bool × File × Proc)
  | 0, _, _, _, _, _ => .error .loop
  | fuel + 1, k, file, upage, readBytes, zeroBytes => do
    if readBytes > 0 ∨ zeroBytes > 0 then
      let pageReadBytes := if readBytes < 4096 then readBytes else 4096
      let (success, file, k) ← loadPage R env k file upage pageReadBytes writable
      if success then
        loadPages writable fuel k file ((upage + 4096) % 2 ^ 32) (sub32 readBytes pageReadBytes)
          (sub32 zeroBytes (4096 - pageReadBytes))
      else return (false, file, k)
    else return (true, file, k)

/-- `load_segment`. Each round is for one page. -/
def loadSegment (k : Proc) (file : File) (ofs : ℤ) (upage readBytes zeroBytes : ℕ) (writable : Bool) :
    KernelM (Bool × File × Proc) :=
  if (readBytes + zeroBytes) % 2 ^ 32 % 4096 ≠ 0 ∨ upage % 4096 ≠ 0 ∨ ofs.tmod 4096 ≠ 0 then .error .segment
  else do
    let file ← fsCall (fileSeek file ofs)
    loadPages R env writable ((readBytes + zeroBytes) / 4096 + 1) k file upage readBytes zeroBytes

/-- The case of `PT_LOAD`. -/
def loadHeader (k : Proc) (file : File) (phdr : Phdr) (length : ℤ) : KernelM (Bool × File × Proc) :=
  if validateSegment phdr length then
    loadSegment R env k file (Int.bmod (phdr.pOffset / 4096 * 4096 : ℕ) (2 ^ 32)) (phdr.pVaddr / 4096 * 4096)
      phdr.readBytes phdr.zeroBytes phdr.writable
  else .ok (false, file, k)

/-- The loop over the program headers, with the number of those that are left. -/
def loadHeaders : ℕ → ℤ → File → Proc → KernelM (Bool × File × Proc)
  | 0, _, file, k => return (true, file, k)
  | cnt + 1, fileOfs, file, k => do
    let length ← fsCall (fileLength k.fs file)
    if fileOfs < 0 ∨ fileOfs > length then return (false, file, k)
    else
      let file ← fsCall (fileSeek file fileOfs)
      let (n, buffer, file, k) ← fileRead R env k file (fun _ => 0) 32
      if n ≠ 32 then return (false, file, k)
      else
        let fileOfs := Int.bmod (fileOfs + 32) (2 ^ 32)
        let phdr := readPhdr buffer
        -- `PT_DYNAMIC`, `PT_INTERP` and `PT_SHLIB`
        if phdr.pType = 2 ∨ phdr.pType = 3 ∨ phdr.pType = 5 then return (false, file, k)
        else if phdr.pType = 1 then
          let (success, file, k) ← loadHeader R env k file phdr length
          if success then loadHeaders cnt fileOfs file k else return (false, file, k)
        else loadHeaders cnt fileOfs file k

/-- `load` from the executable header on, with the file open: the entry point and the stack pointer. -/
def loadFile (k : Proc) (file : File) : KernelM (Option (ℕ × ℕ) × File × Proc) := do
  let (n, buffer, file, k) ← fileRead R env k file (fun _ => 0) 52
  let ehdr := readEhdr buffer
  if n ≠ 52 ∨ ¬ehdr.Valid then return (none, file, k)
  else
    let (success, file, k) ← loadHeaders R env ehdr.ePhnum (Int.bmod ehdr.ePhoff (2 ^ 32)) file k
    if success then
      let (esp, k) ← setupStack R env k
      return (esp.map fun esp => (ehdr.eEntry, esp), file, k)
    else return (none, file, k)

/-- `load`: the entry point and the stack pointer, if it returns true. -/
def load (k : Proc) (fileName : CStr) : KernelM (Option (ℕ × ℕ) × Proc) :=
  match pagedirCreate R env k.mem with
  | (none, mem) => .ok (none, { k with mem, pagedir := none })
  | (some pd, mem) => do
    match ← filesysOpen R env { k with mem, pagedir := some pd } fileName with
    | (none, k) => return (none, k)
    | (some (file, b), k) =>
      let (result, file, k) ← loadFile R env k file
      let k ← fileClose R k file b
      return (result, k)

/-- `process_exit`. -/
def processExit (k : Proc) : KernelM Proc :=
  match k.pagedir with
  | none => .ok k
  | some pd => do
    let mem ← pagedirDestroy R k.mem (some pd)
    return { k with mem, pagedir := none }

/-- `start_process`, up to the return to user mode. The page has the name of the file. -/
def startProcess (k : Proc) (page : ℕ) (fileName : CStr) : KernelM (Option (ℕ × ℕ) × Proc) := do
  let (result, k) ← load R env k fileName
  let k ← freePage R k page
  if result = none then
    let k ← processExit R k
    return (none, k)
  else return (result, k)

end Proc

end Code

end OsLabs.Userprog
