import OsLabs.Filesys.Files
import OsLabs.Userprog.AddressSpace

/-!
# The executable

`filesys_open`, `file_read` and `file_close` as `load` uses them, with the memory that they need: an inode that is not open
yet, a directory, a file and a bounce buffer are blocks of `malloc`, and each of these calls can fail. What an inode holds is
in the state of the file system; `inodeBlock` has the address of its block.

`filesysOpen_spec` says that a call that fails leaves no block behind and no inode open, `fileClose_spec` that closing the
file undoes the opening, and `fileRead_spec` that what is read is what is in the file.
-/

namespace OsLabs.Userprog

open Lib Threads Filesys Function

/-- What `load` works on. `pagedir` is that of the thread. -/
structure Proc where
  mem : Memory
  fs : Fs
  inodeBlock : ℕ → ℕ
  pagedir : Option ℕ

/-! ## The model -/

section Code

variable (R : Ram) (env : ℕ → Option ℕ)

/-- What the file system does. -/
def fsCall {α : Type} : Except Panic α → KernelM α
  | .ok a => .ok a
  | .error p => .error (.fs p)

/-- An inode of the sector is open. -/
def sectorOpen (s : Fs) (sector : ℕ) : Bool :=
  s.openInodes.any fun a => (s.inodes a).any fun ino => ino.sector = sector

/-- A round of `inode_read_at` needs the bounce buffer. -/
def usesBounce (ino : Inode) : ℕ → ℤ → ℤ → Bool
  | 0, _, _ => false
  | fuel + 1, size, offset =>
    let chunk := chunkSize ino size offset
    if size ≤ 0 || chunk ≤ 0 then false
    else if offset.tmod 512 = 0 && chunk = 512 then usesBounce ino fuel (size - chunk) (offset + chunk)
    else true

namespace Proc

/-- `inode_open`. -/
def inodeOpen (k : Proc) (sector : ℕ) : KernelM (Option ℕ × Proc) := do
  if sectorOpen k.fs sector then
    let (a, fs) ← fsCall (Filesys.inodeOpen k.fs sector)
    return (some a, { k with fs })
  else
    let (b, mem) ← k.mem.malloc R env 536
    if b = 0 then return (none, { k with mem })
    else
      let (a, fs) ← fsCall (Filesys.inodeOpen k.fs sector)
      return (some a, { k with mem, fs, inodeBlock := update k.inodeBlock a b })

/-- `inode_close`. -/
def inodeClose (k : Proc) : Option ℕ → KernelM Proc
  | none => return k
  | some a => do
    let ino ← fsCall (k.fs.deref a)
    let fs ← fsCall (Filesys.inodeClose k.fs a)
    if ino.openCnt - 1 = 0 then
      let mem ← k.mem.free R (k.inodeBlock a)
      return { k with mem, fs }
    else return { k with fs }

/-- `dir_open` and `file_open`: the inode, and the block of the structure, which has the given size. -/
def handleOpen (k : Proc) (size : UInt32) (inode : Option ℕ) : KernelM (Option (ℕ × ℕ) × Proc) := do
  let (b, mem) ← k.mem.malloc R env size
  let k := { k with mem }
  match inode with
  | some a =>
    if b ≠ 0 then return (some (a, b), k)
    else
      let k ← inodeClose R k (some a)
      let mem ← k.mem.free R b
      return (none, { k with mem })
  | none =>
    let k ← inodeClose R k none
    let mem ← k.mem.free R b
    return (none, { k with mem })

/-- `dir_open`. -/
def dirOpen (k : Proc) (inode : Option ℕ) : KernelM (Option (Dir × ℕ) × Proc) := do
  let (h, k) ← handleOpen R env k 8 inode
  return (h.map fun x => (⟨x.1, 0⟩, x.2), k)

/-- `file_open`. -/
def fileOpen (k : Proc) (inode : Option ℕ) : KernelM (Option (File × ℕ) × Proc) := do
  let (h, k) ← handleOpen R env k 12 inode
  return (h.map fun x => (Filesys.fileOpen x.1, x.2), k)

/-- `dir_open_root`. -/
def dirOpenRoot (k : Proc) : KernelM (Option (Dir × ℕ) × Proc) := do
  let (inode, k) ← inodeOpen R env k 1
  dirOpen R env k inode

/-- `dir_close`. -/
def dirClose (k : Proc) : Option (Dir × ℕ) → KernelM Proc
  | none => return k
  | some (dir, b) => do
    let k ← inodeClose R k (some dir.inode)
    let mem ← k.mem.free R b
    return { k with mem }

/-- `inode_read_at`. The bounce buffer is allocated when it is needed first, and freed in the end. -/
def inodeReadAt (k : Proc) (a : ℕ) (buffer : ℕ → UInt8) (size offset : ℤ) : KernelM (ℕ × (ℕ → UInt8) × Proc) := do
  let ino ← fsCall (k.fs.deref a)
  if usesBounce ino size.toNat size offset then
    let (b, mem) ← k.mem.malloc R env 512
    let (n, buffer) ← fsCall (k.fs.readAt a (b ≠ 0) buffer size offset)
    let mem ← mem.free R b
    return (n, buffer, { k with mem })
  else
    let (n, buffer) ← fsCall (k.fs.readAt a true buffer size offset)
    return (n, buffer, k)

/-- The loop of `lookup`, from entry `i` on. -/
def lookupLoop (dir : Dir) (name : CStr) : ℕ → ℕ → (ℕ → UInt8) → Proc → KernelM (Option (ℕ → UInt8) × Proc)
  | 0, _, _, k => return (none, k)
  | fuel + 1, i, e, k => do
    let (n, e, k) ← inodeReadAt R env k dir.inode e 20 (20 * i : ℕ)
    if n = 20 then
      if entryInUse e && sameString e 4 name.chars then return (some e, k)
      else lookupLoop dir name fuel (i + 1) e k
    else return (none, k)

/-- `lookup`. -/
def lookup (k : Proc) (dir : Dir) (name : CStr) : KernelM (Option (ℕ → UInt8) × Proc) := do
  let fuel ← fsCall (entryRounds k.fs dir)
  lookupLoop R env dir name fuel 0 (fun _ => 0) k

/-- `dir_lookup`. -/
def dirLookup (k : Proc) (dir : Dir) (name : CStr) : KernelM (Option ℕ × Proc) := do
  match ← lookup R env k dir name with
  | (some e, k) => inodeOpen R env k (entrySector e)
  | (none, k) => return (none, k)

/-- `filesys_open`. -/
def filesysOpen (k : Proc) (name : CStr) : KernelM (Option (File × ℕ) × Proc) := do
  let (dir, k) ← dirOpenRoot R env k
  let (inode, k) ← match dir with
    | some (dir, _) => dirLookup R env k dir name
    | none => pure (none, k)
  let k ← dirClose R k dir
  fileOpen R env k inode

/-- `file_close`, of a file that is not NULL. -/
def fileClose (k : Proc) (file : File) (b : ℕ) : KernelM Proc := do
  let (file, fs) ← fsCall (fileAllowWrite k.fs file)
  let k ← inodeClose R { k with fs } (some file.inode)
  let mem ← k.mem.free R b
  return { k with mem }

/-- `file_read`. -/
def fileRead (k : Proc) (file : File) (buffer : ℕ → UInt8) (size : ℤ) :
    KernelM (ℕ × (ℕ → UInt8) × File × Proc) := do
  let (n, buffer, k) ← inodeReadAt R env k file.inode buffer size file.pos
  return (n, buffer, { file with pos := file.pos + n }, k)

end Proc

end Code

/-! ## What is left alone -/

/-- The pages and the page directory of the thread stay. -/
structure Calm (k k' : Proc) : Prop where
  bytes : k'.mem.bytes = k.mem.bytes
  pagedir : k'.pagedir = k.pagedir

lemma Calm.trans {k k' k'' : Proc} (h : Calm k k') (h' : Calm k' k'') : Calm k k'' :=
  ⟨h'.bytes.trans h.bytes, h'.pagedir.trans h.pagedir⟩

/-- What was opened is closed again. -/
structure Restored (s s' : Fs) (refs : ℕ → ℕ) : Prop where
  disk : s'.disk = s.disk
  same : SameInodes s s'
  good : Good s' refs

/-- The block of an inode that was not open before. -/
def inodeBlocks (old : Option Inode) (b : ℕ) : List ℕ :=
  if old.isNone then [b] else []

section Spec

open Memory (Extends)

/-- These blocks are allocated, and no page of the memory `m` was written. -/
structure Memory.Still (R : Ram) (m₀ : Memory) (e : PoolId → List ℕ) (blocks : List ℕ) (m m' : Memory) : Prop where
  bytes : m'.bytes = m.bytes
  mem : Extends R m₀ e blocks m'

open Memory (Still)

/-- The inode of a file was opened in the state `s`. If it was not open before, then its block is new. -/
structure OpenSince (R : Ram) (m₀ : Memory) (e : PoolId → List ℕ) (blocks : List ℕ) (s : Fs) (refs : ℕ → ℕ) (n a : ℕ)
    (ino : Inode) (k : Proc) : Prop where
  opened : Opened s k.fs n a ino
  ne_zero : n ≠ 0
  removed : ino.removed = false
  inv : Inv k.fs s.live (update refs a (refs a + 1))
  mem : Extends R m₀ e (inodeBlocks (s.inodes a) (k.inodeBlock a) ++ blocks) k.mem

/-- What was opened since the state `s` is closed, and its memory is freed. -/
structure Undone (R : Ram) (m₀ : Memory) (e : PoolId → List ℕ) (blocks : List ℕ) (s : Fs) (refs : ℕ → ℕ) (k k' : Proc) :
    Prop where
  calm : Calm k k'
  mem : Extends R m₀ e blocks k'.mem
  restored : Restored s k'.fs refs

variable {R : Ram} {env : ℕ → Option ℕ} {m₀ m : Memory} {e : PoolId → List ℕ} {blocks bs : List ℕ} {k k₁ k₂ : Proc}
  {name : CStr} {s s' s₁ : Fs} {live : Set ℕ} {refs : ℕ → ℕ} {a b n : ℕ} {ino : Inode}

lemma Restored.refl (hg : Good s refs) : Restored s s refs :=
  ⟨rfl, ⟨rfl, Nat.le_refl _, rfl⟩, hg⟩

lemma Restored.of_inv (hg : Good s refs) (hdisk : s'.disk = s.disk) (hsame : SameInodes s s')
    (hinv : Inv s' s.live refs) : Restored s s' refs := by
  refine ⟨hdisk, hsame, (hg.quiet ?_ hsame hinv).1⟩
  rw [hdisk]
  exact .refl s.disk s.live 0

/-- The order of the blocks does not matter. -/
lemma Memory.Extends.perm (hx : Extends R m₀ e blocks m) (h : blocks.Perm bs) : Extends R m₀ e bs m where
  base := hx.base
  sound := hx.sound
  pages := hx.pages
  bytes := hx.bytes
  nodup := h.nodup_iff.mp hx.nodup
  new c hc := hx.new c (h.mem_iff.mpr hc)
  live c := by
    rw [hx.live, h.mem_iff]
  arenas := hx.arenas

lemma Memory.Still.trans {m₁ m₂ : Memory} (h : Still R m₀ e bs m m₁) (h' : Still R m₀ e blocks m₁ m₂) :
    Still R m₀ e blocks m m₂ :=
  ⟨h'.bytes.trans h.bytes, h'.mem⟩

lemma Memory.Extends.free_head (hx : Extends R m₀ e (b :: blocks) m) :
    ∃ m', m.free R b = .ok m' ∧ Still R m₀ e blocks m m' := by
  obtain ⟨m', hrun, hbytes, hx'⟩ := hx.free (Or.inr (List.mem_cons_self ..))
  rw [List.erase_cons_head] at hx'
  exact ⟨m', hrun, hbytes, hx'⟩

/-- What `malloc` returned is freed. -/
lemma Memory.Extends.free_malloc (hx : Extends R m₀ e (if b = 0 then blocks else b :: blocks) m) :
    ∃ m', m.free R b = .ok m' ∧ Still R m₀ e blocks m m' := by
  by_cases hb : b = 0
  · rw [if_pos hb] at hx
    obtain ⟨m', hrun, hbytes, hx'⟩ := hx.free (Or.inl hb)
    rw [hb, List.erase_of_not_mem hx.ne_zero] at hx'
    exact ⟨m', hrun, hbytes, hx'⟩
  · rw [if_neg hb] at hx
    exact hx.free_head

lemma Undone.still (h : Undone R m₀ e bs s refs k k₁) (hm : Still R m₀ e blocks k₁.mem m) :
    Undone R m₀ e blocks s refs k { k₁ with mem := m } :=
  ⟨h.calm.trans ⟨hm.bytes, rfl⟩, hm.mem, h.restored⟩

lemma Undone.after (hcalm : Calm k k₁) (h : Undone R m₀ e blocks s refs k₁ k₂) : Undone R m₀ e blocks s refs k k₂ :=
  ⟨hcalm.trans h.calm, h.mem, h.restored⟩

/-! ## Inodes -/

lemma fsCall_deref (h : s.inodes a = some ino) : fsCall (s.deref a) = .ok ino := by
  rw [Fs.deref, h]
  rfl

lemma sectorOpen_iff (t : Table s live refs) : sectorOpen s n = true ↔ s.IsOpen n := by
  unfold sectorOpen Fs.IsOpen
  rw [List.any_eq_true]
  constructor
  · rintro ⟨a, -, h⟩
    obtain ⟨ino, hino, hsector⟩ := (Option.any_eq_true _ _).mp h
    exact ⟨a, ino, hino, of_decide_eq_true hsector⟩
  · rintro ⟨a, ino, hino, hsector⟩
    exact ⟨a, (t.mem_iff a).mpr ⟨ino, hino⟩, (Option.any_eq_true _ _).mpr ⟨ino, hino, decide_eq_true hsector⟩⟩

/-- An inode that is open is at the address of the open one, and otherwise at a new address. -/
lemma isNone_of_opened (t : Table s live refs) (h : Opened s s' n a ino) : (s.inodes a).isNone = !sectorOpen s n := by
  rcases h.inode with ⟨old, hold, hsector, -⟩ | ⟨hfresh, hclosed, -⟩
  · have hopen : sectorOpen s n = true := (sectorOpen_iff t).mpr ⟨a, old, hold, hsector⟩
    rw [hold, hopen]
    rfl
  · have hnot : sectorOpen s n = false := by
      rw [Bool.eq_false_iff, ne_eq, sectorOpen_iff t]
      rintro ⟨b, j, hj, hsector⟩
      exact hclosed b j hj hsector
    rw [t.fresh a hfresh, hnot]
    rfl

namespace Proc

section Extends

variable (env) (hx : Extends R m₀ e blocks k.mem)
include hx

lemma inodeOpen_spec (h : Inv k.fs live refs) (hn : n ∈ live) :
    (∃ mem, inodeOpen R env k n = .ok (none, { k with mem }) ∧ Still R m₀ e blocks k.mem mem) ∨
      ∃ a ino k', inodeOpen R env k n = .ok (some a, k') ∧ Calm k k' ∧ Opened k.fs k'.fs n a ino ∧
        Inv k'.fs live (update refs a (refs a + 1)) ∧
        Extends R m₀ e (inodeBlocks (k.fs.inodes a) (k'.inodeBlock a) ++ blocks) k'.mem ∧
        ∀ c, c ≠ a → k'.inodeBlock c = k.inodeBlock c := by
  obtain ⟨a, ino, fs, hopen, hopened, hinv⟩ := Filesys.inodeOpen_spec h hn
  have hnone := isNone_of_opened h.table hopened
  unfold inodeOpen
  by_cases hsector : sectorOpen k.fs n = true
  · right
    rw [hsector] at hnone
    rw [if_pos hsector, hopen]
    refine ⟨a, ino, { k with fs }, rfl, ⟨rfl, rfl⟩, hopened, hinv, ?_, fun c _ => rfl⟩
    unfold inodeBlocks
    rw [hnone]
    exact hx
  · obtain ⟨b, mem, hmalloc, hbytes, hx'⟩ := hx.malloc env 536 (by decide +kernel)
    rw [if_neg hsector, hmalloc, except_ok_bind]
    dsimp only
    by_cases hb : b = 0
    · left
      rw [if_pos hb] at hx' ⊢
      exact ⟨mem, rfl, hbytes, hx'⟩
    · right
      rw [Bool.not_eq_true] at hsector
      rw [hsector] at hnone
      rw [if_neg hb] at hx'
      rw [if_neg hb, hopen]
      refine ⟨a, ino, _, rfl, ⟨hbytes, rfl⟩, hopened, hinv, ?_, fun c hc => update_of_ne hc ..⟩
      unfold inodeBlocks
      rw [hnone]
      show Extends R m₀ e ((if (!false) = true then [update k.inodeBlock a b a] else []) ++ blocks) mem
      rw [update_self]
      exact hx'

omit hx in
/-- Closing undoes the opening, also of the memory. -/
lemma inodeClose_spec (t : Table s live refs) (hopened : Opened s s₁ n a ino) (hn : n ≠ 0)
    (hremoved : ino.removed = false) {live₂ : Set ℕ} {refs₂ : ℕ → ℕ} (h : Inv k.fs live₂ refs₂)
    (hino : k.fs.inodes a = some ino) (hrefs : refs₂ a = refs a + 1)
    (hx : Extends R m₀ e (inodeBlocks (s.inodes a) (k.inodeBlock a) ++ blocks) k.mem) :
    ∃ k', inodeClose R k (some a) = .ok k' ∧ Calm k k' ∧ k'.inodeBlock = k.inodeBlock ∧
      Extends R m₀ e blocks k'.mem ∧ k'.fs.disk = k.fs.disk ∧ k'.fs.freeMap = k.fs.freeMap ∧
      k'.fs.freeMapFile = k.fs.freeMapFile ∧ k'.fs.nextInode = k.fs.nextInode ∧
      k'.fs.inodes = update k.fs.inodes a (s.inodes a) ∧ Inv k'.fs live₂ (update refs₂ a (refs a)) := by
  obtain ⟨fs, hclose, hfs⟩ := inodeClose_undo t hopened hn hremoved h hino hrefs
  have hcount := (h.table.count a ino hino).1
  have hrun : inodeClose R k (some a) = (do
      if ino.openCnt - 1 = 0 then
        let mem ← k.mem.free R (k.inodeBlock a)
        return { k with mem, fs }
      else return { k with fs }) := by
    rw [inodeClose, fsCall_deref hino, hclose]
    rfl
  rw [hrun]
  cases hold : s.inodes a with
  | none =>
    -- nobody had the inode open before
    have hzero := t.absent a hold
    rw [hold] at hx
    obtain ⟨mem, hfree, hbytes, hx'⟩ := Memory.Extends.free_head hx
    refine ⟨{ k with mem, fs }, ?_, ⟨hbytes, rfl⟩, rfl, hx', ?_⟩
    · rw [if_pos (by omega), hfree]
      rfl
    · rw [← hold]
      exact hfs
  | some old =>
    have hpos := (t.count a old hold).2
    rw [hold] at hx
    refine ⟨{ k with fs }, ?_, ⟨rfl, rfl⟩, rfl, hx, ?_⟩
    · rw [if_neg (by omega)]
      rfl
    · rw [← hold]
      exact hfs

omit hx in
/-- An inode that was just opened is closed again. -/
lemma inodeClose_restores (hg : Good s refs) (h : OpenSince R m₀ e blocks s refs n a ino k) :
    ∃ k', inodeClose R k (some a) = .ok k' ∧ Undone R m₀ e blocks s refs k k' := by
  have hopened := h.opened
  obtain ⟨k', hrun, hcalm, -, hx', hdisk, -, hfile, hnext, hinodes, hinv⟩ :=
    inodeClose_spec hg.inv.table hopened h.ne_zero h.removed h.inv hopened.self (update_self ..) h.mem
  rw [update_idem, update_eq_self] at hinv
  refine ⟨k', hrun, hcalm, hx', .of_inv hg (hdisk.trans hopened.disk) ⟨?_, ?_, ?_⟩ hinv⟩
  · rw [hfile, hopened.freeMapFile]
  · rw [hnext]
    exact hopened.next
  · rw [hinodes, hopened.inodes, update_idem, update_eq_self]

/-! ## Handles -/

lemma handleOpen_none (size : UInt32)
    (hsize : pageCnt size.toNat = 1) :
    ∃ mem, handleOpen R env k size none = .ok (none, { k with mem }) ∧ Still R m₀ e blocks k.mem mem := by
  obtain ⟨b, m, hmalloc, hbytes, hx₁⟩ := hx.malloc env size hsize
  obtain ⟨m', hfree, hstill⟩ := hx₁.free_malloc
  refine ⟨m', ?_, .trans ⟨hbytes, hx₁⟩ hstill⟩
  rw [handleOpen, hmalloc, except_ok_bind]
  dsimp only
  rw [inodeClose, except_pure, except_ok_bind]
  rw [hfree]
  rfl

omit hx in
/-- A handle to an inode that was just opened. If there is no memory for it then the inode is closed. -/
lemma handleOpen_some (hg : Good s refs) (h : OpenSince R m₀ e blocks s refs n a ino k)
    (size : UInt32) (hsize : pageCnt size.toNat = 1) :
    (∃ k', handleOpen R env k size (some a) = .ok (none, k') ∧ Undone R m₀ e blocks s refs k k') ∨
    ∃ b k', handleOpen R env k size (some a) = .ok (some (a, b), k') ∧ Calm k k' ∧
      OpenSince R m₀ e (b :: blocks) s refs n a ino k' := by
  obtain ⟨b, m, hmalloc, hbytes, hx₁⟩ := h.mem.malloc env size hsize
  rw [handleOpen, hmalloc, except_ok_bind]
  dsimp only
  by_cases hb : b = 0
  · left
    rw [if_pos hb] at hx₁
    obtain ⟨k₂, hclose, hundone⟩ := inodeClose_restores (k := { k with mem := m }) hg { h with mem := hx₁ }
    have hx₂ : Extends R m₀ e (if b = 0 then blocks else b :: blocks) k₂.mem := by
      rw [if_pos hb]
      exact hundone.mem
    obtain ⟨m', hfree, hstill⟩ := hx₂.free_malloc
    have hcalm : Calm k { k with mem := m } := ⟨hbytes, rfl⟩
    refine ⟨{ k₂ with mem := m' }, ?_, (hundone.still hstill).after hcalm⟩
    rw [if_neg (not_not.mpr hb), hclose, except_ok_bind, hfree]
    rfl
  · right
    rw [if_neg hb] at hx₁
    rw [if_pos hb]
    exact ⟨b, _, rfl, ⟨hbytes, rfl⟩, { h with mem := hx₁.perm List.perm_middle.symm }⟩

/-! ## Reading -/

/-- `inode_read_at` reads what is there. If there is no memory for the bounce buffer, it reads less. -/
lemma inodeReadAt_spec (h : Inv k.fs live refs) (hino : k.fs.inodes a = some ino)
    (buffer : ℕ → UInt8) (size : ℤ) (offset : ℕ) :
    ∃ n mem, inodeReadAt R env k a buffer size offset =
        .ok (n, copy buffer 0 (k.fs.disk.byte ino.sector) offset n, { k with mem }) ∧
      n ≤ available ino size offset ∧ Still R m₀ e blocks k.mem mem := by
  unfold inodeReadAt
  rw [fsCall_deref hino, except_ok_bind]
  by_cases huse : usesBounce ino size.toNat size offset = true
  · obtain ⟨b, m, hmalloc, hbytes, hx₁⟩ := hx.malloc env 512 (by decide +kernel)
    obtain ⟨m', hfree, hstill⟩ := hx₁.free_malloc
    obtain ⟨n, hle, hread⟩ := h.readAt_le hino (b ≠ 0) buffer size offset
    refine ⟨n, m', ?_, hle, .trans ⟨hbytes, hx₁⟩ hstill⟩
    rw [if_pos huse, hmalloc, except_ok_bind]
    dsimp only
    rw [hread]
    rw [hfree]
    rfl
  · obtain ⟨n, hle, hread⟩ := h.readAt_le hino true buffer size offset
    refine ⟨n, k.mem, ?_, hle, rfl, hx⟩
    rw [if_neg huse, hread]
    rfl

/-- The loop of `lookup` finds nothing, or what it finds if there is memory for the bounce buffers. -/
lemma lookupLoop_spec (h : Inv k.fs live refs) {dir : Dir}
    (hino : k.fs.inodes dir.inode = some ino) (name : CStr) (fuel i : ℕ) (x : ℕ → UInt8) :
    ∃ r mem, lookupLoop R env dir name fuel i x k = .ok (r, { k with mem }) ∧ Still R m₀ e blocks k.mem mem ∧
      ∀ y, r = some y → ∃ ofs, Filesys.lookupLoop k.fs dir (fun _ => true) name fuel i x = .ok (some (y, ofs)) := by
  induction fuel generalizing i x k with
  | zero => exact ⟨none, k.mem, rfl, ⟨rfl, hx⟩, fun y hy => by cases hy⟩
  | succ fuel ih =>
    rw [lookupLoop, Filesys.lookupLoop]
    obtain ⟨n, mem, hrun, hle, hstill⟩ := inodeReadAt_spec env hx h hino x 20 (20 * i)
    rw [hrun, except_ok_bind, h.readAt_eq hino, except_ok_bind]
    dsimp only
    by_cases hn : n = 20
    · -- the whole entry was read, as it is with all the memory one needs
      have havail : available ino 20 (20 * i : ℕ) = 20 := by
        unfold available at hle ⊢
        omega
      rw [havail, hn]
      generalize copy x 0 (k.fs.disk.byte ino.sector) (20 * i) 20 = x'
      by_cases hmatch : (entryInUse x' && sameString x' 4 name.chars) = true
      · rw [if_pos hmatch, if_pos hmatch]
        refine ⟨some x', mem, rfl, hstill, fun y hy => ?_⟩
        cases hy
        exact ⟨_, rfl⟩
      · rw [if_neg hmatch, if_neg hmatch]
        obtain ⟨r, mem', hrun', hstill', hfound⟩ := ih (k := { k with mem }) hstill.mem h hino (i + 1) x'
        exact ⟨r, mem', hrun', hstill.trans hstill', hfound⟩
    · rw [if_neg hn]
      exact ⟨none, mem, rfl, hstill, fun y hy => by cases hy⟩

lemma lookup_spec (h : Inv k.fs live refs) {dir : Dir} (hd : RootDir k.fs dir ino)
    (name : CStr) :
    ∃ r mem, lookup R env k dir name = .ok (r, { k with mem }) ∧ Still R m₀ e blocks k.mem mem ∧
      ∀ y, r = some y → k.fs.disk.Bound name.chars (entrySector y) := by
  obtain ⟨r, mem, hrun, hstill, hfound⟩ := lookupLoop_spec env hx h hd.inode name 17 0 fun _ => 0
  refine ⟨r, mem, ?_, hstill, fun y hy => ?_⟩
  · rw [lookup, hd.entryRounds_eq h]
    exact hrun
  · obtain ⟨ofs, hloop⟩ := hfound y hy
    have hlookup : Filesys.lookup k.fs dir (fun _ => true) name = .ok (some (y, ofs)) := by
      rw [Filesys.lookup, hd.entryRounds_eq h]
      exact hloop
    rcases Filesys.lookup_spec hd h name with ⟨i, y', n, hi, hpure, -, hslot, hsector⟩ | ⟨hpure, -⟩
    · rw [hpure] at hlookup
      cases hlookup
      rw [hsector]
      exact ⟨i, hi, hslot⟩
    · rw [hpure] at hlookup
      cases hlookup

/-! ## Opening and closing -/

omit hx in
lemma dirOpenRoot_spec (hg : Good k.fs refs) (hx : Extends R m₀ e blocks k.mem) :
    (∃ k', dirOpenRoot R env k = .ok (none, k') ∧ Undone R m₀ e blocks k.fs refs k k') ∨
    ∃ dir ino b k', dirOpenRoot R env k = .ok (some (dir, b), k') ∧ Calm k k' ∧
      OpenSince R m₀ e (b :: blocks) k.fs refs 1 dir.inode ino k' := by
  unfold dirOpenRoot dirOpen
  rcases inodeOpen_spec env hx hg.inv hg.one_mem with
    ⟨mem, hopen, hstill⟩ | ⟨a, ino, k₁, hopen, hcalm, hopened, hinv, hx₁, -⟩
  · left
    obtain ⟨mem', hhandle, hstill'⟩ := handleOpen_none env (k := { k with mem }) hstill.mem 8 (by decide +kernel)
    have hboth := hstill.trans hstill'
    refine ⟨{ k with mem := mem' }, ?_, ⟨hboth.bytes, rfl⟩, hboth.mem, .refl hg⟩
    rw [hopen, except_ok_bind]
    dsimp only
    rw [hhandle]
    rfl
  · have hsector := hopened.sector
    have hremoved := (hinv.table.system a ino hopened.self (by omega)).2
    rw [hopen, except_ok_bind]
    dsimp only
    rcases handleOpen_some env hg ⟨hopened, by omega, hremoved, hinv, hx₁⟩ 8 (by decide +kernel) with
      ⟨k₂, hhandle, hundone⟩ | ⟨b, k₂, hhandle, hcalm₂, hsince⟩
    · left
      rw [hhandle]
      exact ⟨k₂, rfl, hundone.after hcalm⟩
    · right
      rw [hhandle]
      exact ⟨⟨a, 0⟩, ino, b, k₂, rfl, hcalm.trans hcalm₂, hsince⟩

/-- `dir_lookup` of the root directory. -/
lemma dirLookup_spec (h : Inv k.fs live refs) {dir : Dir} (hd : RootDir k.fs dir ino)
    (hnames : ∀ n, k.fs.disk.Bound name.chars n → n ∈ live) :
    (∃ mem, dirLookup R env k dir name = .ok (none, { k with mem }) ∧ Still R m₀ e blocks k.mem mem) ∨
    ∃ n a ino k', dirLookup R env k dir name = .ok (some a, k') ∧ Calm k k' ∧ k.fs.disk.Bound name.chars n ∧
      Opened k.fs k'.fs n a ino ∧ Inv k'.fs live (update refs a (refs a + 1)) ∧
      Extends R m₀ e (inodeBlocks (k.fs.inodes a) (k'.inodeBlock a) ++ blocks) k'.mem ∧
      ∀ c, c ≠ a → k'.inodeBlock c = k.inodeBlock c := by
  obtain ⟨r, mem, hrun, hstill, hfound⟩ := lookup_spec env hx h hd name
  unfold dirLookup
  rw [hrun]
  cases r with
  | none => exact Or.inl ⟨mem, rfl, hstill⟩
  | some y =>
    have hbound := hfound y rfl
    rcases inodeOpen_spec env (k := { k with mem }) hstill.mem h (hnames _ hbound) with
      ⟨mem', hopen, hstill'⟩ | ⟨a, ino, k', hopen, hcalm, hopened⟩
    · exact Or.inl ⟨mem', hopen, hstill.trans hstill'⟩
    · have hcalm' : Calm k k' := ⟨hcalm.bytes.trans hstill.bytes, hcalm.pagedir⟩
      exact Or.inr ⟨_, a, ino, k', hopen, hcalm', hbound, hopened⟩

omit hx in
lemma Opened.not_removed (hg : Good s refs) {refs' : ℕ → ℕ} {w : List UInt8} (hbound : s.disk.Bound w n)
    (hopened : Opened s s' n a ino) (hinv : Inv s' s.live refs') : ino.removed = false := by
  have hgood := hg.opened (Or.inr ⟨w, hbound⟩) hopened hinv
  have hn := hg.root.file w n hbound
  rw [Bool.eq_false_iff]
  intro hremoved
  refine (hgood.removed a ino hopened.self (by rw [hopened.sector]; exact hn)).mp hremoved w ?_
  rw [hopened.disk, hopened.sector]
  exact hbound

omit hx in
/-- `filesys_open` fails, and leaves nothing behind, or opens the file of that name. -/
lemma filesysOpen_spec (hg : Good k.fs refs) (hx : Extends R m₀ e blocks k.mem) (name : CStr) :
    (∃ k', filesysOpen R env k name = .ok (none, k') ∧ Undone R m₀ e blocks k.fs refs k k') ∨
    ∃ n a ino b k', filesysOpen R env k name = .ok (some (Filesys.fileOpen a, b), k') ∧ Calm k k' ∧
      k.fs.disk.Bound name.chars n ∧ OpenSince R m₀ e (b :: blocks) k.fs refs n a ino k' := by
  unfold filesysOpen fileOpen
  rcases dirOpenRoot_spec env hg hx with ⟨k₁, hroot, hundone⟩ | ⟨dir, ino, b, k₁, hroot, hcalm₁, hsince⟩
  · left
    obtain ⟨mem, hhandle, hstill⟩ := handleOpen_none env hundone.mem 12 (by decide +kernel)
    refine ⟨{ k₁ with mem }, ?_, hundone.still hstill⟩
    rw [hroot, except_ok_bind]
    dsimp only
    rw [except_pure, except_ok_bind]
    rw [dirClose, except_pure, except_ok_bind, hhandle]
    rfl
  · have hopened := hsince.opened
    have hd : RootDir k₁.fs dir ino := by
      refine ⟨?_, hopened.self, hopened.sector⟩
      rw [hopened.disk]
      exact hg.root
    rw [hroot, except_ok_bind]
    dsimp only
    have hnames : ∀ n, k₁.fs.disk.Bound name.chars n → n ∈ k.fs.live := by
      intro n hbound
      rw [hopened.disk] at hbound
      exact hg.bound_mem hbound
    rcases dirLookup_spec env hsince.mem hsince.inv hd hnames with
      ⟨mem, hlookup, hstill⟩ | ⟨n, a, ino₂, k₂, hlookup, hcalm₂, hbound, hopened₂, hinv₂, hx₂, hother⟩
    · -- nothing was found, or there was no memory for it
      left
      obtain ⟨k₃, hclose, hundone⟩ := inodeClose_restores (k := { k₁ with mem }) hg { hsince with mem := hstill.mem }
      obtain ⟨mem₃, hfree, hstill₃⟩ := hundone.mem.free_head
      obtain ⟨mem₄, hhandle, hstill₄⟩ := handleOpen_none env (k := { k₃ with mem := mem₃ }) hstill₃.mem 12
        (by decide +kernel)
      have hcalm : Calm k { k₁ with mem } := hcalm₁.trans ⟨hstill.bytes, rfl⟩
      refine ⟨{ k₃ with mem := mem₄ }, ?_, (hundone.still (hstill₃.trans hstill₄)).after hcalm⟩
      rw [hlookup, except_ok_bind]
      rw [dirClose, hclose, except_ok_bind, hfree, except_ok_bind, except_pure, except_ok_bind, hhandle]
      rfl
    · rw [hopened.disk] at hbound
      have hn : 2 ≤ n := hg.root.file _ n hbound
      have hne : a ≠ dir.inode := hopened.ne_root hsince.inv.table hopened₂ hn
      have hino : k₂.fs.inodes dir.inode = some ino := (hopened₂.of_ne hne.symm).trans hopened.self
      have hold : k₁.fs.inodes a = k.fs.inodes a := hopened.of_ne hne
      -- the blocks of the root directory go, those of the file stay
      have hperm : (inodeBlocks (k₁.fs.inodes a) (k₂.inodeBlock a) ++
          (inodeBlocks (k.fs.inodes dir.inode) (k₁.inodeBlock dir.inode) ++ (b :: blocks))).Perm
          (inodeBlocks (k.fs.inodes dir.inode) (k₂.inodeBlock dir.inode) ++
            (b :: (inodeBlocks (k.fs.inodes a) (k₂.inodeBlock a) ++ blocks))) := by
        rw [hold, hother _ hne.symm]
        refine List.perm_append_comm_assoc .. |>.trans (List.Perm.append_left _ ?_)
        exact List.perm_middle
      obtain ⟨k₃, hclose, hcalm₃, hblock, hx₃, hdisk, hmap, hfile, hnext, hinodes, hinv⟩ :=
        inodeClose_spec hg.inv.table hopened hsince.ne_zero hsince.removed hinv₂ hino
          (by rw [update_of_ne hne.symm, update_self]) (hx₂.perm hperm)
      obtain ⟨mem₃, hfree, hstill₃⟩ := hx₃.free_head
      have hresult : Opened k.fs k₃.fs n a ino₂ :=
        hopened.of_root hg.inv.table hopened₂ hn hne hdisk hmap hfile hnext hinodes
      rw [update_restore refs hne, update_of_ne hne] at hinv
      have hremoved₂ := Opened.not_removed hg hbound hresult hinv
      have hx₄ := hstill₃.mem
      rw [← hblock] at hx₄
      have hcalm : Calm k { k₃ with mem := mem₃ } :=
        hcalm₁.trans (hcalm₂.trans (hcalm₃.trans ⟨hstill₃.bytes, rfl⟩))
      rw [hlookup, except_ok_bind]
      rw [dirClose, hclose, except_ok_bind, hfree, except_ok_bind, except_pure, except_ok_bind]
      rcases handleOpen_some env (k := { k₃ with mem := mem₃ }) hg ⟨hresult, by omega, hremoved₂, hinv, hx₄⟩ 12
        (by decide +kernel) with ⟨k₄, hhandle, hundone⟩ | ⟨c, k₄, hhandle, hcalm₄, hsince⟩
      · left
        rw [hhandle]
        exact ⟨k₄, rfl, hundone.after hcalm⟩
      · right
        rw [hhandle]
        exact ⟨n, a, ino₂, c, k₄, rfl, hcalm.trans hcalm₄, hbound, hsince⟩

omit hx in
/-- Closing the file undoes its opening. -/
lemma fileClose_spec (hg : Good s refs) (h : OpenSince R m₀ e (b :: blocks) s refs n a ino k) {file : File}
    (hfile : file.inode = a) (hdeny : file.denyWrite = false) :
    ∃ k', fileClose R k file b = .ok k' ∧ Undone R m₀ e blocks s refs k k' := by
  obtain ⟨k₁, hclose, hundone⟩ := inodeClose_restores hg h
  obtain ⟨mem, hfree, hstill⟩ := hundone.mem.free_head
  refine ⟨{ k₁ with mem }, ?_, hundone.still hstill⟩
  have hallow : fsCall (fileAllowWrite k.fs file) = .ok (file, k.fs) := by
    rw [fileAllowWrite, if_neg (by rw [hdeny]; exact Bool.false_ne_true)]
    rfl
  rw [fileClose, hallow, except_ok_bind]
  dsimp only
  rw [hfile, hclose, except_ok_bind, hfree]
  rfl

/-- `file_read` reads what is in the file. -/
lemma fileRead_spec (h : Inv k.fs live refs) (file : File)
    (hino : k.fs.inodes file.inode = some ino) (buffer : ℕ → UInt8) (size : ℤ) {pos : ℕ}
    (hpos : file.pos = pos) :
    ∃ n mem, fileRead R env k file buffer size =
        .ok (n, copy buffer 0 (k.fs.disk.byte ino.sector) pos n, { file with pos := (pos + n : ℕ) }, { k with mem }) ∧
      n ≤ available ino size pos ∧ Still R m₀ e blocks k.mem mem := by
  obtain ⟨n, mem, hrun, hle, hstill⟩ := inodeReadAt_spec env hx h hino buffer size pos
  refine ⟨n, mem, ?_, hle, hstill⟩
  rw [fileRead, hpos, hrun]
  rfl

end Extends

end Proc

end Spec

end OsLabs.Userprog
