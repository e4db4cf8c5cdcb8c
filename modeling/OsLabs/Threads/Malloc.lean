import Mathlib.Algebra.Group.Nat.Defs
import Mathlib.Data.Fintype.Basic
import OsLabs.Lib.Ensures
import OsLabs.Lib.Slab
import OsLabs.Lib.Yields
import OsLabs.LibKernel.List

/-!
# The block allocator

`threads/malloc.c` on the words of memory. Arena headers are three words at the start of a page, and the lists of free
blocks run through the free blocks themselves. Nothing protects them but the allocator: the machine has a step
for a client that writes any word of its own block, or of memory that does not belong to the allocator.

The page allocator is left open. A call of `malloc` says what `palloc_get_multiple` returns if it is called: nothing, or
pages of the kernel pool that are not in use. Giving back pages that were not got is a failed assertion.
-/

namespace OsLabs.Threads

open Lib LibKernel Function

/-! ## Descriptors -/

/-- `struct desc` without its list and its lock. -/
structure Desc where
  blockSize : ℕ
  blocksPerArena : ℕ
deriving DecidableEq

/-- The loop of `malloc_init`, for at most `room` descriptors. -/
def mallocInitFrom : (room : ℕ) → (blockSize : ℕ) → List Desc
  | 0, _ => []
  | room + 1, blockSize =>
    if blockSize < 4096 / 2 then ⟨blockSize, (4096 - 12) / blockSize⟩ :: mallocInitFrom room (blockSize * 2) else []

/-- The descriptors that are in use; `descs` has room for 10. -/
def descTable : List Desc :=
  mallocInitFrom 10 16

lemma descTable_length : descTable.length = 7 := by decide

def desc (k : Fin 7) : Desc :=
  descTable.get (Fin.cast descTable_length.symm k)

/-- Where `descs` is: in the kernel image, which is below the pages of the pools. -/
structure DescsAddr where
  addr : ℕ
  pos : 0 < addr
  below : addr + 480 ≤ 0xc0100000

variable (D : DescsAddr)

/-- `&descs[k]`; a `struct desc` has 48 bytes. -/
def descAddr (k : Fin 7) : ℕ :=
  D.addr + 48 * k

/-- `&descs[k].free_list`. -/
def freeList (k : Fin 7) : ℕ :=
  descAddr D k + 8

/-- The descriptor that a pointer leads to. -/
def descOf (ptr : ℕ) : Option (Fin 7) :=
  (List.finRange 7).find? fun k => descAddr D k = ptr

/-- The search in `malloc`: the first descriptor with blocks that are large enough. -/
def findDesc (size : ℕ) : Option (Fin 7) :=
  (List.finRange 7).find? fun k => size ≤ (desc k).blockSize

/-! ## The code -/

/-- A difference of `unsigned` numbers. -/
def sub32 (x y : ℕ) : ℕ :=
  (x + (2 ^ 32 - y)) % 2 ^ 32

lemma sub32_eq {x y : ℕ} (hle : y ≤ x) (hlt : x < 2 ^ 32) : sub32 x y = x - y := by
  unfold sub32
  omega

def arenaMagic : ℕ := 0x9a548eed

/-- Memory, the pages that were got and not given back, each range by its first page and its length, and the blocks that
were returned and not freed. -/
structure MallocState where
  mem : Words
  arenas : List (ℕ × ℕ)
  live : List ℕ

/-- What can fail. -/
inductive MallocAssert where
  | blockToArena
  | arenaToBlock
  /-- `a->free_cnt == d->blocks_per_arena` in `free`. -/
  | free
  /-- An assertion of `list.c`. -/
  | list
  /-- Pages are given back that were not got. -/
  | palloc
  /-- `a->desc` is followed and is no pointer to a descriptor. -/
  | wild
deriving DecidableEq

abbrev MallocM := Except (Halt MallocAssert)

/-- An operation of `list.c`. -/
def listOp {α : Type} : Option α → MallocM α
  | some a => .ok a
  | none => .error (.fault .list)

/-- `a->desc`, `none` for NULL. -/
def arenaDesc (mem : Words) (a : ℕ) : MallocM (Option (Fin 7)) :=
  if mem (a + 4) = 0 then .ok none
  else
    match descOf D (mem (a + 4)) with
    | some k => .ok (some k)
    | none => .error (.fault .wild)

/-- `block_to_arena`. -/
def blockToArena (mem : Words) (b : ℕ) : MallocM ℕ :=
  let a := b / 4096 * 4096
  if a = 0 ∨ mem a ≠ arenaMagic then .error (.fault .blockToArena)
  else do
    match ← arenaDesc D mem a with
    | some k =>
      if sub32 (b % 4096) 12 % (desc k).blockSize = 0 then .ok a else .error (.fault .blockToArena)
    | none => if b % 4096 = 12 then .ok a else .error (.fault .blockToArena)

/-- `arena_to_block`. -/
def arenaToBlock (mem : Words) (a idx : ℕ) : MallocM ℕ :=
  if a = 0 ∨ mem a ≠ arenaMagic then .error (.fault .arenaToBlock)
  else do
    match ← arenaDesc D mem a with
    | some k =>
      if idx < (desc k).blocksPerArena then .ok (a + 12 + idx * (desc k).blockSize) else .error (.fault .arenaToBlock)
    | none => .error (.fault .wild)

/-- `block_size`. -/
def blockSize (mem : Words) (b : ℕ) : MallocM ℕ := do
  let a ← blockToArena D mem b
  match ← arenaDesc D mem a with
  | some k => return (desc k).blockSize
  | none => return sub32 (4096 * mem (a + 8)) (b % 4096)

/-- `memset` with 0xcc. -/
def fill (mem : Words) (a size : ℕ) : Words :=
  fun y => if a ≤ y ∧ y < a + size then 0xcccccccc else mem y

/-- Pages of the kernel pool that are not in use by the allocator. -/
def FreshPages (s : MallocState) (p pageCnt : ℕ) : Prop :=
  0xc0100 ≤ p ∧ p + pageCnt < 2 ^ 20 ∧ ∀ r ∈ s.arenas, p + pageCnt ≤ r.1 ∨ r.1 + r.2 ≤ p

instance (s : MallocState) (p pageCnt : ℕ) : Decidable (FreshPages s p pageCnt) :=
  inferInstanceAs (Decidable (_ ∧ _ ∧ _))

/-- `palloc_get_multiple`, which returns what the environment wants. -/
def pallocGetMultiple (s : MallocState) (pageCnt : ℕ) (page : Option ℕ) : MallocM (Option (ℕ × MallocState)) :=
  if pageCnt = 0 then .ok none
  else
    match page with
    | none => .ok none
    | some p =>
      if FreshPages s p pageCnt then .ok (some (p, { s with arenas := (p, pageCnt) :: s.arenas }))
      else .error .disabled

/-- `palloc_free_multiple`. -/
def pallocFreeMultiple (s : MallocState) (pages pageCnt : ℕ) : MallocM MallocState :=
  if pages % 4096 ≠ 0 then .error (.fault .palloc)
  else if pages = 0 ∨ pageCnt = 0 then .ok s
  else if (pages / 4096, pageCnt) ∉ s.arenas then .error (.fault .palloc)
  else
    .ok { s with
      mem := fill s.mem pages (4096 * pageCnt)
      arenas := s.arenas.filter fun r => r ≠ (pages / 4096, pageCnt) }

/-- The header of an arena. -/
def writeHeader (mem : Words) (a desc freeCnt : ℕ) : Words :=
  update (update (update mem a arenaMagic) (a + 4) desc) (a + 8) freeCnt

/-- `malloc`, for a size that is too big for any descriptor. -/
def mallocBig (s : MallocState) (size : ℕ) (page : Option ℕ) : MallocM (ℕ × MallocState) := do
  let pageCnt := (size + 12 + 4095) % 2 ^ 32 / 4096
  match ← pallocGetMultiple s pageCnt page with
  | none => return (0, s)
  | some (p, s) => return (p * 4096 + 12, { s with mem := writeHeader s.mem (p * 4096) 0 pageCnt })

/-- The blocks of a new arena are put into the free list. -/
def pushBlocks (mem : Words) (k : Fin 7) (a : ℕ) : MallocM Words :=
  (List.range (desc k).blocksPerArena).foldlM (fun mem i => do
    let b ← arenaToBlock D mem a i
    listOp (listPushBack mem (freeList D k) b)) mem

/-- A new arena, if the free list is empty; `none` if there is no page for it. -/
def refill (s : MallocState) (k : Fin 7) (page : Option ℕ) : MallocM (Option MallocState) :=
  if listEmpty s.mem (freeList D k) then do
    match ← pallocGetMultiple s 1 page with
    | none => return none
    | some (p, s) =>
      let mem ← pushBlocks D (writeHeader s.mem (p * 4096) (descAddr D k) (desc k).blocksPerArena) k (p * 4096)
      return some { s with mem }
  else return some s

/-- A block is taken from the free list. -/
def takeBlock (s : MallocState) (k : Fin 7) : MallocM (ℕ × MallocState) := do
  let (mem, b) ← listOp (listPopFront s.mem (freeList D k))
  let a ← blockToArena D mem b
  return (b, { s with mem := update mem (a + 8) (sub32 (mem (a + 8)) 1) })

/-- `malloc`: the block that it returns, 0 for NULL. -/
def malloc (s : MallocState) (size : UInt32) (page : Option ℕ) : MallocM (ℕ × MallocState) :=
  if size = 0 then .ok (0, s)
  else
    match findDesc size.toNat with
    | none => mallocBig s size.toNat page
    | some k => do
      match ← refill D s k page with
      | none => return (0, s)
      | some s => takeBlock D s k

/-- The blocks of an arena without live ones are taken out of the free list. -/
def removeBlocks (mem : Words) (k : Fin 7) (a : ℕ) : MallocM Words :=
  (List.range (desc k).blocksPerArena).foldlM (fun mem i => do
    let b ← arenaToBlock D mem a i
    listOp (LibKernel.listRemove mem b)) mem

/-- `free`, for a normal block. -/
def freeSmall (s : MallocState) (k : Fin 7) (a p : ℕ) : MallocM MallocState := do
  let mem ← listOp (listPushFront (fill s.mem p (desc k).blockSize) (freeList D k) p)
  let freeCnt := (mem (a + 8) + 1) % 2 ^ 32
  let mem := update mem (a + 8) freeCnt
  if (desc k).blocksPerArena ≤ freeCnt then
    if freeCnt ≠ (desc k).blocksPerArena then .error (.fault .free)
    else do
      let mem ← removeBlocks D mem k a
      pallocFreeMultiple { s with mem } a 1
  else return { s with mem }

/-- `free`. -/
def free (s : MallocState) (p : ℕ) : MallocM MallocState :=
  if p = 0 then .ok s
  else do
    let a ← blockToArena D s.mem p
    match ← arenaDesc D s.mem a with
    | some k => freeSmall D s k a p
    | none => pallocFreeMultiple s a (s.mem (a + 8))

/-! ## The machine -/

/-- The word is in a live block, or neither in `descs` nor in a page of the allocator. -/
def ClientWord (s : MallocState) (addr : ℕ) : Prop :=
  addr % 4 = 0 ∧
    ((∃ p ∈ s.live, p ≤ addr ∧ addr + 4 ≤ p + ((blockSize D s.mem p).toOption.getD 0)) ∨
      (addr + 4 ≤ D.addr ∨ D.addr + 480 ≤ addr) ∧
        ∀ r ∈ s.arenas, addr + 4 ≤ r.1 * 4096 ∨ (r.1 + r.2) * 4096 ≤ addr)

instance (s : MallocState) (addr : ℕ) : Decidable (ClientWord D s addr) := inferInstanceAs (Decidable (_ ∧ (_ ∨ _)))

inductive HeapAction where
  /-- A call of `malloc`, with what `palloc_get_multiple` returns if it is called. -/
  | malloc (size : UInt32) (page : Option ℕ)
  /-- A call of `free`, on NULL or a live block. -/
  | free (p : ℕ)
  /-- A client writes a word. -/
  | write (addr value : ℕ)

def mallocExec (s : MallocState) : HeapAction → MallocM MallocState
  | .malloc size page => do
    let (p, s) ← malloc D s size page
    return if p = 0 then s else { s with live := p :: s.live }
  | .free p =>
    if p = 0 ∨ p ∈ s.live then do
      let s ← free D s p
      return { s with live := s.live.erase p }
    else .error .disabled
  | .write addr value =>
    if ClientWord D s addr then .ok { s with mem := update s.mem addr value } else .error .disabled

/-- The lists after `malloc_init`, on memory with any contents. -/
def mallocInit (mem : Words) : Words :=
  (List.finRange 7).foldl (fun mem k => listInit mem (freeList D k)) mem

def mallocStart (mem : Words) : MallocState where
  mem := mallocInit D mem
  arenas := []
  live := []

def mallocMachine : Machine MallocState HeapAction :=
  .ofExec (fun s => ∃ mem, s = mallocStart D mem) (mallocExec D)

end OsLabs.Threads
