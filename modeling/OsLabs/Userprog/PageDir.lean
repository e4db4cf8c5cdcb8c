import OsLabs.Userprog.Memory
import Mathlib.Data.Nat.Bitwise

/-!
# Page directories

`userprog/pagedir.c` with `threads/pte.h`. Entries are words of pages; pages are given by their numbers, addresses of the
process by their values. `pde` and `pte` are the entries that the code makes, and the lemmas say what it reads from them. What
the processor remembers of the entries is left out.
-/

namespace OsLabs.Userprog

open Lib Threads

/-! ## Words -/

namespace Memory

/-- A page seen as an array of words. -/
def word (m : Memory) (x i : ℕ) : ℕ :=
  le32 (m.bytes x) (4 * i)

def setWord (m : Memory) (x i v : ℕ) : Memory :=
  m.setPage x (copy (m.bytes x) (4 * i) (leBytes v) 0 4)

variable {m m' : Memory} {x y i j v : ℕ}

lemma word_congr (h : m'.bytes x = m.bytes x) : m'.word x i = m.word x i := by
  unfold word
  rw [h]

lemma word_setWord_self (hv : v < 2 ^ 32) : (m.setWord x i v).word x i = v := by
  have hread : le32 (copy (m.bytes x) (4 * i) (leBytes v) 0 4) (4 * i) = le32 (leBytes v) 0 := by
    apply le32_congr
    intro k hk
    exact copy_add hk
  unfold word setWord
  rw [setPage_self, hread]
  exact le32_leBytes hv

lemma setWord_of_ne (h : y ≠ x) : (m.setWord x i v).bytes y = m.bytes y :=
  setPage_of_ne h _

lemma word_setWord_of_ne (h : j ≠ i) : (m.setWord x i v).word x j = m.word x j := by
  unfold word setWord
  rw [setPage_self]
  apply le32_congr
  intro k hk
  apply copy_of_not_mem
  omega

lemma word_zero (h : m.bytes x = fun _ => 0) : m.word x i = 0 := by
  unfold word
  rw [h]
  rfl

end Memory

/-! ## Entries -/

/-- `PHYS_BASE`. -/
def physBase : ℕ := 0xc0000000

/-- `vtop`, of the start of a page. -/
def vtop (x : ℕ) : KernelM ℕ :=
  if physBase ≤ x * 4096 then .ok (x * 4096 - physBase) else .error .pagedir

/-- `ptov`, of the start of a page. -/
def ptovPage (paddr : ℕ) : KernelM ℕ :=
  if paddr < physBase then .ok ((paddr + physBase) / 4096) else .error .pagedir

/-- `pde_create`. -/
def pdeCreate (pt : ℕ) : KernelM ℕ := do
  let paddr ← vtop pt
  return paddr ||| 4 ||| 1 ||| 2

/-- `pde_get_pt`. -/
def pdeGetPt (pde : ℕ) : KernelM ℕ :=
  if pde &&& 1 = 0 then .error .pagedir else ptovPage (pde &&& 0xfffff000)

/-- `pte_create_kernel`. -/
def pteCreateKernel (page : ℕ) (writable : Bool) : KernelM ℕ := do
  let paddr ← vtop page
  return paddr ||| 1 ||| if writable then 2 else 0

/-- `pte_create_user`. -/
def pteCreateUser (page : ℕ) (writable : Bool) : KernelM ℕ := do
  let pte ← pteCreateKernel page writable
  return pte ||| 4

/-- `pte_get_page`. -/
def pteGetPage (pte : ℕ) : KernelM ℕ :=
  ptovPage (pte &&& 0xfffff000)

/-- `pd_no`. -/
def pdNo (va : ℕ) : ℕ :=
  va / 2 ^ 22

/-- `pt_no`. -/
def ptNo (va : ℕ) : ℕ :=
  va / 4096 % 1024

/-! ## The functions -/

section Code

variable (R : Ram) (env : ℕ → Option ℕ)

/-- `pagedir_create`. -/
def pagedirCreate (m : Memory) : Option ℕ × Memory :=
  match m.pallocGetPage R env .kernel false with
  | (none, m) => (none, m)
  | (some pd, m) => (some pd, m.setPage pd (m.bytes R.initPageDir))

/-- `lookup_page`: the page table and the index in it. -/
def lookupPage (m : Memory) (pd vaddr : ℕ) (create : Bool) : KernelM (Option (ℕ × ℕ) × Memory) :=
  if create && !(vaddr < physBase) then .error .pagedir
  else if m.word pd (pdNo vaddr) = 0 then
    if create then
      match m.pallocGetPage R env .kernel true with
      | (none, m) => .ok (none, m)
      | (some pt, m) => do
        let pde ← pdeCreate pt
        let m := m.setWord pd (pdNo vaddr) pde
        let pt ← pdeGetPt (m.word pd (pdNo vaddr))
        return (some (pt, ptNo vaddr), m)
    else .ok (none, m)
  else do
    let pt ← pdeGetPt (m.word pd (pdNo vaddr))
    return (some (pt, ptNo vaddr), m)

/-- `pagedir_set_page`. -/
def pagedirSetPage (m : Memory) (pd upage kpage : ℕ) (writable : Bool) : KernelM (Bool × Memory) := do
  if upage % 4096 ≠ 0 ∨ physBase ≤ upage then .error .pagedir
  else
    let paddr ← vtop kpage
    if R.initRamPages ≤ paddr / 4096 ∨ pd = R.initPageDir then .error .pagedir
    else
      match ← lookupPage R env m pd upage true with
      | (some (pt, i), m) =>
        if m.word pt i &&& 1 ≠ 0 then .error .pagedir
        else
          let pte ← pteCreateUser kpage writable
          return (true, m.setWord pt i pte)
      | (none, m) => return (false, m)

/-- `pagedir_get_page`. -/
def pagedirGetPage (m : Memory) (pd uaddr : ℕ) : KernelM (Option ℕ) := do
  if physBase ≤ uaddr then .error .pagedir
  else
    match ← lookupPage R env m pd uaddr false with
    | (some (pt, i), m) =>
      if m.word pt i &&& 1 ≠ 0 then
        let page ← pteGetPage (m.word pt i)
        return some (page * 4096 + uaddr % 4096)
      else return none
    | (none, _) => return none

/-- `pagedir_clear_page`. -/
def pagedirClearPage (m : Memory) (pd upage : ℕ) : KernelM Memory := do
  if upage % 4096 ≠ 0 ∨ physBase ≤ upage then .error .pagedir
  else
    match ← lookupPage R env m pd upage false with
    | (some (pt, i), m) => return if m.word pt i &&& 1 ≠ 0 then m.setWord pt i (m.word pt i &&& 0xfffffffe) else m
    | (none, m) => return m

/-- `pagedir_is_dirty` and `pagedir_is_accessed`, for the bit that they test. -/
def pagedirHasBit (bit : ℕ) (m : Memory) (pd vpage : ℕ) : KernelM Bool := do
  match ← lookupPage R env m pd vpage false with
  | (some (pt, i), m) => return m.word pt i &&& bit ≠ 0
  | (none, _) => return false

/-- `pagedir_set_dirty` and `pagedir_set_accessed`, for the bit that they change and the mask of the other ones. -/
def pagedirSetBit (bit mask : ℕ) (m : Memory) (pd vpage : ℕ) (on : Bool) : KernelM Memory := do
  match ← lookupPage R env m pd vpage false with
  | (some (pt, i), m) => return m.setWord pt i (if on then m.word pt i ||| bit else m.word pt i &&& mask)
  | (none, m) => return m

/-- `pagedir_is_dirty`. -/
def pagedirIsDirty (m : Memory) (pd vpage : ℕ) : KernelM Bool :=
  pagedirHasBit R env 0x40 m pd vpage

/-- `pagedir_set_dirty`. -/
def pagedirSetDirty (m : Memory) (pd vpage : ℕ) (dirty : Bool) : KernelM Memory :=
  pagedirSetBit R env 0x40 0xffffffbf m pd vpage dirty

/-- `pagedir_is_accessed`. -/
def pagedirIsAccessed (m : Memory) (pd vpage : ℕ) : KernelM Bool :=
  pagedirHasBit R env 0x20 m pd vpage

/-- `pagedir_set_accessed`. -/
def pagedirSetAccessed (m : Memory) (pd vpage : ℕ) (accessed : Bool) : KernelM Memory :=
  pagedirSetBit R env 0x20 0xffffffdf m pd vpage accessed

/-- The inner loop of `pagedir_destroy`: the frames of a page table. -/
def freeFrames (m : Memory) (pt : ℕ) : KernelM Memory :=
  (List.range 1024).foldlM (fun m i => do
    if m.word pt i &&& 1 ≠ 0 then
      let page ← pteGetPage (m.word pt i)
      m.pallocFreePage R page
    else return m) m

/-- The outer loop of `pagedir_destroy`. -/
def freeTables (m : Memory) (pd : ℕ) : KernelM Memory :=
  (List.range (pdNo physBase)).foldlM (fun m i => do
    if m.word pd i &&& 1 ≠ 0 then
      let pt ← pdeGetPt (m.word pd i)
      let m ← freeFrames R m pt
      m.pallocFreePage R pt
    else return m) m

/-- `pagedir_destroy`. -/
def pagedirDestroy (m : Memory) : Option ℕ → KernelM Memory
  | none => .ok m
  | some pd =>
    if pd = R.initPageDir then .error .pagedir
    else do
      let m ← freeTables R m pd
      m.pallocFreePage R pd

end Code

/-! ## What entries say -/

lemma and_addr {e : ℕ} (he : e < 2 ^ 32) : e &&& 0xfffff000 = e / 4096 * 4096 := by
  have hmask : (0xfffff000 : ℕ) = (2 ^ 20 - 1) <<< 12 := by decide
  have hround : e / 4096 * 4096 = (e >>> 12) <<< 12 := by
    rw [Nat.shiftLeft_eq, Nat.shiftRight_eq_div_pow]
  rw [hmask, hround]
  apply Nat.eq_of_testBit_eq
  intro i
  rw [Nat.testBit_and, Nat.testBit_shiftLeft, Nat.testBit_shiftLeft, Nat.testBit_two_pow_sub_one,
    Nat.testBit_shiftRight]
  by_cases hi : 12 ≤ i
  · rw [show 12 + (i - 12) = i by omega]
    by_cases hlt : i - 12 < 20
    · simp [hi, hlt]
    · have hzero : e.testBit i = false :=
        Nat.testBit_lt_two_pow (he.trans_le (Nat.pow_le_pow_right (by omega) (by omega)))
      simp [hzero]
  · simp [hi]

lemma or_flags (a : ℕ) {b : ℕ} (hb : b < 4096) : a * 4096 ||| b = a * 4096 + b := by
  rw [Nat.mul_comm]
  exact (Nat.two_pow_add_eq_or_of_lt (i := 12) hb a).symm

/-- An entry of a directory. -/
def pde : Option ℕ → ℕ
  | none => 0
  | some t => (t - 0xc0000) * 4096 + 7

/-- An entry of a page table. -/
def pte : Option (ℕ × Bool) → ℕ
  | none => 0
  | some (f, w) => (f - 0xc0000) * 4096 + if w then 7 else 5

/-- The page is one that entries can point to. -/
def InRam (x : ℕ) : Prop :=
  0xc0000 ≤ x ∧ x < 0xc4000

section Entries

variable {x : ℕ} {w : Bool}

lemma InRam.vtop (h : InRam x) : vtop x = .ok ((x - 0xc0000) * 4096) := by
  obtain ⟨hlo, hhi⟩ := h
  have hle : physBase ≤ x * 4096 := by
    unfold physBase
    omega
  have hsub : x * 4096 - physBase = (x - 0xc0000) * 4096 := by
    unfold physBase
    omega
  rw [Userprog.vtop, if_pos hle, hsub]

lemma InRam.ptovPage (h : InRam x) {e flags : ℕ} (he : e = (x - 0xc0000) * 4096 + flags) (hflags : flags < 4096) :
    ptovPage (e &&& 0xfffff000) = .ok x := by
  obtain ⟨hlo, hhi⟩ := h
  have hlt : e / 4096 * 4096 < physBase := by
    unfold physBase
    omega
  have hpage : (e / 4096 * 4096 + physBase) / 4096 = x := by
    unfold physBase
    omega
  rw [and_addr (by omega), Userprog.ptovPage, if_pos hlt, hpage]

lemma pde_lt (h : InRam x) : pde (some x) < 2 ^ 32 := by
  obtain ⟨hlo, hhi⟩ := h
  show (x - 0xc0000) * 4096 + 7 < 2 ^ 32
  omega

lemma pte_lt (h : InRam x) : pte (some (x, w)) < 2 ^ 32 := by
  obtain ⟨hlo, hhi⟩ := h
  cases w <;> simp only [pte, if_true, if_false, Bool.false_eq_true] <;> omega

lemma pdeCreate_eq (h : InRam x) : pdeCreate x = .ok (pde (some x)) := by
  unfold pdeCreate
  rw [h.vtop, except_ok_bind, Nat.or_assoc, Nat.or_assoc]
  exact congrArg Except.ok (or_flags _ (by decide))

lemma pteCreateUser_eq (h : InRam x) : pteCreateUser x w = .ok (pte (some (x, w))) := by
  unfold pteCreateUser pteCreateKernel
  rw [h.vtop, except_ok_bind, except_pure, except_ok_bind, Nat.or_assoc, Nat.or_assoc]
  cases w with
  | false => exact congrArg Except.ok (or_flags _ (by decide))
  | true => exact congrArg Except.ok (or_flags _ (by decide))

lemma pde_present (t : Option ℕ) : pde t &&& 1 ≠ 0 ↔ t.isSome = true := by
  cases t with
  | none => simp [pde]
  | some t =>
    have hodd : ((t - 0xc0000) * 4096 + 7) % 2 = 1 := by omega
    simp [pde, hodd]

lemma pte_present (f : Option (ℕ × Bool)) : pte f &&& 1 ≠ 0 ↔ f.isSome = true := by
  cases f with
  | none => simp [pte]
  | some f =>
    obtain ⟨x, w⟩ := f
    have hodd : ((x - 0xc0000) * 4096 + if w then 7 else 5) % 2 = 1 := by
      cases w
      · show ((x - 0xc0000) * 4096 + 5) % 2 = 1
        omega
      · show ((x - 0xc0000) * 4096 + 7) % 2 = 1
        omega
    simp [pte, hodd]

lemma pde_none : pde none = 0 := rfl

lemma pde_ne_zero (t : ℕ) : pde (some t) ≠ 0 :=
  Nat.succ_ne_zero _

lemma pte_ne_zero (f : ℕ × Bool) : pte (some f) ≠ 0 := by
  obtain ⟨x, w⟩ := f
  cases w <;> exact Nat.succ_ne_zero _

lemma pdeGetPt_pde (h : InRam x) : pdeGetPt (pde (some x)) = .ok x := by
  have hpresent : ¬(pde (some x) &&& 1 = 0) := (pde_present (some x)).mpr rfl
  unfold pdeGetPt
  rw [if_neg hpresent]
  exact h.ptovPage rfl (by decide)

end Entries

/-! ## Indices -/

lemma pdNo_lt {va : ℕ} (hva : va < physBase) : pdNo va < 768 := by
  unfold pdNo
  unfold physBase at hva
  omega

lemma index_eq (va : ℕ) : 1024 * pdNo va + ptNo va = va / 4096 := by
  unfold pdNo ptNo
  omega

lemma pdNo_eq (va : ℕ) : pdNo va = va / 4096 / 1024 := by
  unfold pdNo
  omega

lemma ptNo_lt (va : ℕ) : ptNo va < 1024 :=
  Nat.mod_lt _ (by omega)

end OsLabs.Userprog
