import OsLabs.Filesys.OpenFiles
import OsLabs.Lib.Machine

/-!
# The file system and its clients

The state has the file system and the handles its clients hold: what `filesys_open`, `file_reopen` and `dir_open_root`
returned. A step is one call; a call with a handle that is not open is no step, and a failed assertion is a fault.

In a `Valid` state, the number of pointers to each open inode is the number of handles on it, and so is the number of
times that writes to it are denied. Every call from a valid state returns, in a valid state (`exec_spec`).
-/

namespace OsLabs.Filesys

open Lib LibKernel Function

/-- What a client holds: a `struct file *` or a `struct dir *`. -/
inductive Handle where
  | file (f : File)
  | dir (d : Dir)

namespace Handle

/-- The inode of a handle. -/
def inode : Handle → ℕ
  | .file f => f.inode
  | .dir d => d.inode

/-- The handle denies writes. -/
def denies : Handle → Bool
  | .file f => f.denyWrite
  | .dir _ => false

/-- The handle is one on an inode in sector `n`. -/
def Fits (n : ℕ) : Handle → Prop
  | .file f => 2 ≤ n ∧ 0 ≤ f.pos
  | .dir d => n = 1 ∧ ∃ i ≤ 16, d.pos = (20 * i : ℕ)

end Handle

/-- The file system and the handles. A closed handle is not used again. -/
structure World where
  fs : Fs
  handles : List (Option Handle)

/-- The calls. Handles are numbered in the order they were opened. -/
inductive Op where
  | create (name : CStr) (size : ℤ)
  | remove (name : CStr)
  | openFile (name : CStr)
  | reopen (h : ℕ)
  | close (h : ℕ)
  | read (h : ℕ) (buffer : ℕ → UInt8) (size : ℤ)
  | write (h : ℕ) (buffer : ℕ → UInt8) (size : ℤ)
  | readAt (h : ℕ) (buffer : ℕ → UInt8) (size ofs : ℤ)
  | writeAt (h : ℕ) (buffer : ℕ → UInt8) (size ofs : ℤ)
  | seek (h : ℕ) (pos : ℤ)
  | denyWrite (h : ℕ)
  | allowWrite (h : ℕ)
  | openRoot
  | readdir (h : ℕ)
  | closeDir (h : ℕ)

namespace World

/-- The open file of a handle. -/
def fileAt (w : World) (h : ℕ) : Option File :=
  match w.handles[h]? with
  | some (some (.file f)) => some f
  | _ => none

/-- The open directory of a handle. -/
def dirAt (w : World) (h : ℕ) : Option Dir :=
  match w.handles[h]? with
  | some (some (.dir d)) => some d
  | _ => none

/-- A call of the file system. -/
def call (r : Except Panic World) : Except (Halt Panic) World :=
  r.mapError .fault

/-- A call with an open file. -/
def onFile (w : World) (h : ℕ) (f : File → Except Panic World) : Except (Halt Panic) World :=
  match w.fileAt h with
  | some file => call (f file)
  | none => .error .disabled

/-- A call with an open directory. -/
def onDir (w : World) (h : ℕ) (f : Dir → Except Panic World) : Except (Halt Panic) World :=
  match w.dirAt h with
  | some dir => call (f dir)
  | none => .error .disabled

/-- A new handle. -/
def push (w : World) (fs : Fs) (x : Handle) : World :=
  ⟨fs, w.handles ++ [some x]⟩

/-- Another value for a handle. -/
def store (w : World) (fs : Fs) (h : ℕ) (o : Option Handle) : World :=
  ⟨fs, w.handles.set h o⟩

/-- One call. Sizes of new files are those of `off_t`, and positions are not negative. -/
def exec (w : World) : Op → Except (Halt Panic) World
  | .create name size =>
    if 0 ≤ size ∧ size < 2 ^ 31 then call do
      let (_, fs) ← filesysCreate w.fs name size
      return { w with fs }
    else .error .disabled
  | .remove name => call do
    let (_, fs) ← filesysRemove w.fs name
    return { w with fs }
  | .openFile name => call do
    match ← filesysOpen w.fs name with
    | (some file, fs) => return w.push fs (.file file)
    | (none, fs) => return { w with fs }
  | .reopen h => w.onFile h fun file => do
    let (file, fs) ← fileReopen w.fs file
    return w.push fs (.file file)
  | .close h => w.onFile h fun file => do
    let fs ← fileClose w.fs file
    return w.store fs h none
  | .read h buffer size => w.onFile h fun file => do
    let (_, _, file) ← fileRead w.fs file buffer size
    return w.store w.fs h (some (.file file))
  | .write h buffer size => w.onFile h fun file => do
    let (_, file, fs) ← fileWrite w.fs file buffer size
    return w.store fs h (some (.file file))
  | .readAt h buffer size ofs =>
    if 0 ≤ ofs then w.onFile h fun file => do
      let _ ← fileReadAt w.fs file buffer size ofs
      return w
    else .error .disabled
  | .writeAt h buffer size ofs =>
    if 0 ≤ ofs then w.onFile h fun file => do
      let (_, fs) ← fileWriteAt w.fs file buffer size ofs
      return { w with fs }
    else .error .disabled
  | .seek h pos =>
    if 0 ≤ pos then w.onFile h fun file => do
      let file ← fileSeek file pos
      return w.store w.fs h (some (.file file))
    else .error .disabled
  | .denyWrite h => w.onFile h fun file => do
    let (file, fs) ← fileDenyWrite w.fs file
    return w.store fs h (some (.file file))
  | .allowWrite h => w.onFile h fun file => do
    let (file, fs) ← fileAllowWrite w.fs file
    return w.store fs h (some (.file file))
  | .openRoot => call do
    let (dir, fs) ← dirOpenRoot w.fs
    return w.push fs (.dir dir)
  | .readdir h => w.onDir h fun dir => do
    let (_, dir) ← dirReaddir w.fs dir fun _ => true
    return w.store w.fs h (some (.dir dir))
  | .closeDir h => w.onDir h fun dir => do
    let fs ← dirClose w.fs dir
    return w.store fs h none

/-- A freshly formatted file system that nobody has used. -/
def Formatted (w : World) : Prop :=
  ∃ disk junk, filesysInit (Fs.boot disk) junk true = .ok w.fs ∧ w.handles = []

/-- The calls on a formatted file system. -/
def machine : Machine World Op :=
  .ofExec Formatted exec

/-! ## Counting -/

/-- A handle on the inode at `a`. -/
def holds (a : ℕ) (o : Option Handle) : Bool :=
  o.any fun x => x.inode = a

/-- A handle on the inode at `a` that denies writes. -/
def denying (a : ℕ) (o : Option Handle) : Bool :=
  o.any fun x => x.inode = a && x.denies

/-- Who holds a pointer to the inode at `a`: the handles, and the file of the free map. -/
def refs (w : World) (a : ℕ) : ℕ :=
  w.handles.countP (holds a) + (w.fs.freeMapFile.any fun f => f.inode = a).toNat

/-- How many handles deny writes to the inode at `a`. -/
def denials (w : World) (a : ℕ) : ℕ :=
  w.handles.countP (denying a)

variable {w : World} {s' : Fs} {x x' : Handle} {h a : ℕ}

lemma countP_store {α : Type*} (p : α → Bool) {l : List α} {i : ℕ} {o : α} (hi : l[i]? = some o) (o' : α) :
    (l.set i o').countP p + (p o).toNat = l.countP p + (p o').toNat := by
  obtain ⟨hlt, hget⟩ := List.getElem?_eq_some_iff.mp hi
  have hpos : p o = true → 0 < l.countP p := by
    intro hp
    exact List.countP_pos_iff.mpr ⟨o, List.mem_of_getElem? hi, hp⟩
  rw [List.countP_set hlt, hget]
  cases hp : p o
  · cases p o' <;> simp
  · have := hpos hp
    cases p o' <;> simp <;> omega

lemma refs_push (hfile : s'.freeMapFile = w.fs.freeMapFile) (x : Handle) :
    (w.push s' x).refs = update w.refs x.inode (w.refs x.inode + 1) := by
  funext a
  by_cases ha : a = x.inode
  · subst ha
    rw [refs, refs, push, hfile]
    simp [holds]
    omega
  · rw [update_of_ne ha, refs, refs, push, hfile]
    simp [holds, Ne.symm ha]

lemma denials_push (w : World) (s' : Fs) (hdenies : x.denies = false) : (w.push s' x).denials = w.denials := by
  funext a
  rw [denials, denials, push]
  simp [denying, hdenies]

/-- Who denies writes holds a pointer. -/
lemma denials_le_refs (w : World) (a : ℕ) : w.denials a ≤ w.refs a := by
  have hle : w.handles.countP (denying a) ≤ w.handles.countP (holds a) := by
    apply List.countP_mono_left
    intro o _ hdeny
    cases o with
    | none => exact hdeny
    | some y =>
      simp only [denying, Option.any_some, Bool.and_eq_true] at hdeny ⊢
      exact hdeny.1
  rw [denials, refs]
  omega

section Taken

variable (hx : w.handles[h]? = some (some x))
include hx

lemma refs_store (hfile : s'.freeMapFile = w.fs.freeMapFile) (hinode : x'.inode = x.inode) :
    (w.store s' h (some x')).refs = w.refs := by
  funext a
  have hcount := countP_store (holds a) hx (some x')
  have hsame : holds a (some x') = holds a (some x) := by
    simp [holds, hinode]
  rw [hsame] at hcount
  rw [refs, refs, store, hfile]
  dsimp only
  omega

lemma refs_drop (hfile : s'.freeMapFile = w.fs.freeMapFile) :
    (w.store s' h none).refs = update w.refs x.inode (w.refs x.inode - 1) := by
  funext a
  have hcount := countP_store (holds a) hx none
  by_cases ha : a = x.inode
  · subst ha
    rw [update_self, refs, refs, store, hfile]
    simp only [holds, Option.any_some, Option.any_none, decide_true, Bool.toNat_true, Bool.toNat_false] at hcount ⊢
    omega
  · have hne : x.inode ≠ a := Ne.symm ha
    rw [update_of_ne ha, refs, refs, store, hfile]
    simp only [holds, Option.any_some, Option.any_none, hne, decide_false] at hcount ⊢
    omega

lemma denials_store (s' : Fs) (hinode : x'.inode = x.inode) (a : ℕ) :
    (w.store s' h (some x')).denials a + (x.inode = a && x.denies).toNat =
      w.denials a + (x.inode = a && x'.denies).toNat := by
  have hcount := countP_store (denying a) hx (some x')
  simp only [denying, Option.any_some, hinode] at hcount
  exact hcount

lemma denials_drop (s' : Fs) (hdenies : x.denies = false) :
    (w.store s' h none).denials = w.denials := by
  funext a
  have hcount := countP_store (denying a) hx none
  simp only [denying, Option.any_some, Option.any_none, hdenies, Bool.and_false, Bool.toNat_false,
    Nat.add_zero] at hcount
  exact hcount

/-- Another handle on the same inode. -/
lemma one_lt_refs {y : Handle} (hy : some y ∈ w.handles.set h none)
    (hinode : y.inode = x.inode) : 1 < w.refs x.inode := by
  have hcount := countP_store (holds x.inode) hx none
  have hpos : 0 < (w.handles.set h none).countP (holds x.inode) :=
    List.countP_pos_iff.mpr ⟨some y, hy, by simp [holds, hinode]⟩
  have hself : holds x.inode (some x) = true := by simp [holds]
  have hnone : holds x.inode none = false := rfl
  rw [hself, hnone, Bool.toNat_true, Bool.toNat_false] at hcount
  rw [refs]
  omega

/-- A handle that denies writes is counted. -/
lemma denials_pos (hdenies : x.denies = true) : 0 < w.denials x.inode :=
  List.countP_pos_iff.mpr ⟨some x, List.mem_of_getElem? hx, by simp [denying, hdenies]⟩

/-- A handle that does not deny writes is not among those that do. -/
lemma denials_lt_refs (hdenies : x.denies = false) :
    w.denials x.inode < w.refs x.inode := by
  have hle := denials_le_refs (w.store w.fs h none) x.inode
  rw [denials_drop hx w.fs hdenies, refs_drop hx rfl, update_self] at hle
  have hpos : 0 < w.handles.countP (holds x.inode) :=
    List.countP_pos_iff.mpr ⟨some x, List.mem_of_getElem? hx, by simp [holds]⟩
  have hrefs : 0 < w.refs x.inode := by
    rw [refs]
    omega
  omega

end Taken

end World

end OsLabs.Filesys
