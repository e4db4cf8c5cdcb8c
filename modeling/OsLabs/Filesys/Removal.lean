import Mathlib.Data.List.Perm.Subperm
import OsLabs.Filesys.Contract

/-!
# Files that are removed while they are open

`filesys_remove` takes the name away, and the sectors stay in use until the last handle is closed. `Lingers w n a` is the
state of such a file in between; every call keeps it as long as a handle is left (`Lingers.run`). `removed_file_intact`
follows the bytes of the file from any time it had its name to the last close.
-/

namespace OsLabs.Filesys

open Lib LibKernel

namespace World

variable {w w' : World} {op : Op} {ops : List Op} {n a h : ℕ} {ino : Inode} {file : File} {name : CStr}

/-! ## Runs -/

/-- What the calls of a run write to the inode in sector `n`. -/
def writesTo (n : ℕ) (w : World) (ops : List Op) : List (Write UInt8) :=
  (machine.history w ops).filterMap fun x => x.1.written n x.2

lemma writesTo_snoc {r : World} (hrun : machine.run w ops = some r) (n : ℕ) (op : Op) :
    writesTo n w (ops ++ [op]) = writesTo n w ops ++ (r.written n op).toList :=
  machine.filterMap_history_snoc hrun op _

/-- What a run keeps: the invariant, and the open inodes. -/
lemma run_valid (hv : w.Valid) (hrun : machine.run w ops = some w') : w'.Valid ∧ Tracks w.fs w'.fs := by
  refine machine.run_induction ⟨hv, .refl w.fs⟩ ?_ hrun
  intro ops r op t _ hr hstep
  have hgoes := goes_of_step hr.1 hstep
  exact ⟨hgoes.valid, hr.2.trans hv.good.inv.table hgoes.tracks⟩

/-- A file that is alive all the time has what was written to it. -/
lemma run_contents (hv : w.Valid) (hrun : machine.run w ops = some w') (hfile : 2 ≤ n)
    (halive : ∀ x ∈ machine.history w ops, n ∈ x.1.fs.live) (hn : n ∈ w'.fs.live) :
    w'.fs.disk.header n = w.fs.disk.header n ∧
      ∀ p : ℕ, p < (w.fs.disk.header n).length →
        w'.fs.disk.byte n p = afterWrites (w.fs.disk.byte n) (writesTo n w ops) p := by
  refine machine.run_induction ?_ ?_ hrun halive hn
  · intro _ _
    exact ⟨rfl, fun _ _ => rfl⟩
  · intro ops r op t hr ih hstep halive ht
    rw [machine.history_snoc hr] at halive
    have hlive : n ∈ r.fs.live := halive (r, op) (by simp)
    obtain ⟨hheader, hbytes⟩ := ih (fun x hx => halive x (List.mem_append_left _ hx)) hlive
    obtain ⟨hheader', hbytes'⟩ := (goes_of_step (run_valid hv hr).1 hstep).contents n hlive ht hfile
    refine ⟨hheader'.trans hheader, fun p hp => ?_⟩
    -- the last call writes over what the others have left
    rw [hbytes' p (by rw [hheader]; exact hp), afterWrites_congr (hbytes p hp), writesTo_snoc hr, afterWrites_append]

/-- An inode that is open at the end was open all the time: its address is not used again. -/
lemma run_open (hv : w.Valid) (hino : w.fs.inodes a = some ino) (hrun : machine.run w ops = some w') {ino' : Inode}
    (hino' : w'.fs.inodes a = some ino') : ∀ x ∈ machine.history w ops, ino.sector ∈ x.1.fs.live := by
  refine machine.run_induction ?_ ?_ hrun ino' hino'
  · intro _ _ x hx
    cases hx
  · intro ops r op t hr ih hstep j' hj' x hx
    obtain ⟨hvr, htracks⟩ := run_valid hv hr
    -- the inode was open before the last call
    obtain ⟨j, hj⟩ : ∃ j, r.fs.inodes a = some j := by
      rcases (goes_of_step hvr hstep).tracks.fresh a j' hj' with hopen | hnew
      · exact hopen
      · have hlt := hv.good.inv.table.lt_next hino
        have hnext := htracks.next
        omega
    rw [machine.history_snoc hr] at hx
    rcases List.mem_append.mp hx with hx | hx
    · exact ih j hj x hx
    · obtain rfl : x = (r, op) := by simpa using hx
      exact Or.inr (Or.inr ⟨a, j, hj, (htracks.kept a ino j hino hj).1⟩)

/-! ## A file without a name -/

/-- Only handles point to the inode of a file. -/
lemma Valid.refs_of_file (hv : w.Valid) (hino : w.fs.inodes a = some ino) (hsector : ino.sector ≠ 0) :
    w.refs a = w.handles.countP (holds a) := by
  obtain ⟨b, hfile⟩ := hv.good.mounted
  obtain ⟨j, hj, hzero, _⟩ := (hv.good.inv.space.mapped _ hfile).2.inode
  have hne : b ≠ a := by
    rintro rfl
    have hj : w.fs.inodes b = some j := hj
    rw [hino] at hj
    cases hj
    exact hsector hzero
  rw [refs, hfile]
  simp [fileOpen, hne]

/-- The file in sector `n` was removed, and is open at address `a`. -/
structure Lingers (w : World) (n a : ℕ) : Prop where
  valid : w.Valid
  file : 2 ≤ n
  inode : ∃ ino, w.fs.inodes a = some ino ∧ ino.sector = n ∧ ino.removed = true

namespace Lingers

section Lingers

variable (hl : Lingers w n a)
include hl

lemma mem_live : n ∈ w.fs.live := by
  obtain ⟨ino, hino, hsector, _⟩ := hl.inode
  exact Or.inr (Or.inr ⟨a, ino, hino, hsector⟩)

lemma run (hrun : machine.run w ops = some w') (hino : w'.fs.inodes a = some ino) :
    Lingers w' n a := by
  obtain ⟨j, hj, hsector, hremoved⟩ := hl.inode
  obtain ⟨hv, htracks⟩ := run_valid hl.valid hrun
  obtain ⟨hsector', _, hremoved'⟩ := htracks.kept a j ino hj hino
  exact ⟨hv, hl.file, ino, hino, hsector'.trans hsector, hremoved' hremoved⟩

/-- No name is bound to the file. -/
lemma not_bound (v : List UInt8) : ¬w.fs.disk.Bound v n := by
  obtain ⟨ino, hino, hsector, hremoved⟩ := hl.inode
  have hfile := hl.file
  have hnone := (hl.valid.good.removed a ino hino (by omega)).mp hremoved v
  rw [hsector] at hnone
  exact hnone

/-- The files with names have other sectors. -/
lemma apart {v : List UInt8} {m : ℕ} (hm : w.fs.disk.Bound v m) :
    m ≠ n ∧ ∀ x, w.fs.disk.Owns m x → ¬w.fs.disk.Owns n x := by
  have hne : m ≠ n := by
    rintro rfl
    exact hl.not_bound v hm
  refine ⟨hne, fun x hmx hnx => hne ?_⟩
  exact hl.valid.good.inv.space.layout.owned.unique m (hl.valid.good.bound_mem hm) n hl.mem_live x hmx hnx

/-- Its sectors are in use. -/
lemma used {x : ℕ} (hx : w.fs.disk.Owns n x) : w.fs.freeMap.has x = true :=
  (hl.valid.good.inv.space.layout.owned.taken n hl.mem_live x hx).2

/-- No name opens the file. -/
lemma not_opened {s' : Fs} (hopen : filesysOpen w.fs name = .ok (some file, s')) :
    file.inode ≠ a := by
  obtain ⟨ino, hino, hsector, _⟩ := hl.inode
  rcases filesysOpen_spec hl.valid.good name with
    ⟨m, b, j, s'', hbound, hopen', hopened, _⟩ | ⟨s'', _, hopen', _⟩
  · rw [hopen] at hopen'
    cases hopen'
    show b ≠ a
    rintro rfl
    have hold := hopened.old_sector hl.valid.good.inv.table hino
    rw [hsector] at hold
    exact hl.not_bound _ (hold.1 ▸ hbound)
  · rw [hopen] at hopen'
    cases hopen'

/-- What the last close, or one before, does with the sectors. -/
lemma close (hf : w.fileAt h = some file) (hinode : file.inode = a) :
    ∃ w', exec w (.close h) = .ok w' ∧ ∀ x, w'.fs.freeMap.has x = true ↔
      w.fs.freeMap.has x = true ∧ ¬(w.handles.countP (holds a) = 1 ∧ w.fs.disk.Owns n x) := by
  obtain ⟨ino, hino, hsector, hremoved⟩ := hl.inode
  subst hinode
  have hx := fileAt_eq_some hf
  obtain ⟨s', hclose, _, hclosed⟩ := fileClose_spec hl.valid hx hino
  have hfile := hl.file
  have hrefs := hl.valid.refs_of_file hino (by omega)
  refine ⟨w.store s' h none, ?_, fun x => ?_⟩
  · rw [exec, onFile, hf]
    dsimp only
    rw [hclose]
    rfl
  · have hbits := hclosed.bits x
    rw [hrefs, hsector, and_iff_left hremoved] at hbits
    exact hbits

/-- What a handle reads. -/
lemma read (hinode : file.inode = a) (buffer : ℕ → UInt8) (size : ℤ) {ofs : ℤ} (hofs : 0 ≤ ofs) :
    ∃ k buffer', fileReadAt w.fs file buffer size ofs = .ok (k, buffer') ∧
      (k : ℤ) = max 0 (min size ((w.fs.disk.header n).length - ofs)) ∧
      ∀ i < k, buffer' i = w.fs.disk.byte n (ofs.toNat + i) := by
  obtain ⟨ino, hino, hsector, _⟩ := hl.inode
  obtain ⟨p, rfl⟩ := Int.eq_ofNat_of_zero_le hofs
  have hread := hl.valid.good.inv.readAt_eq hino buffer size p
  have hdata := hl.valid.good.inv.table.cached a ino hino
  rw [hsector] at hread hdata
  rw [← hinode] at hread
  refine ⟨_, _, hread, ?_, fun i hi => ?_⟩
  · rw [available, hdata]
    omega
  · rw [copy_of_mem (Nat.zero_le i) (by omega)]
    congr 1

end Lingers

end Lingers

/-- A file that is removed while it is open. -/
lemma lingers_of_remove (hv : w.Valid) (hbound : w.fs.disk.Bound name.chars n) (hino : w.fs.inodes a = some ino)
    (hsector : ino.sector = n) (hremove : exec w (.remove name) = .ok w') :
    filesysRemove w.fs name = .ok (true, w'.fs) ∧ Lingers w' n a ∧ w'.handles = w.handles ∧
      ∀ v m, w'.fs.disk.Bound v m ↔ w.fs.disk.Bound v m ∧ v ≠ name.chars := by
  have hfile := hv.good.root.file _ n hbound
  have hgoes := goes_of_exec hv hremove
  rcases filesysRemove_spec hv.good name with
    ⟨m, s', hbound', hrun, hremoved, _⟩ | ⟨s', hunbound, _⟩
  · obtain rfl := hv.good.root.oneToOne.binds_unique hbound hbound'
    rw [exec, hrun] at hremove
    cases hremove
    refine ⟨hrun, ⟨hgoes.valid, hfile, ?_⟩, rfl, hremoved.bound⟩
    rcases hremoved.inodes with ⟨b, old, hold, hat, hinodes⟩ | ⟨hclosed, _⟩
    · -- there is one inode for the sector
      obtain rfl := hv.good.inv.table.inj b a old ino hold hino (hat.trans hsector.symm)
      refine ⟨{ old with removed := true }, ?_, hat, rfl⟩
      show s'.inodes b = _
      rw [hinodes, Function.update_self]
    · exact absurd ⟨a, ino, hino, hsector⟩ hclosed
  · exact absurd hbound (hunbound n)

/-- There is a free entry after a name was removed. -/
lemma slot_of_removed (hv' : w'.Valid) (hbound : w.fs.disk.Bound name.chars n)
    (hremoved : ∀ v m, w'.fs.disk.Bound v m ↔ w.fs.disk.Bound v m ∧ v ≠ name.chars) :
    (slotPairs 16 w'.fs.disk.slot).length < 16 := by
  have hnodup := hv'.good.root.oneToOne.nodup_slotNames
  have hnew : name.chars ∉ slotNames 16 w'.fs.disk.slot := by
    intro hmem
    obtain ⟨m, hm⟩ := mem_slotNames.mp hmem
    exact ((hremoved _ m).mp hm).2 rfl
  -- the names that are left and the one that is gone were all there
  have hsub : name.chars :: slotNames 16 w'.fs.disk.slot ⊆ slotNames 16 w.fs.disk.slot := by
    intro v hmem
    rcases List.mem_cons.mp hmem with rfl | hmem
    · exact mem_slotNames.mpr ⟨n, hbound⟩
    · obtain ⟨m, hm⟩ := mem_slotNames.mp hmem
      exact mem_slotNames.mpr ⟨m, ((hremoved v m).mp hm).1⟩
  have hle := (List.subperm_of_subset (List.nodup_cons.mpr ⟨hnew, hnodup⟩) hsub).length_le
  have hbefore : (slotPairs 16 w.fs.disk.slot).length ≤ 16 := by
    have hlen := List.length_filterMap_le w.fs.disk.slot (List.range 16)
    exact hlen
  simp only [List.length_cons, slotNames, List.length_map] at hle
  omega

/-! ## The contract -/

/-- What holds as long as the file has a handle `h` left, in a run from `w₁` on. -/
structure Intact (w₁ w₂ : World) (n h : ℕ) (file : File) (m : ℕ → UInt8) : Prop where
  reads : ∀ (buffer : ℕ → UInt8) (size ofs : ℤ), 0 ≤ ofs →
    ∃ k buffer', fileReadAt w₂.fs file buffer size ofs = .ok (k, buffer') ∧
      (k : ℤ) = max 0 (min size ((w₁.fs.disk.header n).length - ofs)) ∧ ∀ i < k, buffer' i = m (ofs.toNat + i)
  used : ∀ x, w₁.fs.disk.Owns n x → w₂.fs.freeMap.has x = true
  apart : ∀ v m, w₂.fs.disk.Bound v m → m ≠ n ∧ ∀ x, w₂.fs.disk.Owns m x → ¬w₁.fs.disk.Owns n x
  hidden : ∀ (v : CStr) file' s', filesysOpen w₂.fs v = .ok (some file', s') → file'.inode ≠ file.inode
  close : ∃ w₃, exec w₂ (.close h) = .ok w₃ ∧ ∀ x, w₃.fs.freeMap.has x = true ↔
    w₂.fs.freeMap.has x = true ∧ ¬(w₂.handles.countP (holds file.inode) = 1 ∧ w₁.fs.disk.Owns n x)

/-- What is read is inside of the file. -/
lemma lt_of_read {k i : ℕ} {size length ofs : ℤ} (hk : (k : ℤ) = max 0 (min size (length - ofs))) (hofs : 0 ≤ ofs)
    (hi : i < k) : ((ofs.toNat + i : ℕ) : ℤ) < length := by
  omega

/-- What is true of a file that was removed, as long as it has a handle. -/
lemma Lingers.intact {w₀ w w₁ w₂ : World} {ops₀ ops : List Op} (hv₀ : w₀.Valid) (hv : w.Valid)
    (hrun₀ : machine.run w₀ ops₀ = some w) (halive : ∀ x ∈ machine.history w₀ ops₀, n ∈ x.1.fs.live)
    (hino : w.fs.inodes a = some ino) (hsector : ino.sector = n) (hstep : machine.step w op = some w₁)
    (hl : Lingers w₁ n a) (hrun : machine.run w₁ ops = some w₂) {file₂ : File} (hf : w₂.fileAt h = some file₂)
    (hinode : file₂.inode = a) :
    Intact w w₂ n h file₂ (lastWritten (w₀.fs.disk.byte n) (writesTo n w₀ (ops₀ ++ op :: ops))) := by
  have hv₂ := (run_valid hl.valid hrun).1
  obtain ⟨ino₂, hino₂, _⟩ := hv₂.file (fileAt_eq_some hf)
  rw [hinode] at hino₂
  have hl₂ := hl.run hrun hino₂
  -- the runs to `w` and on to `w₂`
  have hrun₁ : machine.run w (op :: ops) = some w₂ := by
    rw [machine.run_cons, hstep]
    exact hrun
  have halive₁ : ∀ x ∈ machine.history w (op :: ops), n ∈ x.1.fs.live := by
    rw [← hsector]
    exact run_open hv hino hrun₁ hino₂
  have hall : ∀ x ∈ machine.history w₀ (ops₀ ++ op :: ops), n ∈ x.1.fs.live := by
    rw [machine.history_append hrun₀]
    intro x hx
    rcases List.mem_append.mp hx with hx | hx
    · exact halive x hx
    · exact halive₁ x hx
  obtain ⟨hheader₀, hbytes⟩ := run_contents hv₀ (machine.run_append_eq_some.mpr ⟨w, hrun₀, hrun₁⟩) hl.file hall
    hl₂.mem_live
  obtain ⟨hheader, _⟩ := run_contents hv hrun₁ hl.file halive₁ hl₂.mem_live
  have howns := Disk.owns_of_header_eq hheader
  subst hinode
  refine ⟨fun buffer size ofs hofs => ?_, fun x hx => hl₂.used ((howns x).mpr hx), fun v m hm => ?_,
    fun v file' s' hopen => hl₂.not_opened hopen, ?_⟩
  · obtain ⟨k, buffer', hread, hk, hbuffer⟩ := hl₂.read rfl buffer size hofs
    rw [hheader] at hk
    refine ⟨k, buffer', hread, hk, fun i hi => ?_⟩
    have hlt := lt_of_read hk hofs hi
    rw [← hheader, hheader₀] at hlt
    rw [hbuffer i hi, hbytes (ofs.toNat + i) hlt, afterWrites_apply]
  · obtain ⟨hne, hapart⟩ := hl₂.apart hm
    exact ⟨hne, fun x hx hx' => hapart x hx ((howns x).mpr hx')⟩
  · obtain ⟨w₃, hclose, hbits⟩ := hl₂.close hf rfl
    refine ⟨w₃, hclose, fun x => ?_⟩
    rw [← howns x]
    exact hbits x

/-- From `w₀` on, the file in sector `n` has the name, until it is removed in `w` while it is open. The name opens nothing
then and can be used for a new file; and whatever is called afterwards, as long as a handle is left it reads what was
written last, the sectors are those of the file and of no other, and they become free, and no others, when the last handle
is closed. -/
theorem removed_file_intact {w₀ w w₁ : World} {ops₀ : List Op} (hw : machine.Reachable w₀)
    (hrun₀ : machine.run w₀ ops₀ = some w) (hnamed : ∀ x ∈ machine.history w₀ ops₀, x.1.fs.disk.Bound name.chars n)
    (hbound : w.fs.disk.Bound name.chars n) {h₀ : ℕ} (hf₀ : w.fileAt h₀ = some file) (hon : w.isOn n file = true)
    (hremove : exec w (.remove name) = .ok w₁) :
    filesysRemove w.fs name = .ok (true, w₁.fs) ∧
    (∃ s', filesysOpen w₁.fs name = .ok (none, s')) ∧
    (∀ size : ℤ, 0 ≤ size → size < 2 ^ 31 → w₁.fs.HasRoom size →
      ∃ s' m, filesysCreate w₁.fs name size = .ok (true, s') ∧ s'.disk.Bound name.chars m ∧ m ≠ n ∧
        ∀ x, s'.disk.Owns m x → ¬w.fs.disk.Owns n x) ∧
    ∀ ops w₂ h file₂, machine.run w₁ ops = some w₂ → w₂.fileAt h = some file₂ → file₂.inode = file.inode →
      Intact w w₂ n h file₂ (lastWritten (w₀.fs.disk.byte n) (writesTo n w₀ (ops₀ ++ .remove name :: ops))) := by
  have hv₀ := reachable_valid hw
  have hv := (run_valid hv₀ hrun₀).1
  obtain ⟨ino, hino, _⟩ := hv.file (fileAt_eq_some hf₀)
  have hsector : ino.sector = n := by
    rw [isOn, hino] at hon
    simpa using hon
  have halive : ∀ x ∈ machine.history w₀ ops₀, n ∈ x.1.fs.live := by
    intro x hx
    exact Or.inr (Or.inl ⟨_, hnamed x hx⟩)
  obtain ⟨hremove', hl, hhandles, hafter⟩ := lingers_of_remove hv hbound hino hsector hremove
  have hintact : ∀ ops w₂ h file₂, machine.run w₁ ops = some w₂ → w₂.fileAt h = some file₂ →
      file₂.inode = file.inode →
      Intact w w₂ n h file₂ (lastWritten (w₀.fs.disk.byte n) (writesTo n w₀ (ops₀ ++ .remove name :: ops))) :=
    fun ops w₂ h file₂ hrun hf hinode =>
      hl.intact hv₀ hv hrun₀ halive hino hsector (Machine.ofExec_step.mpr hremove) hrun hf hinode
  have hunbound : ∀ m, ¬w₁.fs.disk.Bound name.chars m := by
    intro m hm
    exact ((hafter _ m).mp hm).2 rfl
  refine ⟨hremove', ?_, fun size hnonneg hlt hroom => ?_, hintact⟩
  · rcases filesysOpen_spec hl.valid.good name with ⟨m, _, _, _, hm, _⟩ | ⟨s', _, hopen, _⟩
    · exact absurd hm (hunbound m)
    · exact ⟨s', hopen⟩
  · obtain ⟨b, s', hcreate, htrue, hadded, _⟩ := create_map hl.valid name hnonneg hlt
    obtain rfl : b = true :=
      htrue.mpr ⟨hv.good.root.validName hbound, hunbound, slot_of_removed hl.valid hbound hafter, hroom⟩
    obtain ⟨m, _, _, hbound'⟩ := hadded rfl
    have hm : s'.disk.Bound name.chars m := (hbound' _ m).mpr (Or.inl ⟨rfl, rfl⟩)
    -- the new file is one of those that are created while the handle is open
    have hexec : exec w₁ (.create name size) = .ok { w₁ with fs := s' } := by
      rw [exec, if_pos ⟨hnonneg, hlt⟩, hcreate]
      rfl
    have hrun : machine.run w₁ [.create name size] = some { w₁ with fs := s' } := by
      rw [machine.run_cons, show machine.step w₁ (.create name size) = _ from Machine.ofExec_step.mpr hexec]
      rfl
    have hf : World.fileAt { w₁ with fs := s' } h₀ = some file := by
      unfold fileAt at hf₀ ⊢
      rw [← hhandles] at hf₀
      exact hf₀
    obtain ⟨hne, hapart⟩ := (hintact _ _ h₀ file hrun hf rfl).apart _ m hm
    exact ⟨s', m, hcreate, hm, hne, hapart⟩

/-- A file of 600 bytes that is open. -/
def opened : World :=
  after [.create nameA 600, .openFile nameA]

lemma opened_reachable : machine.Reachable opened :=
  after_reachable _

lemma opened_remove : exec opened (.remove nameA) = .ok openRemoved :=
  exec_after (by decide +kernel)

/-- It is removed, and stays what it is for its handle. -/
theorem removed_file_intact_opened :
    filesysRemove opened.fs nameA = .ok (true, openRemoved.fs) ∧
    Intact opened openRemoved 4 0 ⟨4, 0, false⟩
      (lastWritten (opened.fs.disk.byte 4) (writesTo 4 opened [.remove nameA])) := by
  have hbound : opened.fs.disk.Bound nameA.chars 4 := ⟨0, by omega, by decide +kernel⟩
  have hfile : opened.fileAt 0 = some ⟨4, 0, false⟩ := by decide +kernel
  have hfile' : openRemoved.fileAt 0 = some ⟨4, 0, false⟩ := by decide +kernel
  have hon : opened.isOn 4 ⟨4, 0, false⟩ = true := by decide +kernel
  have hall := removed_file_intact opened_reachable (machine.run_nil opened) (fun x hx => absurd hx List.not_mem_nil)
    hbound hfile hon opened_remove
  exact ⟨hall.1, hall.2.2.2 [] openRemoved 0 ⟨4, 0, false⟩ (machine.run_nil openRemoved) hfile' rfl⟩

end World

end OsLabs.Filesys
