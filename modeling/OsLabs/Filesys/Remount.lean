import OsLabs.Filesys.Contract

/-!
# Unmounting and mounting again

When all handles are closed, the device has everything: `filesys_done` and then `filesys_init` give back the free map, the
names and the files (`remount_preserves`), in the same kernel or after a restart.
-/

namespace OsLabs.Filesys

open Lib LibKernel Function

variable {s s' : Fs} {live : Set ℕ} {used : ℕ → Bool}

/-! ## The device at rest -/

/-- The device says all that matters of a file system that is not mounted. -/
lemma Unmounted.congr (h : Unmounted s live used) (hdisk : s'.disk = s.disk) (htable : Table s' live fun _ => 0)
    (hbits : s'.freeMap.bitCnt = s'.disk.size) : Unmounted s' live used := by
  refine ⟨htable, hbits, ?_, h.zero, ?_, ?_⟩
  · rw [hdisk]
    exact h.layout
  · rw [hdisk]
    exact h.length
  · rw [hdisk]
    exact h.synced

/-- `filesys_init`, without a format. -/
lemma filesysInit_spec (h : Unmounted s s.disk.named used) (hroot : Root s.disk) (junk : ℕ → BitVec 32)
    (hs : s' = s ∨ s' = Fs.boot s.disk) :
    ∃ s'', filesysInit s' junk false = .ok s'' ∧ s''.disk = s.disk ∧ s''.freeMap.bitCnt = s.disk.size ∧
      (∀ x < s.disk.size, s''.freeMap.has x = used x) ∧ World.Valid ⟨s'', []⟩ := by
  have hdisk : s'.disk = s.disk := by
    rcases hs with rfl | rfl
    · rfl
    · rfl
  obtain ⟨b, hinit, hbits, _⟩ := freeMapInit_spec { s' with openInodes := [] } junk
  let s₁ : Fs := { s' with openInodes := [], freeMap := b }
  have htable : Table s₁ s.disk.named fun _ => 0 := by
    rcases hs with rfl | rfl
    · exact h.table.congr h.table.none_open.2.symm rfl rfl fun _ _ => rfl
    · have hboot : Table s₁ ∅ fun _ => 0 := (boot_inv s.disk hbits).table
      exact hboot.grow (Set.empty_subset _)
  have hun : Unmounted s₁ s₁.disk.named used := by
    rw [show s₁.disk = s.disk from hdisk]
    exact h.congr hdisk htable hbits
  have hroot₁ : Root s₁.disk := by
    rw [show s₁.disk = s.disk from hdisk]
    exact hroot
  obtain ⟨s'', hopen, hdisk'', hcnt, hhas, hvalid⟩ := mount_spec hun hroot₁
  rw [show s₁.disk = s.disk from hdisk] at hdisk'' hcnt hhas
  refine ⟨s'', ?_, hdisk'', hcnt, hhas, hvalid⟩
  rw [filesysInit]
  rw [hinit]
  exact hopen

namespace World

variable {w : World} {name : CStr} {file : File} {s' : Fs}

/-- Without handles, only the inode of the free map is open. -/
lemma Valid.idle (hv : w.Valid) (hclosed : ∀ o ∈ w.handles, o = none) :
    ∃ a, w.fs.freeMapFile = some (fileOpen a) ∧ Inv w.fs w.fs.disk.named (update (fun _ => 0) a 1) := by
  obtain ⟨a, hfile⟩ := hv.good.mounted
  have hcount : ∀ b, w.handles.countP (holds b) = 0 := by
    intro b
    rw [List.countP_eq_zero]
    intro o ho
    rw [hclosed o ho]
    exact Bool.false_ne_true
  have hrefs : w.refs = update (fun _ => 0) a 1 := by
    funext b
    rw [refs, hcount, hfile]
    by_cases hba : b = a
    · simp [hba, fileOpen]
    · simp [hba, fileOpen, Ne.symm hba]
  have hinv := hv.good.inv
  rw [hrefs] at hinv
  have hlive : w.fs.live = w.fs.disk.named := by
    ext m
    constructor
    · rintro (hm | hm | ⟨b, j, hj, rfl⟩)
      · exact Or.inl hm
      · exact Or.inr hm
      · -- an open inode has a pointer to it, and there is only that of the free map
        have hpos := (hinv.table.count b j hj).2
        have hba : b = a := by
          by_contra hne
          rw [update_of_ne hne] at hpos
          exact absurd hpos (Nat.lt_irrefl 0)
        obtain ⟨i, hi, hzero, _⟩ := (hinv.space.mapped _ hfile).2.inode
        have hi : w.fs.inodes a = some i := hi
        rw [hba, hi] at hj
        cases hj
        exact Or.inl (by omega)
    · rintro (hm | hm)
      · exact Or.inl hm
      · exact Or.inr (Or.inl hm)
  rw [hlive] at hinv
  exact ⟨a, hfile, hinv⟩

/-- What can be seen of a file that is opened: its length and its bytes. -/
lemma open_reads (hv : w.Valid) (hopen : filesysOpen w.fs name = .ok (some file, s')) :
    ∃ n, w.fs.disk.Bound name.chars n ∧ fileLength s' file = .ok (w.fs.disk.header n).length ∧
      ∀ (buffer : ℕ → UInt8) (size : ℤ) (p : ℕ), fileReadAt s' file buffer size p =
        .ok ((min size ((w.fs.disk.header n).length - p)).toNat,
          copy buffer 0 (w.fs.disk.byte n) p (min size ((w.fs.disk.header n).length - p)).toNat) := by
  rcases filesysOpen_spec hv.good name with
    ⟨n, a, ino, s'', hbound, hopen', hopened, hgood⟩ | ⟨s'', _, hopen', _⟩
  · rw [hopen] at hopen'
    cases hopen'
    have hino := hopened.self
    have hdata : ino.data = w.fs.disk.header n := by
      rw [hgood.inv.table.cached a ino hino, hopened.sector, hopened.disk]
    refine ⟨n, hbound, ?_, fun buffer size p => ?_⟩
    · rw [fileLength, Fs.deref, fileOpen, hino, ← hdata]
      rfl
    · have hread := hgood.inv.readAt_eq hino buffer size p
      rw [available, hdata, hopened.sector, hopened.disk] at hread
      exact hread
  · rw [hopen] at hopen'
    cases hopen'

/-- Two file systems with the same device have the same files. -/
lemma open_congr {w' : World} (hv : w.Valid) (hv' : w'.Valid) (hdisk : w'.fs.disk = w.fs.disk)
    (hopen : filesysOpen w.fs name = .ok (some file, s')) :
    ∃ file' s'', filesysOpen w'.fs name = .ok (some file', s'') ∧ fileLength s'' file' = fileLength s' file ∧
      ∀ (buffer : ℕ → UInt8) (size ofs : ℤ), 0 ≤ ofs →
        fileReadAt s'' file' buffer size ofs = fileReadAt s' file buffer size ofs := by
  obtain ⟨n, hbound, hlength, hread⟩ := open_reads hv hopen
  obtain ⟨o, s'', hopen', _, hnone, _⟩ := open_map hv' name
  cases o with
  | none =>
    rw [← hdisk] at hbound
    exact absurd hbound (hnone.mp rfl n)
  | some file' =>
    obtain ⟨m, hbound', hlength', hread'⟩ := open_reads hv' hopen'
    rw [hdisk] at hbound' hlength' hread'
    obtain rfl := hv.good.root.oneToOne.binds_unique hbound hbound'
    refine ⟨file', s'', hopen', hlength'.trans hlength.symm, fun buffer size ofs hofs => ?_⟩
    obtain ⟨p, rfl⟩ := Int.eq_ofNat_of_zero_le hofs
    exact (hread' buffer size p).trans (hread buffer size p).symm

/-! ## The contract -/

/-- When nothing is open, `filesys_done` and then `filesys_init` without a format give the same free map, the same names and
the same files. The kernel may have been restarted in between. -/
theorem remount_preserves (hw : machine.Reachable w) (hclosed : ∀ o ∈ w.handles, o = none) :
    ∃ s₁, filesysDone w.fs = .ok s₁ ∧ ∀ s₂ junk, s₂ = s₁ ∨ s₂ = Fs.boot s₁.disk →
      ∃ s₃, filesysInit s₂ junk false = .ok s₃ ∧ s₃.freeMap.bitCnt = w.fs.freeMap.bitCnt ∧
        (∀ x < w.fs.freeMap.bitCnt, s₃.freeMap.has x = w.fs.freeMap.has x) ∧
        (∀ v n, s₃.disk.Bound v n ↔ w.fs.disk.Bound v n) ∧
        ∀ name file s, filesysOpen w.fs name = .ok (some file, s) →
          ∃ file' s', filesysOpen s₃ name = .ok (some file', s') ∧ fileLength s' file' = fileLength s file ∧
            ∀ (buffer : ℕ → UInt8) (size ofs : ℤ), 0 ≤ ofs →
              fileReadAt s' file' buffer size ofs = fileReadAt s file buffer size ofs := by
  have hv := reachable_valid hw
  obtain ⟨a, hfile, hinv⟩ := hv.idle hclosed
  obtain ⟨s₁, hdone, hdisk, _, hun⟩ := freeMapClose_spec hinv hfile
  refine ⟨s₁, hdone, fun s₂ junk hs₂ => ?_⟩
  have hroot := hv.good.root
  rw [← hdisk] at hun hroot
  obtain ⟨s₃, hinit, hdisk₃, hcnt, hhas, hvalid⟩ := filesysInit_spec hun hroot junk hs₂
  rw [hdisk] at hdisk₃ hcnt hhas
  have hbits := hinv.space.bits
  refine ⟨s₃, hinit, hcnt.trans hbits.symm, ?_, fun v n => ?_, fun name file s hopen => ?_⟩
  · rw [hbits]
    exact hhas
  · rw [hdisk₃]
  · have hdisk' : (World.mk s₃ []).fs.disk = w.fs.disk := hdisk₃
    exact open_congr hv hvalid hdisk' hopen

/-- A file that was written and closed. -/
def closed : World :=
  after [.create nameA 600, .openFile nameA, .write 0 (fun _ => 7) 3, .close 0]

lemma closed_reachable : machine.Reachable closed :=
  after_reachable _

lemma closed_handles : ∀ o ∈ closed.handles, o = none := by
  have hall : closed.handles.all Option.isNone = true := by decide +kernel
  intro o ho
  exact Option.isNone_iff_eq_none.mp (List.all_eq_true.mp hall o ho)

theorem remount_preserves_closed :
    (filesysOpen closed.fs nameA).toOption.map (fun r => r.1.isSome) = some true ∧
    ∃ s₁, filesysDone closed.fs = .ok s₁ ∧ ∃ s₃, filesysInit (Fs.boot s₁.disk) (fun _ => 0) false = .ok s₃ ∧
      ∀ v n, s₃.disk.Bound v n ↔ closed.fs.disk.Bound v n := by
  obtain ⟨s₁, hdone, hmount⟩ := remount_preserves closed_reachable closed_handles
  obtain ⟨s₃, hinit, _, _, hbound, _⟩ := hmount (Fs.boot s₁.disk) (fun _ => 0) (Or.inr rfl)
  exact ⟨by decide +kernel, s₁, hdone, s₃, hinit, hbound⟩

end World

end OsLabs.Filesys
