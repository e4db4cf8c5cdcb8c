import OsLabs.Filesys.Create

/-!
# Open files

The functions on open inodes keep the invariant of the file system: one more pointer, one less, other counters, and
writes. `Tracks s s'` is what each call of the file system does with the inodes that are open: each stays where it is, with
its data on the same sectors, until it is freed, and addresses are not used again.
-/

namespace OsLabs.Filesys

open Lib LibKernel Function

variable {s s' s'' : Fs} {live : Set ℕ} {refs refs' : ℕ → ℕ} {a n : ℕ} {ino : Inode}

/-! ## What happens to an open inode -/

/-- An open inode stays what it is until it is freed, and a new one has a new address. -/
structure Tracks (s s' : Fs) : Prop where
  next : s.nextInode ≤ s'.nextInode
  fresh : ∀ b j', s'.inodes b = some j' → (∃ j, s.inodes b = some j) ∨ s.nextInode ≤ b
  kept : ∀ b j j', s.inodes b = some j → s'.inodes b = some j' →
    j'.sector = j.sector ∧ j'.data = j.data ∧ (j.removed = true → j'.removed = true)

lemma Tracks.refl (s : Fs) : Tracks s s where
  next := Nat.le_refl _
  fresh _ j' hj' := Or.inl ⟨j', hj'⟩
  kept b j j' hj hj' := by
    rw [hj] at hj'
    cases hj'
    exact ⟨rfl, rfl, id⟩

lemma Tracks.trans (t : Table s live refs) (h : Tracks s s') (h' : Tracks s' s'') : Tracks s s'' where
  next := h.next.trans h'.next
  fresh b j'' hj'' := by
    rcases h'.fresh b j'' hj'' with ⟨j', hj'⟩ | hfresh
    · exact h.fresh b j' hj'
    · exact Or.inr (h.next.trans hfresh)
  kept b j j'' hj hj'' := by
    rcases h'.fresh b j'' hj'' with ⟨j', hj'⟩ | hfresh
    · obtain ⟨hsector, hdata, hremoved⟩ := h.kept b j j' hj hj'
      obtain ⟨hsector', hdata', hremoved'⟩ := h'.kept b j' j'' hj' hj''
      exact ⟨hsector'.trans hsector, hdata'.trans hdata, fun hr => hremoved' (hremoved hr)⟩
    · -- an address that is in use is not a new one
      have := t.lt_next hj
      have := h.next
      omega

/-- What is at address `a` changes. -/
lemma Tracks.update {o : Option Inode} (hnext : s.nextInode ≤ s'.nextInode)
    (hinodes : s'.inodes = update s.inodes a o)
    (hfresh : ∀ j', o = some j' → (∃ j, s.inodes a = some j) ∨ s.nextInode ≤ a)
    (hkept : ∀ j j', s.inodes a = some j → o = some j' →
      j'.sector = j.sector ∧ j'.data = j.data ∧ (j.removed = true → j'.removed = true)) : Tracks s s' where
  next := hnext
  fresh b j' hj' := by
    rw [hinodes] at hj'
    by_cases hba : b = a
    · rw [hba, update_self] at hj'
      rw [hba]
      exact hfresh j' hj'
    · rw [update_of_ne hba] at hj'
      exact Or.inl ⟨j', hj'⟩
  kept b j j' hj hj' := by
    rw [hinodes] at hj'
    by_cases hba : b = a
    · rw [hba, update_self] at hj'
      rw [hba] at hj
      exact hkept j j' hj hj'
    · rw [update_of_ne hba, hj] at hj'
      cases hj'
      exact ⟨rfl, rfl, id⟩

lemma SameInodes.tracks (h : SameInodes s s') : Tracks s s' where
  next := h.next
  fresh b j' hj' := by
    rw [h.inodes] at hj'
    exact Or.inl ⟨j', hj'⟩
  kept b j j' hj hj' := by
    rw [h.inodes, hj] at hj'
    cases hj'
    exact ⟨rfl, rfl, id⟩

lemma Opened.tracks (t : Table s live refs) (h : Opened s s' n a ino) : Tracks s s' := by
  refine .update h.next h.inodes (fun _ _ => ?_) fun j j' hj hj' => ?_
  · rcases h.inode with ⟨old, hold, _, _⟩ | ⟨hfresh, _, _⟩
    · exact Or.inl ⟨old, hold⟩
    · exact Or.inr hfresh
  · cases hj'
    rcases h.inode with ⟨old, hold, _, rfl⟩ | ⟨hfresh, _, _⟩
    · rw [hold] at hj
      cases hj
      exact ⟨rfl, rfl, id⟩
    · rw [t.fresh a hfresh] at hj
      cases hj

lemma Removed.tracks {name : List UInt8} (h : Removed s s' live name n) : Tracks s s' := by
  rcases h.inodes with ⟨a, old, hold, _, hinodes⟩ | ⟨_, hinodes⟩
  · refine .update h.next hinodes (fun _ _ => Or.inl ⟨old, hold⟩) fun j j' hj hj' => ?_
    rw [hold] at hj
    cases hj
    cases hj'
    exact ⟨rfl, rfl, fun _ => rfl⟩
  · exact SameInodes.tracks ⟨h.freeMapFile, h.next, hinodes⟩

lemma Closed.tracks (ha : s.inodes a = some ino) (h : Closed s s' live refs a ino) : Tracks s s' := by
  refine .update (Nat.le_of_eq h.next.symm) h.inodes (fun _ _ => Or.inl ⟨ino, ha⟩) fun j j' hj hj' => ?_
  rw [ha] at hj
  cases hj
  split at hj'
  · cases hj'
  · cases hj'
    exact ⟨rfl, rfl, id⟩

/-! ## The invariant -/

section Open

variable (ha : s.inodes a = some ino)
include ha

/-- An open inode changes, but not where it is. -/
lemma Fs.live_setInode (ino' : Inode) (hsector : ino'.sector = ino.sector) :
    (s.setInode a ino').live = s.live := by
  have hopen : ∀ m, (s.setInode a ino').IsOpen m ↔ s.IsOpen m := by
    intro m
    constructor
    · rintro ⟨b, j, hj, rfl⟩
      by_cases hba : b = a
      · rw [hba, Fs.setInode_self] at hj
        cases hj
        exact ⟨a, ino, ha, hsector.symm⟩
      · rw [Fs.setInode_of_ne s ino' hba] at hj
        exact ⟨b, j, hj, rfl⟩
    · rintro ⟨b, j, hj, rfl⟩
      by_cases hba : b = a
      · rw [hba, ha] at hj
        cases hj
        exact ⟨a, ino', Fs.setInode_self s a ino', hsector⟩
      · exact ⟨b, j, (Fs.setInode_of_ne s ino' hba).trans hj, rfl⟩
  simp only [Fs.live, hopen]
  rfl

/-- An open inode changes, but not where it is and whether it was removed. -/
lemma Good.adjust (hg : Good s refs) (ino' : Inode) (hsector : ino'.sector = ino.sector)
    (hremoved : ino'.removed = ino.removed) (hinv : Inv (s.setInode a ino') s.live refs') :
    Good (s.setInode a ino') refs' := by
  refine ⟨?_, hg.root, hg.mounted, fun b j hj hfile => ?_⟩
  · rw [Fs.live_setInode ha ino' hsector]
    exact hinv
  · by_cases hba : b = a
    · rw [hba, Fs.setInode_self] at hj
      cases hj
      rw [hsector] at hfile ⊢
      rw [hremoved]
      exact hg.removed a ino ha hfile
    · rw [Fs.setInode_of_ne s ino' hba] at hj
      exact hg.removed b j hj hfile

lemma Closed.isOpen_iff (t : Table s live refs) (hclosed : Closed s s' live refs a ino)
    (m : ℕ) : s'.IsOpen m ↔ s.IsOpen m ∧ ¬(refs a = 1 ∧ m = ino.sector) := by
  constructor
  · rintro ⟨b, j, hj, rfl⟩
    rw [hclosed.inodes] at hj
    by_cases hba : b = a
    · rw [hba, update_self] at hj
      split at hj
      · cases hj
      · rename_i hlast
        cases hj
        exact ⟨⟨a, ino, ha, rfl⟩, fun hin => hlast hin.1⟩
    · rw [update_of_ne hba] at hj
      exact ⟨⟨b, j, hj, rfl⟩, fun hin => t.sector_ne ha hba hj hin.2⟩
  · rintro ⟨⟨b, j, hj, rfl⟩, hkept⟩
    by_cases hba : b = a
    · rw [hba, ha] at hj
      cases hj
      refine ⟨a, { ino with openCnt := ino.openCnt - 1 }, ?_, rfl⟩
      rw [hclosed.inodes, update_self, if_neg fun hlast => hkept ⟨hlast, rfl⟩]
    · refine ⟨b, j, ?_, rfl⟩
      rw [hclosed.inodes, update_of_ne hba]
      exact hj

/-- An inode that dies is one of a file. -/
lemma Dies.file (t : Table s live refs) (h : Dies refs a ino) : 2 ≤ ino.sector := by
  by_contra hlt
  have hsystem := (t.system a ino ha (by omega)).2
  rw [h.2] at hsystem
  cases hsystem

/-- A pointer is given up. -/
lemma Good.closed (hg : Good s refs) (hclosed : Closed s s' s.live refs a ino)
    (hinv : Inv s' (survivors s.live refs a ino) refs') : Good s' refs' ∧ SameFiles s s' := by
  have hone : 1 ∈ survivors s.live refs a ino := by
    refine ⟨hg.one_mem, fun hin => ?_⟩
    have := hin.1.file ha hg.inv.table
    omega
  have hroot : s.disk.Same s'.disk 1 := hclosed.quiet.same 1 hone (by omega)
  have hbound : ∀ w m, s'.disk.Bound w m ↔ s.disk.Bound w m := fun w m => hg.root.bound_congr hroot
  have hopen := hclosed.isOpen_iff ha hg.inv.table
  have hlive : s'.live = survivors s.live refs a ino := by
    ext m
    constructor
    · rintro (hm | ⟨w, hm⟩ | hm)
      · refine ⟨Or.inl hm, fun hin => ?_⟩
        have := hin.1.file ha hg.inv.table
        omega
      · rw [hbound] at hm
        refine ⟨hg.bound_mem hm, ?_⟩
        rintro ⟨hdies, rfl⟩
        exact (hg.removed a ino ha (hdies.file ha hg.inv.table)).mp hdies.2 w hm
      · obtain ⟨hm, hkept⟩ := (hopen m).mp hm
        exact ⟨Or.inr (Or.inr hm), fun hin => hkept ⟨hin.1.1, hin.2⟩⟩
    · rintro ⟨hm | ⟨w, hm⟩ | hm, hkept⟩
      · exact Or.inl hm
      · exact Or.inr (Or.inl ⟨w, (hbound w m).mpr hm⟩)
      · by_cases hlast : refs a = 1 ∧ m = ino.sector
        · obtain ⟨hlast, rfl⟩ := hlast
          -- it is closed and was not removed, so it has a name if it is a file
          by_cases hfile : 2 ≤ ino.sector
          · have hnot : ¬∀ w, ¬s.disk.Bound w ino.sector := by
              intro hnone
              exact hkept ⟨⟨hlast, (hg.removed a ino ha hfile).mpr hnone⟩, rfl⟩
            obtain ⟨w, hw⟩ := not_forall_not.mp hnot
            exact Or.inr (Or.inl ⟨w, (hbound w _).mpr hw⟩)
          · exact Or.inl (by omega)
        · exact Or.inr (Or.inr ((hopen m).mpr ⟨hm, hlast⟩))
  refine ⟨⟨?_, hg.root.congr hroot, ?_, fun b j hj hfile => ?_⟩, fun m hm hm' hfile => ?_⟩
  · rw [hlive]
    exact hinv
  · rw [hclosed.freeMapFile]
    exact hg.mounted
  · simp only [hbound]
    rw [hclosed.inodes] at hj
    by_cases hba : b = a
    · rw [hba, update_self] at hj
      split at hj
      · cases hj
      · cases hj
        exact hg.removed a ino ha hfile
    · rw [update_of_ne hba] at hj
      exact hg.removed b j hj hfile
  · rw [hlive] at hm'
    exact hclosed.quiet.same m hm' (by omega)

end Open

/-- The data of a file changes. -/
lemma Good.written (hg : Good s refs) (hn : 2 ≤ n) {d : Disk} (hquiet : s.disk.Quiet d s.live n)
    (hinv : Inv { s with disk := d } s.live refs) : Good { s with disk := d } refs := by
  have hroot : s.disk.Same d 1 := hquiet.same 1 hg.one_mem (by omega)
  exact hg.congr hinv (hg.root.congr hroot) (fun w m => hg.root.bound_congr hroot) ⟨rfl, Nat.le_refl _, rfl⟩

end OsLabs.Filesys
