import OsLabs.Filesys.Root

/-!
# Opening and removing files

`Good s refs` is the invariant of a mounted file system: the inodes that are alive are the free map, the root directory,
those with a name and those that are open, and an open file was removed if it has no name. `filesys_open` and
`filesys_remove` open the root directory, work on it and close it; the specifications tell the result, what happens to
the free map and to the names, and that the other files stay.
-/

namespace OsLabs.Filesys

open Lib LibKernel Function

/-- The inode in sector `n` is open. -/
def Fs.IsOpen (s : Fs) (n : ℕ) : Prop :=
  ∃ a ino, s.inodes a = some ino ∧ ino.sector = n

/-- The inodes that are alive: the free map, the root directory, those with a name and those that are open. -/
def Fs.live (s : Fs) : Set ℕ :=
  { n | n < 2 ∨ (∃ w, s.disk.Bound w n) ∨ s.IsOpen n }

/-- The invariant of a mounted file system. -/
structure Good (s : Fs) (refs : ℕ → ℕ) : Prop where
  inv : Inv s s.live refs
  root : Root s.disk
  mounted : ∃ a, s.freeMapFile = some (fileOpen a)
  removed : ∀ a ino, s.inodes a = some ino → 2 ≤ ino.sector →
    (ino.removed = true ↔ ∀ w, ¬s.disk.Bound w ino.sector)

/-- The same inodes are open. -/
structure SameInodes (s s' : Fs) : Prop where
  freeMapFile : s'.freeMapFile = s.freeMapFile
  next : s.nextInode ≤ s'.nextInode
  inodes : s'.inodes = s.inodes

/-- The files that are alive before and after have the same data. -/
def SameFiles (s s' : Fs) : Prop :=
  ∀ m ∈ s.live, m ∈ s'.live → 2 ≤ m → s.disk.Same s'.disk m

variable {s s' s₁ s₂ : Fs} {live : Set ℕ} {refs refs' : ℕ → ℕ} {a n : ℕ} {ino : Inode} {dir : Dir}

lemma Opened.sector (h : Opened s s' n a ino) : ino.sector = n := by
  rcases h.inode with ⟨old, _, hsector, rfl⟩ | ⟨_, _, rfl⟩
  · exact hsector
  · rfl

lemma Opened.self (h : Opened s s' n a ino) : s'.inodes a = some ino := by
  rw [h.inodes]
  exact update_self ..

lemma Opened.of_ne (h : Opened s s' n a ino) {b : ℕ} (hb : b ≠ a) : s'.inodes b = s.inodes b := by
  rw [h.inodes]
  exact update_of_ne hb ..

/-! ## The root directory is opened and closed -/

lemma dirOpenRoot_spec (h : Inv s live refs) (hr : Root s.disk) (hone : 1 ∈ live) :
    ∃ dir ino s', dirOpenRoot s = .ok (dir, s') ∧ dir.pos = 0 ∧ Opened s s' 1 dir.inode ino ∧ RootDir s' dir ino ∧
      Inv s' live (update refs dir.inode (refs dir.inode + 1)) := by
  obtain ⟨a, ino, s', hopen, hopened, hinv⟩ := inodeOpen_spec h hone
  refine ⟨⟨a, 0⟩, ino, s', ?_, rfl, hopened, ⟨?_, hopened.self, hopened.sector⟩, hinv⟩
  · rw [dirOpenRoot, hopen]
    rfl
  · rw [hopened.disk]
    exact hr

/-- Closing an inode that has a name, or the root directory, undoes its opening. -/
lemma inodeClose_undo (t : Table s live refs) (hopened : Opened s s₁ n a ino) (hn : n ≠ 0) (hremoved : ino.removed = false)
    {live₂ : Set ℕ} {refs₂ : ℕ → ℕ} (h : Inv s₂ live₂ refs₂) (hino : s₂.inodes a = some ino)
    (hrefs : refs₂ a = refs a + 1) :
    ∃ s', inodeClose s₂ a = .ok s' ∧ s'.disk = s₂.disk ∧ s'.freeMap = s₂.freeMap ∧ s'.freeMapFile = s₂.freeMapFile ∧
      s'.nextInode = s₂.nextInode ∧ s'.inodes = update s₂.inodes a (s.inodes a) ∧
      Inv s' live₂ (update refs₂ a (refs a)) := by
  have hsector := hopened.sector
  have hkept : ¬Dies refs₂ a ino := by
    intro hdies
    rw [hdies.2] at hremoved
    cases hremoved
  obtain ⟨s', hclose, hclosed, hinv⟩ := inodeClose_spec h hino (fun hdies => absurd hdies hkept) (by
    intro file hfile heq
    obtain ⟨i, hi, hzero, _⟩ := (h.space.mapped file hfile).2.inode
    rw [heq, hino] at hi
    cases hi
    omega)
  obtain ⟨hdisk, hmap⟩ := hclosed.kept hkept
  refine ⟨s', hclose, hdisk, hmap, hclosed.freeMapFile, hclosed.next, ?_, ?_⟩
  · rw [hclosed.inodes]
    congr 1
    rcases hopened.inode with ⟨old, hold, _, rfl⟩ | ⟨hfresh, _, _⟩
    · have hpos := (t.count a old hold).2
      rw [if_neg (by omega), hold]
      simp
    · have hnone := t.fresh a hfresh
      rw [if_pos (by rw [hrefs, t.absent _ hnone]), hnone]
  · rw [survivors_of_not_dies live₂ hkept, hrefs] at hinv
    exact hinv

/-- Closing the root directory undoes its opening. -/
lemma dirClose_spec (t : Table s live refs) (hopened : Opened s s₁ 1 dir.inode ino) {live₂ : Set ℕ} {refs₂ : ℕ → ℕ}
    (h : Inv s₂ live₂ refs₂) (hino : s₂.inodes dir.inode = some ino) (hrefs : refs₂ dir.inode = refs dir.inode + 1) :
    ∃ s', dirClose s₂ dir = .ok s' ∧ s'.disk = s₂.disk ∧ s'.freeMap = s₂.freeMap ∧ s'.freeMapFile = s₂.freeMapFile ∧
      s'.nextInode = s₂.nextInode ∧ s'.inodes = update s₂.inodes dir.inode (s.inodes dir.inode) ∧
      Inv s' live₂ (update refs₂ dir.inode (refs dir.inode)) := by
  have hsector := hopened.sector
  have hremoved := (h.table.system dir.inode ino hino (by omega)).2
  exact inodeClose_undo t hopened (by omega) hremoved h hino hrefs

lemma RootDir.congr (hd : RootDir s dir ino) (hsame : s.disk.Same s'.disk 1)
    (hino : s'.inodes dir.inode = s.inodes dir.inode) : RootDir s' dir ino :=
  ⟨hd.root.congr hsame, hino.trans hd.inode, hd.sector⟩

variable {r : ℕ} {root : Inode} {name : List UInt8}

/-- What is stored at `r` in between is undone. -/
lemma update_restore {α : Type*} (f : ℕ → α) {a : ℕ} (hne : a ≠ r) (x y : α) :
    update (update (update f r x) a y) r (f r) = update f a y := by
  rw [update_comm hne, update_idem, update_eq_self]

lemma Fs.live_congr (hbound : ∀ w n, s'.disk.Bound w n ↔ s.disk.Bound w n) (hinodes : s'.inodes = s.inodes) :
    s'.live = s.live := by
  simp only [Fs.live, Fs.IsOpen, hbound, hinodes]

namespace Good

lemma one_mem (_ : Good s refs) : 1 ∈ s.live :=
  Or.inl (by omega)

lemma bound_mem {w : List UInt8} (_ : Good s refs) (h : s.disk.Bound w n) : n ∈ s.live :=
  Or.inr (Or.inl ⟨w, h⟩)

/-- The names and the open inodes stay. -/
lemma congr (hg : Good s refs) (hinv : Inv s' s.live refs) (hroot : Root s'.disk)
    (hbound : ∀ w n, s'.disk.Bound w n ↔ s.disk.Bound w n) (hsame : SameInodes s s') : Good s' refs where
  inv := by
    rw [Fs.live_congr hbound hsame.inodes]
    exact hinv
  root := hroot
  mounted := by
    rw [hsame.freeMapFile]
    exact hg.mounted
  removed a ino ha hsector := by
    rw [hsame.inodes] at ha
    simp only [hbound]
    exact hg.removed a ino ha hsector

end Good

/-- The root directory is closed, and the other inodes are as they were. -/
lemma rootClosed (hg : Good s refs) (hopened : Opened s s₁ 1 dir.inode ino) (hsame : SameInodes s₁ s₂)
    (h : Inv s₂ live (update refs dir.inode (refs dir.inode + 1))) :
    ∃ s', dirClose s₂ dir = .ok s' ∧ s'.disk = s₂.disk ∧ s'.freeMap = s₂.freeMap ∧ SameInodes s s' ∧ Inv s' live refs := by
  have hino : s₂.inodes dir.inode = some ino := by
    rw [hsame.inodes]
    exact hopened.self
  obtain ⟨s', hclose, hdisk, hmap, hfile, hnext, hinodes, hinv⟩ :=
    dirClose_spec hg.inv.table hopened h hino (update_self ..)
  rw [update_idem, update_eq_self] at hinv
  refine ⟨s', hclose, hdisk, hmap, ⟨?_, ?_, ?_⟩, hinv⟩
  · rw [hfile, hsame.freeMapFile, hopened.freeMapFile]
  · rw [hnext]
    exact hopened.next.trans hsame.next
  · rw [hinodes, hsame.inodes, hopened.inodes, update_idem, update_eq_self]

/-- Only the free map is written. -/
lemma Good.quiet (hg : Good s refs) (hquiet : s.disk.Quiet s'.disk s.live 0) (hsame : SameInodes s s')
    (hinv : Inv s' s.live refs) : Good s' refs ∧ SameFiles s s' := by
  have hroot : s.disk.Same s'.disk 1 := hquiet.same 1 hg.one_mem (by omega)
  refine ⟨hg.congr hinv (hg.root.congr hroot) (fun w n => hg.root.bound_congr hroot) hsame, ?_⟩
  intro m hm _ hfile
  exact hquiet.same m hm (by omega)

/-! ## Opening -/

lemma Opened.old_sector (t : Table s live refs) (hopened : Opened s s' n a ino) {j : Inode} (hj : s.inodes a = some j) :
    j.sector = n ∧ ino.removed = j.removed := by
  rcases hopened.inode with ⟨old, hold, hsector, rfl⟩ | ⟨hfresh, _, _⟩
  · rw [hold] at hj
    cases hj
    exact ⟨hsector, rfl⟩
  · rw [t.fresh a hfresh] at hj
    cases hj

/-- The root directory, or the inode of a name, has one more pointer to it. -/
lemma Good.opened (hg : Good s refs) (hname : n < 2 ∨ ∃ w, s.disk.Bound w n) (hopened : Opened s s' n a ino)
    (hinv : Inv s' s.live refs') : Good s' refs' := by
  have hcases : ∀ b j, s'.inodes b = some j → b = a ∧ j = ino ∨ b ≠ a ∧ s.inodes b = some j := by
    intro b j hj
    by_cases hba : b = a
    · rw [hba, hopened.self] at hj
      cases hj
      exact Or.inl ⟨hba, rfl⟩
    · rw [hopened.of_ne hba] at hj
      exact Or.inr ⟨hba, hj⟩
  have hlive : s'.live = s.live := by
    ext m
    constructor
    · rintro (hm | hm | ⟨b, j, hj, rfl⟩)
      · exact Or.inl hm
      · rw [hopened.disk] at hm
        exact Or.inr (Or.inl hm)
      · rcases hcases b j hj with ⟨_, rfl⟩ | ⟨_, hold⟩
        · rw [hopened.sector]
          exact hname.imp id Or.inl
        · exact Or.inr (Or.inr ⟨b, j, hold, rfl⟩)
    · rintro (hm | hm | ⟨b, j, hj, rfl⟩)
      · exact Or.inl hm
      · rw [← hopened.disk] at hm
        exact Or.inr (Or.inl hm)
      · by_cases hba : b = a
        · subst hba
          refine Or.inr (Or.inr ⟨b, ino, hopened.self, ?_⟩)
          rw [hopened.sector, (hopened.old_sector hg.inv.table hj).1]
        · exact Or.inr (Or.inr ⟨b, j, (hopened.of_ne hba).trans hj, rfl⟩)
  refine ⟨?_, ?_, ?_, fun b j hj hsector => ?_⟩
  · rw [hlive]
    exact hinv
  · rw [hopened.disk]
    exact hg.root
  · rw [hopened.freeMapFile]
    exact hg.mounted
  · rw [hopened.disk]
    rcases hcases b j hj with ⟨_, rfl⟩ | ⟨_, hold⟩
    · rcases hopened.inode with ⟨old, hold, _, rfl⟩ | ⟨_, _, rfl⟩
      · exact hg.removed a old hold hsector
      · simp only [Bool.false_eq_true, false_iff, not_forall, not_not]
        rcases hname with hlt | hname
        · exact absurd hsector (Nat.not_le.mpr hlt)
        · exact hname
    · exact hg.removed b j hold hsector

/-- A file is at another address than the root directory. -/
lemma Opened.ne_root (t : Table s₁ live refs) (hroot : Opened s s₁ 1 r root) (hopened : Opened s₁ s₂ n a ino)
    (hn : 2 ≤ n) : a ≠ r := by
  rintro rfl
  have := (hopened.old_sector t hroot.self).1
  have := hroot.sector
  omega

/-- What is opened while the root directory is open is also opened if one looks at the states around. -/
lemma Opened.of_root (t : Table s live refs) (hroot : Opened s s₁ 1 r root) (hopened : Opened s₁ s₂ n a ino)
    (hn : 2 ≤ n) (hne : a ≠ r) (hdisk : s'.disk = s₂.disk) (hmap : s'.freeMap = s₂.freeMap)
    (hfile : s'.freeMapFile = s₂.freeMapFile) (hnext : s'.nextInode = s₂.nextInode)
    (hinodes : s'.inodes = update s₂.inodes r (s.inodes r)) : Opened s s' n a ino := by
  refine ⟨hdisk.trans (hopened.disk.trans hroot.disk), hmap.trans (hopened.freeMap.trans hroot.freeMap),
    hfile.trans (hopened.freeMapFile.trans hroot.freeMapFile), ?_, ?_, ?_⟩
  · rw [hinodes, hopened.inodes, hroot.inodes]
    exact update_restore s.inodes hne _ _
  · rw [hnext]
    exact hroot.next.trans hopened.next
  · rcases hopened.inode with ⟨old, hold, hsector, hino⟩ | ⟨hfresh, hclosed, hino⟩
    · rw [hroot.of_ne hne] at hold
      exact Or.inl ⟨old, hold, hsector, hino⟩
    · refine Or.inr ⟨hroot.next.trans hfresh, fun b j hj => ?_, ?_⟩
      · by_cases hbr : b = r
        · subst hbr
          have := (hroot.old_sector t hj).1
          omega
        · exact hclosed b j ((hroot.of_ne hbr).trans hj)
      · rw [← hroot.disk]
        exact hino

/-- `filesys_open`. -/
lemma filesysOpen_spec (hg : Good s refs) (name : CStr) :
    (∃ n a ino s', s.disk.Bound name.chars n ∧ filesysOpen s name = .ok (some (fileOpen a), s') ∧
      Opened s s' n a ino ∧ Good s' (update refs a (refs a + 1))) ∨
    (∃ s', (∀ n, ¬s.disk.Bound name.chars n) ∧ filesysOpen s name = .ok (none, s') ∧ s'.disk = s.disk ∧
      s'.freeMap = s.freeMap ∧ SameInodes s s' ∧ Good s' refs) := by
  obtain ⟨dir, ino, s₁, hopen, _, hopened, hd, hinv₁⟩ := dirOpenRoot_spec hg.inv hg.root hg.one_mem
  rw [filesysOpen, hopen, except_ok_bind]
  dsimp only
  rcases lookup_spec hd hinv₁ name with ⟨i, e, n, hi, hlookup, _, hslot, hsector⟩ | ⟨hlookup, hunbound⟩
  · left
    have hbound : s.disk.Bound name.chars n := by
      rw [← hopened.disk]
      exact ⟨i, hi, hslot⟩
    have hn : 2 ≤ n := hg.root.file _ n hbound
    obtain ⟨a, ino₂, s₂, hopen₂, hopened₂, hinv₂⟩ := inodeOpen_spec hinv₁ (hg.bound_mem hbound)
    have hne : a ≠ dir.inode := hopened.ne_root hinv₁.table hopened₂ hn
    have hino : s₂.inodes dir.inode = some ino := (hopened₂.of_ne hne.symm).trans hopened.self
    obtain ⟨s', hclose, hdisk, hmap, hfile, hnext, hinodes, hinv⟩ :=
      dirClose_spec hg.inv.table hopened hinv₂ hino (by rw [update_of_ne hne.symm, update_self])
    have hresult := hopened.of_root hg.inv.table hopened₂ hn hne hdisk hmap hfile hnext hinodes
    refine ⟨n, a, ino₂, s', hbound, ?_, hresult, hg.opened (Or.inr ⟨_, hbound⟩) hresult ?_⟩
    · rw [dirLookup, hlookup, except_ok_bind]
      dsimp only
      rw [hsector, hopen₂, except_ok_bind, except_pure, except_ok_bind]
      rw [hclose]
      rfl
    · rw [update_restore refs hne, update_of_ne hne] at hinv
      exact hinv
  · right
    obtain ⟨s', hclose, hdisk, hmap, hsame, hinv⟩ := rootClosed hg hopened ⟨rfl, Nat.le_refl _, rfl⟩ hinv₁
    rw [hopened.disk] at hunbound hdisk
    refine ⟨s', hunbound, ?_, hdisk, hmap.trans hopened.freeMap, hsame, ?_⟩
    · rw [dirLookup, hlookup, except_ok_bind]
      rw [except_pure, except_ok_bind]
      rw [hclose]
      rfl
    · refine (hg.quiet ?_ hsame hinv).1
      rw [hdisk]
      exact .refl s.disk s.live 0

/-! ## Removing -/

/-- The name was taken from the file in sector `n`. If it is open, it is marked as removed; if not, its sectors are free. -/
structure Removed (s s' : Fs) (live : Set ℕ) (name : List UInt8) (n : ℕ) : Prop where
  bound : ∀ w m, s'.disk.Bound w m ↔ s.disk.Bound w m ∧ w ≠ name
  freeMapFile : s'.freeMapFile = s.freeMapFile
  next : s.nextInode ≤ s'.nextInode
  inodes : (∃ a old, s.inodes a = some old ∧ old.sector = n ∧
      s'.inodes = update s.inodes a (some { old with removed := true })) ∨
    ¬s.IsOpen n ∧ s'.inodes = s.inodes
  bits : ∀ x, s'.freeMap.has x = true ↔ s.freeMap.has x = true ∧ ¬(¬s.IsOpen n ∧ s.disk.Owns n x)
  files : ∀ m ∈ live, ¬(¬s.IsOpen n ∧ m = n) → 2 ≤ m → s.disk.Same s'.disk m

lemma Removed.live_eq (hg : Good s refs) (hname : s.disk.Bound name n) (h : Removed s s' s.live name n) :
    s'.live = { m | m ∈ s.live ∧ ¬(¬s.IsOpen n ∧ m = n) } := by
  have hone := hg.root.oneToOne
  have hn := hg.root.file name n hname
  have hopen : ∀ m, s'.IsOpen m ↔ s.IsOpen m := by
    intro m
    rw [Fs.IsOpen]
    rcases h.inodes with ⟨a, old, hold, hsector, hinodes⟩ | ⟨_, hinodes⟩
    · rw [hinodes]
      constructor
      · rintro ⟨b, j, hj, rfl⟩
        by_cases hba : b = a
        · rw [hba, update_self] at hj
          cases hj
          exact ⟨a, old, hold, rfl⟩
        · rw [update_of_ne hba] at hj
          exact ⟨b, j, hj, rfl⟩
      · rintro ⟨b, j, hj, rfl⟩
        by_cases hba : b = a
        · rw [hba, hold] at hj
          cases hj
          exact ⟨a, _, update_self .., rfl⟩
        · exact ⟨b, j, (update_of_ne hba ..).trans hj, rfl⟩
    · rw [hinodes]
      rfl
  ext m
  constructor
  · rintro (hm | ⟨w, hm⟩ | hm)
    · refine ⟨Or.inl hm, ?_⟩
      rintro ⟨_, rfl⟩
      omega
    · obtain ⟨hold, hne⟩ := (h.bound w m).mp hm
      refine ⟨hg.bound_mem hold, ?_⟩
      rintro ⟨_, rfl⟩
      exact hne (hone.binds_inj hold hname)
    · rw [hopen] at hm
      refine ⟨Or.inr (Or.inr hm), ?_⟩
      rintro ⟨hclosed, rfl⟩
      exact hclosed hm
  · rintro ⟨hm | ⟨w, hm⟩ | hm, hkept⟩
    · exact Or.inl hm
    · by_cases hw : w = name
      · rw [hw] at hm
        obtain rfl := hone.binds_unique hm hname
        have hm : s.IsOpen m := by
          by_contra hclosed
          exact hkept ⟨hclosed, rfl⟩
        exact Or.inr (Or.inr ((hopen m).mpr hm))
      · exact Or.inr (Or.inl ⟨w, (h.bound w m).mpr ⟨hm, hw⟩⟩)
    · exact Or.inr (Or.inr ((hopen m).mpr hm))

lemma Removed.sameFiles (hg : Good s refs) (hname : s.disk.Bound name n) (h : Removed s s' s.live name n) :
    SameFiles s s' := by
  intro m hm hm'
  rw [h.live_eq hg hname] at hm'
  exact h.files m hm hm'.2

lemma Removed.good (hg : Good s refs) (hname : s.disk.Bound name n) (h : Removed s s' s.live name n)
    (hroot : Root s'.disk) (hinv : Inv s' { m | m ∈ s.live ∧ ¬(¬s.IsOpen n ∧ m = n) } refs) : Good s' refs := by
  have hone := hg.root.oneToOne
  have hother : ∀ m, m ≠ n → ((∀ w, ¬s'.disk.Bound w m) ↔ ∀ w, ¬s.disk.Bound w m) := by
    intro m hne
    refine forall_congr' fun w => not_congr ?_
    rw [h.bound]
    refine ⟨fun hm => hm.1, fun hm => ⟨hm, ?_⟩⟩
    rintro rfl
    exact hne (hone.binds_unique hm hname)
  have hgone : ∀ w, ¬s'.disk.Bound w n := by
    intro w hm
    obtain ⟨hold, hne⟩ := (h.bound w n).mp hm
    exact hne (hone.binds_inj hold hname)
  refine ⟨?_, hroot, ?_, fun b j hj hsector => ?_⟩
  · rw [h.live_eq hg hname]
    exact hinv
  · rw [h.freeMapFile]
    exact hg.mounted
  · rcases h.inodes with ⟨a, old, hold, hold_sector, hinodes⟩ | ⟨hclosed, hinodes⟩
    · rw [hinodes] at hj
      by_cases hba : b = a
      · rw [hba, update_self] at hj
        cases hj
        refine ⟨fun _ => ?_, fun _ => rfl⟩
        rw [show ({ old with removed := true } : Inode).sector = n from hold_sector]
        exact hgone
      · rw [update_of_ne hba] at hj
        rw [hother j.sector]
        · exact hg.removed b j hj hsector
        · rw [← hold_sector]
          exact hg.inv.table.sector_ne hold hba hj
    · rw [hinodes] at hj
      rw [hother j.sector]
      · exact hg.removed b j hj hsector
      · rintro rfl
        exact hclosed ⟨b, j, hj, rfl⟩

/-- The inode was open before it was opened, if others hold a pointer to it. -/
lemma Opened.isOpen_iff (t : Table s live refs) (hopened : Opened s s' n a ino) : s.IsOpen n ↔ refs a ≠ 0 := by
  rcases hopened.inode with ⟨old, hold, hsector, _⟩ | ⟨hfresh, hclosed, _⟩
  · have hpos := (t.count a old hold).2
    exact ⟨fun _ => by omega, fun _ => ⟨a, old, hold, hsector⟩⟩
  · have hzero := t.absent a (t.fresh a hfresh)
    constructor
    · rintro ⟨b, j, hj, hsector⟩
      exact absurd hsector (hclosed b j hj)
    · exact fun hne => absurd hzero hne

/-- `dir_remove`. -/
lemma dirRemove_spec (hd : RootDir s dir ino) (h : Inv s live refs) (hfile : ∃ file, s.freeMapFile = some file)
    (hlive : ∀ w n, s.disk.Bound w n → n ∈ live) (name : CStr) :
    (∃ n s', s.disk.Bound name.chars n ∧ dirRemove s dir .all name = .ok (true, s') ∧
      Removed s s' live name.chars n ∧ Root s'.disk ∧ Inv s' { m | m ∈ live ∧ ¬(¬s.IsOpen n ∧ m = n) } refs) ∨
    (dirRemove s dir .all name = .ok (false, s) ∧ ∀ n, ¬s.disk.Bound name.chars n) := by
  rcases lookup_spec hd h name with ⟨i, e, n, hi, hlookup, _, hslot, hsector⟩ | ⟨hlookup, hunbound⟩
  · left
    have hbound : s.disk.Bound name.chars n := ⟨i, hi, hslot⟩
    have hn : 2 ≤ n := hd.root.file _ n hbound
    -- the file is opened
    obtain ⟨a, ino₁, s₁, hopen, hopened, hinv₁⟩ := inodeOpen_spec h (hlive _ n hbound)
    have hne : dir.inode ≠ a := by
      intro heq
      have := (hopened.old_sector h.table (heq ▸ hd.inode)).1
      have := hd.sector
      omega
    have hd₁ : RootDir s₁ dir ino := by
      refine hd.congr ?_ (hopened.of_ne hne)
      rw [hopened.disk]
      exact .refl s.disk 1
    -- its entry is cleared
    rw [← hopened.disk] at hslot
    obtain ⟨d, hwrite, hquiet₂, hbound₂, hroot₂, hinv₂⟩ := hd₁.clear_spec hinv₁ hi hslot e
    -- it is marked as removed
    let ino₂ : Inode := { ino₁ with removed := true }
    let s₂ : Fs := { s₁ with disk := d }
    have ha₂ : s₂.inodes a = some ino₁ := hopened.self
    have hremove : inodeRemove s₂ a = .ok (s₂.setInode a ino₂) := by
      rw [inodeRemove, Fs.deref, ha₂]
      rfl
    have hinv₃ := hinv₂.setInode ha₂ (by rw [hopened.sector]; exact hn) ino₂ rfl rfl rfl
    -- and closed again
    obtain ⟨file, hfile⟩ := hfile
    have hfile₃ : (s₂.setInode a ino₂).freeMapFile = some file := hopened.freeMapFile.trans hfile
    obtain ⟨s', hclose, hclosed, hinv'⟩ := inodeClose_spec hinv₃ (Fs.setInode_self s₂ a ino₂) (fun _ => ⟨file, hfile₃⟩)
      (by
        intro file' hfile' heq
        obtain ⟨j, hj, hzero, _⟩ := (hinv₃.space.mapped file' hfile').2.inode
        rw [heq, Fs.setInode_self] at hj
        cases hj
        have hsector : ino₂.sector = n := hopened.sector
        omega)
    have hrefs : update refs a (refs a + 1) a = refs a + 1 := update_self ..
    have hdies : Dies (update refs a (refs a + 1)) a ino₂ ↔ ¬s.IsOpen n := by
      rw [hopened.isOpen_iff h.table]
      exact ⟨fun hdies => by have := hdies.1; omega, fun hzero => ⟨by omega, rfl⟩⟩
    have hsector₂ : ino₂.sector = n := hopened.sector
    have hsurvivors : survivors live (update refs a (refs a + 1)) a ino₂ =
        { m | m ∈ live ∧ ¬(¬s.IsOpen n ∧ m = n) } := by
      rw [survivors, hdies, hsector₂]
    rw [hsurvivors, hrefs, Nat.add_sub_cancel, update_idem, update_eq_self] at hinv'
    have hquiet' : d.Quiet s'.disk { m | m ∈ live ∧ ¬(¬s.IsOpen n ∧ m = n) } 0 := by
      rw [← hsurvivors]
      exact hclosed.quiet
    have hone : 1 ∈ live := by
      rw [← hd.sector]
      exact h.table.live dir.inode ino hd.inode
    have hsame' : d.Same s'.disk 1 := hquiet'.same 1 ⟨hone, fun heq => by omega⟩ (by omega)
    rw [hopened.disk] at hquiet₂ hbound₂
    refine ⟨n, s', hbound, ?_,
      ⟨fun w m => ?_, hclosed.freeMapFile.trans hopened.freeMapFile, ?_, ?_, fun x => ?_, fun m hm hkept hm' => ?_⟩,
      hroot₂.congr hsame', hinv'⟩
    · rw [dirRemove, Bounces.all, hlookup, except_ok_bind]
      dsimp only
      rw [hsector, hopen, except_ok_bind]
      rw [hwrite, except_ok_bind, if_neg (not_not.mpr rfl)]
      show (inodeRemove s₂ a >>= _) = _
      rw [hremove, except_ok_bind, hclose]
      rfl
    · rw [hroot₂.bound_congr hsame']
      exact hbound₂ w m
    · rw [hclosed.next]
      exact hopened.next
    · have hinodes : s'.inodes = update s.inodes a
          (if refs a + 1 = 1 then none else some { ino₂ with openCnt := ino₂.openCnt - 1 }) := by
        rw [hclosed.inodes, hrefs, Fs.setInode]
        rw [update_idem, show s₂.inodes = update s.inodes a (some ino₁) from hopened.inodes,
          update_idem]
      rcases hopened.inode with ⟨old, hold, hsector, hino⟩ | ⟨hfresh, hclosed', _⟩
      · left
        have hpos := (h.table.count a old hold).2
        refine ⟨a, old, hold, hsector, ?_⟩
        rw [hinodes, if_neg (by omega)]
        simp [ino₂, hino]
      · right
        have hnone := h.table.fresh a hfresh
        refine ⟨?_, ?_⟩
        · rintro ⟨b, j, hj, hsector⟩
          exact hclosed' b j hj hsector
        · rw [hinodes, h.table.absent a hnone, if_pos rfl, ← hnone, update_eq_self]
    · have hbits := hclosed.bits x
      rw [hdies, hsector₂] at hbits
      have hmap : (s₂.setInode a ino₂).freeMap = s.freeMap := hopened.freeMap
      have howns : (s₂.setInode a ino₂).disk.Owns n x ↔ s.disk.Owns n x :=
        Disk.owns_of_header_eq (hquiet₂.header n (hlive _ n hbound)) x
      rw [hmap, howns] at hbits
      exact hbits
    · exact (hquiet₂.same m hm (by omega)).trans (hquiet'.same m ⟨hm, hkept⟩ (by omega))
  · right
    refine ⟨?_, hunbound⟩
    rw [dirRemove, Bounces.all, hlookup]
    rfl

lemma Opened.isOpen_of_ne (t : Table s live refs) (hopened : Opened s s' n a ino) {m : ℕ} (hne : m ≠ n) :
    s'.IsOpen m ↔ s.IsOpen m := by
  constructor
  · rintro ⟨b, j, hj, rfl⟩
    have hba : b ≠ a := by
      rintro rfl
      rw [hopened.self] at hj
      cases hj
      exact hne hopened.sector
    exact ⟨b, j, (hopened.of_ne hba).symm.trans hj, rfl⟩
  · rintro ⟨b, j, hj, rfl⟩
    have hba : b ≠ a := by
      rintro rfl
      exact hne (hopened.old_sector t hj).1
    exact ⟨b, j, (hopened.of_ne hba).trans hj, rfl⟩

/-- What is removed while the root directory is open is also removed if one looks at the states around. -/
lemma Removed.of_root (t : Table s live refs) (hroot : Opened s s₁ 1 r root) (h : Removed s₁ s₂ live name n)
    (hn : 2 ≤ n) (hdisk : s'.disk = s₂.disk) (hmap : s'.freeMap = s₂.freeMap)
    (hfile : s'.freeMapFile = s₂.freeMapFile) (hnext : s'.nextInode = s₂.nextInode)
    (hinodes : s'.inodes = update s₂.inodes r (s.inodes r)) : Removed s s' live name n := by
  have hopen : s₁.IsOpen n ↔ s.IsOpen n := hroot.isOpen_of_ne t (by omega)
  refine ⟨fun w m => ?_, ?_, ?_, ?_, fun x => ?_, fun m hm hkept hm' => ?_⟩
  · rw [hdisk, ← hroot.disk]
    exact h.bound w m
  · rw [hfile, h.freeMapFile, hroot.freeMapFile]
  · rw [hnext]
    exact hroot.next.trans h.next
  · rw [hinodes]
    rcases h.inodes with ⟨a, old, hold, hsector, hupdate⟩ | ⟨hclosed, hupdate⟩
    · have hne : a ≠ r := by
        rintro rfl
        rw [hroot.self] at hold
        cases hold
        have := hroot.sector
        omega
      left
      refine ⟨a, old, (hroot.of_ne hne).symm.trans hold, hsector, ?_⟩
      rw [hupdate, hroot.inodes]
      exact update_restore s.inodes hne _ _
    · right
      refine ⟨fun hn => hclosed (hopen.mpr hn), ?_⟩
      rw [hupdate, hroot.inodes, update_idem, update_eq_self]
  · have hbits := h.bits x
    rw [hopen, hroot.disk, hroot.freeMap] at hbits
    rw [hmap]
    exact hbits
  · have hsame := h.files m hm (by rw [hopen]; exact hkept) hm'
    rw [hroot.disk] at hsame
    rw [hdisk]
    exact hsame

/-- `filesys_remove`. -/
lemma filesysRemove_spec (hg : Good s refs) (name : CStr) :
    (∃ n s', s.disk.Bound name.chars n ∧ filesysRemove s name = .ok (true, s') ∧
      Removed s s' s.live name.chars n ∧ Good s' refs) ∨
    (∃ s', (∀ n, ¬s.disk.Bound name.chars n) ∧ filesysRemove s name = .ok (false, s') ∧ s'.disk = s.disk ∧
      s'.freeMap = s.freeMap ∧ SameInodes s s' ∧ Good s' refs) := by
  obtain ⟨dir, ino, s₁, hopen, _, hopened, hd, hinv₁⟩ := dirOpenRoot_spec hg.inv hg.root hg.one_mem
  have hfile₁ : ∃ file, s₁.freeMapFile = some file := by
    obtain ⟨a, hfile⟩ := hg.mounted
    exact ⟨fileOpen a, hopened.freeMapFile.trans hfile⟩
  have hlive₁ : ∀ w n, s₁.disk.Bound w n → n ∈ s.live := by
    intro w n hbound
    rw [hopened.disk] at hbound
    exact hg.bound_mem hbound
  rcases dirRemove_spec hd hinv₁ hfile₁ hlive₁ name with
    ⟨n, s₂, hbound, hremove, hremoved, hroot₂, hinv₂⟩ | ⟨hremove, hunbound⟩
  · left
    rw [hopened.disk] at hbound
    have hn : 2 ≤ n := hg.root.file _ n hbound
    have hino : s₂.inodes dir.inode = some ino := by
      rcases hremoved.inodes with ⟨a, old, hold, hsector, hinodes⟩ | ⟨_, hinodes⟩
      · have hne : dir.inode ≠ a := by
          rintro rfl
          rw [hd.inode] at hold
          cases hold
          have := hd.sector
          omega
        rw [hinodes, update_of_ne hne]
        exact hd.inode
      · rw [hinodes]
        exact hd.inode
    obtain ⟨s', hclose, hdisk, hmap, hfile, hnext, hinodes, hinv⟩ :=
      dirClose_spec hg.inv.table hopened hinv₂ hino (update_self ..)
    have hresult := hremoved.of_root hg.inv.table hopened hn hdisk hmap hfile hnext hinodes
    refine ⟨n, s', hbound, ?_, hresult, hresult.good hg hbound ?_ ?_⟩
    · rw [filesysRemove, hopen, except_ok_bind]
      dsimp only
      rw [hremove, except_ok_bind]
      rw [hclose]
      rfl
    · rw [hdisk]
      exact hroot₂
    · rw [update_idem, update_eq_self, hopened.isOpen_of_ne hg.inv.table (by omega)] at hinv
      exact hinv
  · right
    obtain ⟨s', hclose, hdisk, hmap, hsame, hinv⟩ := rootClosed hg hopened ⟨rfl, Nat.le_refl _, rfl⟩ hinv₁
    rw [hopened.disk] at hunbound hdisk
    refine ⟨s', hunbound, ?_, hdisk, hmap.trans hopened.freeMap, hsame, ?_⟩
    · rw [filesysRemove, hopen, except_ok_bind]
      dsimp only
      rw [hremove, except_ok_bind]
      rw [hclose]
      rfl
    · refine (hg.quiet ?_ hsame hinv).1
      rw [hdisk]
      exact .refl s.disk s.live 0

end OsLabs.Filesys
