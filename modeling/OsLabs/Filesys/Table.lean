import OsLabs.Filesys.Space

/-!
# Open inodes

`Table s live refs` says that the open inodes are different inodes that are alive, with the data the device has for them,
and that `refs` counts who holds a pointer to each of them. Opening and closing keeps it; the last one who closes an inode
that was removed gives its sectors back (`inodeClose_spec`).
-/

namespace OsLabs.Filesys

open Lib LibKernel Function

/-- The open inodes. The free map and the root directory are never removed, and writes to them are never denied. -/
structure Table (s : Fs) (live : Set ℕ) (refs : ℕ → ℕ) : Prop where
  nodup : s.openInodes.Nodup
  mem_iff : ∀ a, a ∈ s.openInodes ↔ ∃ ino, s.inodes a = some ino
  fresh : ∀ a, s.nextInode ≤ a → s.inodes a = none
  inj : ∀ a b i j, s.inodes a = some i → s.inodes b = some j → i.sector = j.sector → a = b
  live : ∀ a i, s.inodes a = some i → i.sector ∈ live
  cached : ∀ a i, s.inodes a = some i → i.data = s.disk.header i.sector
  count : ∀ a i, s.inodes a = some i → i.openCnt = refs a ∧ 0 < refs a
  absent : ∀ a, s.inodes a = none → refs a = 0
  system : ∀ a i, s.inodes a = some i → i.sector < 2 → i.denyWriteCnt = 0 ∧ i.removed = false

variable {s s' : Fs} {live : Set ℕ} {refs : ℕ → ℕ} {a n : ℕ} {ino : Inode} {live' : Set ℕ}

/-- The inode at sector `n` is read, and put on the list. -/
def Fs.enlist (s : Fs) (n : ℕ) : Fs :=
  { s.setInode s.nextInode ⟨n, 1, false, 0, s.disk.header n⟩ with
    openInodes := s.nextInode :: s.openInodes, nextInode := s.nextInode + 1 }

namespace Table

section Table

variable (t : Table s live refs)
include t

/-- The table does not depend on the free map, nor on the data on the device. -/
lemma congr (hopen : s'.openInodes = s.openInodes) (hinodes : s'.inodes = s.inodes)
    (hnext : s'.nextInode = s.nextInode) (hheader : ∀ m ∈ live, s'.disk.header m = s.disk.header m) :
    Table s' live refs where
  nodup := by
    rw [hopen]
    exact t.nodup
  mem_iff a := by
    rw [hopen, hinodes]
    exact t.mem_iff a
  fresh a := by
    rw [hnext, hinodes]
    exact t.fresh a
  inj a b i j := by
    rw [hinodes]
    exact t.inj a b i j
  live a i hi := by
    rw [hinodes] at hi
    exact t.live a i hi
  cached a i hi := by
    rw [hinodes] at hi
    rw [hheader _ (t.live a i hi)]
    exact t.cached a i hi
  count a i hi := by
    rw [hinodes] at hi
    exact t.count a i hi
  absent a := by
    rw [hinodes]
    exact t.absent a
  system a i hi := by
    rw [hinodes] at hi
    exact t.system a i hi

lemma remap {b : Bitmap} {d : Disk} (hquiet : s.disk.Quiet d live n) :
    Table (s.remap b d) live refs :=
  t.congr rfl rfl rfl hquiet.header

lemma grow (hsub : live ⊆ live') : Table s live' refs :=
  { t with live := fun a i hi => hsub (t.live a i hi) }

/-- What is at address `a` changes. -/
lemma update {o : Option Inode} {k : ℕ}
    (hinodes : s'.inodes = Function.update s.inodes a o) (hnodup : s'.openInodes.Nodup)
    (hmem : ∀ b, b ∈ s'.openInodes ↔ if b = a then o.isSome = true else b ∈ s.openInodes)
    (hnext : s.nextInode ≤ s'.nextInode) (hlt : o.isSome = true → a < s'.nextInode)
    (hother : ∀ b j, b ≠ a → s.inodes b = some j → j.sector ∈ live' ∧
      s'.disk.header j.sector = s.disk.header j.sector ∧ ∀ i, o = some i → j.sector ≠ i.sector)
    (hnew : ∀ i, o = some i → i.sector ∈ live' ∧ i.data = s'.disk.header i.sector ∧ i.openCnt = k ∧ 0 < k ∧
      (i.sector < 2 → i.denyWriteCnt = 0 ∧ i.removed = false))
    (hnone : o = none → k = 0) : Table s' live' (Function.update refs a k) := by
  -- an open inode is the one at `a`, or it was there before
  have hat : ∀ b, s'.inodes b = if b = a then o else s.inodes b := by
    intro b
    rw [hinodes]
    by_cases hb : b = a
    · rw [if_pos hb, hb, Function.update_self]
    · rw [if_neg hb, Function.update_of_ne hb]
  have hcases : ∀ b i, s'.inodes b = some i → b = a ∧ o = some i ∨ b ≠ a ∧ s.inodes b = some i := by
    intro b i hb
    rw [hat] at hb
    by_cases hba : b = a
    · rw [if_pos hba] at hb
      exact Or.inl ⟨hba, hb⟩
    · rw [if_neg hba] at hb
      exact Or.inr ⟨hba, hb⟩
  refine ⟨hnodup, fun b => ?_, fun b hb => ?_, fun b c i j hi hj heq => ?_, fun b i hi => ?_, fun b i hi => ?_,
    fun b i hi => ?_, fun b hb => ?_, fun b i hi hlt => ?_⟩
  · rw [hmem, hat]
    by_cases hba : b = a
    · rw [if_pos hba, if_pos hba, Option.isSome_iff_exists]
    · rw [if_neg hba, if_neg hba]
      exact t.mem_iff b
  · rw [hat]
    by_cases hba : b = a
    · rw [if_pos hba]
      by_contra hsome
      have := hlt (Option.isSome_iff_ne_none.mpr hsome)
      omega
    · rw [if_neg hba]
      exact t.fresh b (Nat.le_trans hnext hb)
  · rcases hcases b i hi with ⟨rfl, hi⟩ | ⟨hba, hi⟩
    · rcases hcases c j hj with ⟨rfl, _⟩ | ⟨hca, hj⟩
      · rfl
      · exact absurd heq.symm ((hother c j hca hj).2.2 i hi)
    · rcases hcases c j hj with ⟨rfl, hj⟩ | ⟨_, hj⟩
      · exact absurd heq ((hother b i hba hi).2.2 j hj)
      · exact t.inj b c i j hi hj heq
  · rcases hcases b i hi with ⟨_, hi⟩ | ⟨hba, hi⟩
    · exact (hnew i hi).1
    · exact (hother b i hba hi).1
  · rcases hcases b i hi with ⟨_, hi⟩ | ⟨hba, hi⟩
    · exact (hnew i hi).2.1
    · rw [(hother b i hba hi).2.1]
      exact t.cached b i hi
  · rcases hcases b i hi with ⟨rfl, hi⟩ | ⟨hba, hi⟩
    · rw [Function.update_self]
      exact ⟨(hnew i hi).2.2.1, (hnew i hi).2.2.2.1⟩
    · rw [Function.update_of_ne hba]
      exact t.count b i hi
  · rw [hat] at hb
    by_cases hba : b = a
    · rw [if_pos hba] at hb
      rw [hba, Function.update_self]
      exact hnone hb
    · rw [if_neg hba] at hb
      rw [Function.update_of_ne hba]
      exact t.absent b hb
  · rcases hcases b i hi with ⟨_, hi⟩ | ⟨_, hi⟩
    · exact (hnew i hi).2.2.2.2 hlt
    · exact t.system b i hi hlt

section Inodes

variable (ha : s.inodes a = some ino)
include ha

/-- The other open inodes are in other sectors. -/
lemma sector_ne {b : ℕ} {j : Inode} (hba : b ≠ a)
    (hj : s.inodes b = some j) : j.sector ≠ ino.sector :=
  fun heq => hba (t.inj b a j ino hj ha heq)

lemma lt_next : a < s.nextInode := by
  by_contra hge
  have hnone := t.fresh a (by omega)
  rw [ha] at hnone
  cases hnone

/-- An open inode changes, but not where it is. -/
lemma set (ino' : Inode)
    (hsector : ino'.sector = ino.sector) (hdata : ino'.data = ino.data) {k : ℕ} (hcount : ino'.openCnt = k) (hpos : 0 < k)
    (hsystem : ino'.sector < 2 → ino'.denyWriteCnt = 0 ∧ ino'.removed = false) :
    Table (s.setInode a ino') live (Function.update refs a k) := by
  refine t.update rfl t.nodup (fun b => ?_) (Nat.le_refl _) (fun _ => t.lt_next ha) (fun b j hba hj => ?_)
    (fun i hi => ?_) fun hnone => ?_
  · by_cases hba : b = a
    · rw [if_pos hba, hba]
      exact ⟨fun _ => rfl, fun _ => (t.mem_iff a).mpr ⟨ino, ha⟩⟩
    · rw [if_neg hba]
      exact Iff.rfl
  · refine ⟨t.live b j hj, rfl, fun i hi => ?_⟩
    cases hi
    rw [hsector]
    exact t.sector_ne ha hba hj
  · cases hi
    refine ⟨?_, ?_, hcount, hpos, hsystem⟩
    · rw [hsector]
      exact t.live a ino ha
    · rw [hdata, hsector]
      exact t.cached a ino ha
  · cases hnone

/-- An inode that nobody holds any more is freed. Its sector may have died. -/
lemma free
    (hinodes : s'.inodes = Function.update s.inodes a none) (hopen : s'.openInodes = s.openInodes.erase a)
    (hnext : s'.nextInode = s.nextInode) (hlive : ∀ m ∈ live, m ≠ ino.sector → m ∈ live')
    (hheader : ∀ m ∈ live, m ≠ ino.sector → s'.disk.header m = s.disk.header m) :
    Table s' live' (Function.update refs a 0) := by
  refine t.update hinodes ?_ (fun b => ?_) (Nat.le_of_eq hnext.symm) (fun hsome => ?_) (fun b j hba hj => ?_)
    (fun i hi => ?_) fun _ => rfl
  · rw [hopen]
    exact t.nodup.erase a
  · rw [hopen, t.nodup.mem_erase_iff]
    by_cases hba : b = a
    · simp
    · simp
  · cases hsome
  · have hne := t.sector_ne ha hba hj
    exact ⟨hlive _ (t.live b j hj) hne, hheader _ (t.live b j hj) hne, fun i hi => by cases hi⟩
  · cases hi

end Inodes

/-- An inode that was not open is read from the device. -/
lemma new (hn : n ∈ live) (hclosed : ∀ b j, s.inodes b = some j → j.sector ≠ n) :
    Table (s.enlist n) live (Function.update refs s.nextInode 1) := by
  have hfresh := t.fresh s.nextInode (Nat.le_refl _)
  have hnotin : s.nextInode ∉ s.openInodes := by
    intro hin
    obtain ⟨i, hi⟩ := (t.mem_iff _).mp hin
    rw [hfresh] at hi
    cases hi
  refine t.update rfl (List.nodup_cons.mpr ⟨hnotin, t.nodup⟩) (fun b => ?_) (Nat.le_succ _)
    (fun _ => Nat.lt_succ_self _) (fun b j hba hj => ?_) (fun i hi => ?_) fun hnone => ?_
  · by_cases hba : b = s.nextInode
    · simp [Fs.enlist, hba]
    · simp [Fs.enlist, hba]
  · refine ⟨t.live b j hj, rfl, fun i hi => ?_⟩
    cases hi
    exact hclosed b j hj
  · cases hi
    exact ⟨hn, rfl, rfl, Nat.one_pos, fun _ => ⟨rfl, rfl⟩⟩
  · cases hnone

end Table

end Table

/-! ## Opening -/

/-- The invariant of the file system without the directory. -/
structure Inv (s : Fs) (live : Set ℕ) (refs : ℕ → ℕ) : Prop where
  space : Space s live
  table : Table s live refs

/-- The open inodes change, but not what matters of the free map's. -/
lemma Space.heap (h : Space s live) (hdisk : s'.disk = s.disk) (hmap : s'.freeMap = s.freeMap)
    (hfile : s'.freeMapFile = s.freeMapFile)
    (hinode : ∀ file, s.freeMapFile = some file → ∀ i, s.inodes file.inode = some i → i.sector = 0 →
      ∃ i', s'.inodes file.inode = some i' ∧ i'.sector = 0 ∧ i'.data = i.data ∧ i'.denyWriteCnt = i.denyWriteCnt) :
    Space s' live where
  bits := by
    rw [hmap, hdisk]
    exact h.bits
  layout := by
    rw [hmap, hdisk]
    exact h.layout
  mapped file hsome := by
    rw [hfile] at hsome
    obtain ⟨hzero, ⟨⟨i, hi, hsector, hdata, hdeny⟩, hlength⟩, hsynced⟩ := h.mapped file hsome
    obtain ⟨i', hi', hsector', hdata', hdeny'⟩ := hinode file hsome i hi hsector
    refine ⟨hzero, ⟨⟨i', hi', hsector', ?_, hdeny'.trans hdeny⟩, ?_⟩, ?_⟩
    · rw [hdisk, hdata', hdata]
    · rw [hdisk, hmap]
      exact hlength
    · rw [hdisk, hmap]
      exact hsynced

/-- What is at address `a` changes; it is not the free map's, or its data and permission to write stay. -/
lemma Space.update (h : Space s live) {o : Option Inode} (hdisk : s'.disk = s.disk) (hmap : s'.freeMap = s.freeMap)
    (hfile : s'.freeMapFile = s.freeMapFile) (hinodes : s'.inodes = update s.inodes a o)
    (hsame : ∀ file, s.freeMapFile = some file → file.inode = a → ∀ i, s.inodes a = some i → i.sector = 0 →
      ∃ i', o = some i' ∧ i'.sector = 0 ∧ i'.data = i.data ∧ i'.denyWriteCnt = i.denyWriteCnt) : Space s' live := by
  refine h.heap hdisk hmap hfile fun file hsome i hi hsector => ?_
  rw [hinodes]
  by_cases hfa : file.inode = a
  · rw [hfa] at hi ⊢
    rw [update_self]
    exact hsame file hsome hfa i hi hsector
  · rw [update_of_ne hfa]
    exact ⟨i, hi, hsector, rfl, rfl⟩

lemma Space.mono (h : Space s live) (hsub : live' ⊆ live) (hzero : 0 ∈ live → 0 ∈ live') :
    Space s live' :=
  ⟨h.bits, h.layout.mono hsub, fun file hfile => ⟨hzero (h.mapped file hfile).1, (h.mapped file hfile).2⟩⟩

/-- What `inode_open` of sector `n` does to the state: there is one more pointer to the inode, which is now at `a`. -/
structure Opened (s s' : Fs) (n a : ℕ) (ino : Inode) : Prop where
  disk : s'.disk = s.disk
  freeMap : s'.freeMap = s.freeMap
  freeMapFile : s'.freeMapFile = s.freeMapFile
  inodes : s'.inodes = update s.inodes a (some ino)
  next : s.nextInode ≤ s'.nextInode
  inode : (∃ old, s.inodes a = some old ∧ old.sector = n ∧ ino = { old with openCnt := old.openCnt + 1 }) ∨
    (s.nextInode ≤ a ∧ (∀ b j, s.inodes b = some j → j.sector ≠ n) ∧ ino = ⟨n, 1, false, 0, s.disk.header n⟩)

lemma inodeReopen_spec (h : Inv s live refs) (ha : s.inodes a = some ino) :
    inodeReopen s a = .ok (s.setInode a { ino with openCnt := ino.openCnt + 1 }) ∧
      Inv (s.setInode a { ino with openCnt := ino.openCnt + 1 }) live (update refs a (refs a + 1)) := by
  refine ⟨?_, ?_, ?_⟩
  · rw [inodeReopen, Fs.deref, ha]
    rfl
  · refine h.space.update rfl rfl rfl rfl fun _ _ _ i hi hsector => ?_
    rw [ha] at hi
    cases hi
    exact ⟨_, rfl, hsector, rfl, rfl⟩
  · have hcount := (h.table.count a ino ha).1
    refine h.table.set ha { ino with openCnt := ino.openCnt + 1 } rfl rfl ?_ (Nat.succ_pos _) (h.table.system a ino ha)
    dsimp only
    omega

/-- `inode_open` of an inode that is not open reads it from the device. -/
lemma inodeOpen_eq_of_closed (hlt : n < s.disk.size)
    (hfind : (s.openInodes.find? fun a => (s.inodes a).any fun ino => ino.sector = n) = none) :
    inodeOpen s n = .ok (s.nextInode, s.enlist n) := by
  rw [inodeOpen, hfind]
  rw [blockRead_of_lt hlt]
  rfl

/-- `inode_open` of an inode that is alive. -/
lemma inodeOpen_spec (h : Inv s live refs) (hn : n ∈ live) :
    ∃ a ino s', inodeOpen s n = .ok (a, s') ∧ Opened s s' n a ino ∧
      Inv s' live (update refs a (refs a + 1)) := by
  cases hfind : s.openInodes.find? fun a => (s.inodes a).any fun ino => ino.sector = n with
  | some a =>
    have hpred := List.find?_some hfind
    obtain ⟨ino, ha, hsector⟩ : ∃ ino, s.inodes a = some ino ∧ ino.sector = n := by
      simpa [Option.any_eq_true] using hpred
    obtain ⟨hrun, hinv⟩ := inodeReopen_spec h ha
    refine ⟨a, { ino with openCnt := ino.openCnt + 1 }, s.setInode a { ino with openCnt := ino.openCnt + 1 }, ?_,
      ⟨rfl, rfl, rfl, rfl, Nat.le_refl _, Or.inl ⟨ino, ha, hsector, rfl⟩⟩, hinv⟩
    rw [inodeOpen, hfind]
    dsimp only
    rw [hrun]
    rfl
  | none =>
    have hclosed : ∀ b j, s.inodes b = some j → j.sector ≠ n := by
      intro b j hj hsector
      have hnot := List.find?_eq_none.mp hfind b ((h.table.mem_iff b).mpr ⟨j, hj⟩)
      simp [hj, hsector] at hnot
    have hfresh := h.table.fresh s.nextInode (Nat.le_refl _)
    have hlt : n < s.disk.size := (h.space.layout.owned.taken n hn n (Or.inl rfl)).1
    refine ⟨s.nextInode, ⟨n, 1, false, 0, s.disk.header n⟩, s.enlist n, inodeOpen_eq_of_closed hlt hfind,
      ⟨rfl, rfl, rfl, rfl, Nat.le_succ _, Or.inr ⟨Nat.le_refl _, hclosed, rfl⟩⟩, ?_, ?_⟩
    · refine h.space.update rfl rfl rfl rfl fun _ _ _ i hi => ?_
      rw [hfresh] at hi
      cases hi
    · rw [h.table.absent _ hfresh]
      exact h.table.new hn hclosed

/-! ## Closing -/

/-- The inode at `a` dies with the last pointer to it, if it was removed. -/
def Dies (refs : ℕ → ℕ) (a : ℕ) (ino : Inode) : Prop :=
  refs a = 1 ∧ ino.removed = true

/-- The inodes that are alive after a pointer to `a` is given up. -/
def survivors (live : Set ℕ) (refs : ℕ → ℕ) (a : ℕ) (ino : Inode) : Set ℕ :=
  { m | m ∈ live ∧ ¬(Dies refs a ino ∧ m = ino.sector) }

/-- What `inode_close` does to the state. -/
structure Closed (s s' : Fs) (live : Set ℕ) (refs : ℕ → ℕ) (a : ℕ) (ino : Inode) : Prop where
  freeMapFile : s'.freeMapFile = s.freeMapFile
  next : s'.nextInode = s.nextInode
  inodes : s'.inodes =
    update s.inodes a (if refs a = 1 then none else some { ino with openCnt := ino.openCnt - 1 })
  bits : ∀ x, s'.freeMap.has x = true ↔ s.freeMap.has x = true ∧ ¬(Dies refs a ino ∧ s.disk.Owns ino.sector x)
  quiet : s.disk.Quiet s'.disk (survivors live refs a ino) 0
  kept : ¬Dies refs a ino → s'.disk = s.disk ∧ s'.freeMap = s.freeMap

lemma survivors_of_not_dies (live : Set ℕ) (h : ¬Dies refs a ino) : survivors live refs a ino = live := by
  ext m
  exact ⟨fun hm => hm.1, fun hm => ⟨hm, fun hdies => h hdies.1⟩⟩

/-- The sectors of an inode that dies are released, its own first. -/
lemma release_spec (h : Space s live) {file : File} (hfile : s.freeMapFile = some file) (hn : n ∈ live) (hne : n ≠ 0)
    {data : InodeDisk} (hdata : data = s.disk.header n) :
    ∃ b d, (freeMapRelease s n 1 >>= fun s => freeMapRelease s data.start (bytesToSectors data.length)) =
        .ok (s.remap b d) ∧
      (∀ x, b.has x = true ↔ s.freeMap.has x = true ∧ ¬s.disk.Owns n x) ∧
      s.disk.Quiet d (live \ {n}) 0 ∧ Space (s.remap b d) (live \ {n}) := by
  subst hdata
  have hcovered := h.layout.covered n hn
  have htaken := h.layout.owned.taken n hn
  have hspace : Space s (live \ {n}) := h.mono (fun m hm => hm.1) fun hzero => ⟨hzero, fun heq => hne heq.symm⟩
  have hapart : ∀ m ∈ live \ {n}, ∀ x, s.disk.Owns m x → ¬s.disk.Owns n x :=
    fun m hm x hx => h.layout.owned.not_owns_of_erase hn hm hx
  have hrun : s.freeMap.Run true n 1 := by
    have hself := htaken n (Or.inl rfl)
    refine ⟨?_, fun x hle hlt => ?_⟩
    · rw [h.bits]
      exact hself.1
    · rw [show x = n by omega]
      exact hself.2
  obtain ⟨b₁, d₁, hrelease₁, hhas₁, hquiet₁, hspace₁⟩ := freeMapRelease_spec hspace hfile hrun
    fun m hm x hx hin => hapart m hm x hx (Or.inl (by omega))
  have hrun₁ : (s.remap b₁ d₁).freeMap.Run true (s.disk.header n).start
      (bytesToSectors (s.disk.header n).length) := by
    refine ⟨?_, fun x hle hlt => ?_⟩
    · rw [hspace₁.bits]
      exact Nat.le_trans hcovered.2.2 (Nat.le_of_eq hquiet₁.size.symm)
    · -- the inode does not have its own sector among those of its data
      have hxn : ¬(n ≤ x ∧ x < n + 1) := by
        intro hin
        apply h.layout.apart n hn
        rw [show n = x by omega] at hle hlt ⊢
        exact ⟨hle, hlt⟩
      have hhas : b₁.has x = true := by
        rw [hhas₁, if_neg hxn]
        exact (htaken x (Or.inr ⟨hle, hlt⟩)).2
      exact hhas
  obtain ⟨b₂, d₂, hrelease₂, hhas₂, hquiet₂, hspace₂⟩ := freeMapRelease_spec hspace₁ hfile hrun₁
    fun m hm x hx hin =>
      hapart m hm x ((Disk.owns_of_header_eq (hquiet₁.header m hm) x).mp hx) (Or.inr hin)
  refine ⟨b₂, d₂, ?_, fun x => ?_, hquiet₁.trans hquiet₂, hspace₂⟩
  · rw [hrelease₁, except_ok_bind, hrelease₂]
    rfl
  · have hhas₁' : (s.remap b₁ d₁).freeMap.has x = if n ≤ x ∧ x < n + 1 then false else s.freeMap.has x := hhas₁ x
    rw [hhas₂, hhas₁', Disk.Owns, Disk.Data]
    split_ifs with hin hself
    · simp [hin]
    · have hxn : x = n := by omega
      simp [hxn]
    · have hxn : x ≠ n := by omega
      simp [hin, hxn]

lemma inodeClose_eq_of_kept (ha : s.inodes a = some ino) (hcnt : ino.openCnt - 1 = 0) (hkept : ¬ino.removed = true) :
    inodeClose s a = .ok { s with
      openInodes := s.openInodes.erase a
      inodes := update s.inodes a none } := by
  rw [inodeClose, Fs.deref, ha, except_ok_bind]
  rw [if_pos hcnt, if_neg hkept, except_pure, except_ok_bind]
  simp only [Fs.setInode, update_idem]
  rfl

/-- `inode_close`. The file of the free map is not closed with it. -/
lemma inodeClose_spec (h : Inv s live refs) (ha : s.inodes a = some ino)
    (hfile : Dies refs a ino → ∃ file, s.freeMapFile = some file)
    (hmap : ∀ file, s.freeMapFile = some file → file.inode = a → refs a ≠ 1) :
    ∃ s', inodeClose s a = .ok s' ∧ Closed s s' live refs a ino ∧
      Inv s' (survivors live refs a ino) (update refs a (refs a - 1)) := by
  obtain ⟨hcount, hpos⟩ := h.table.count a ino ha
  by_cases hlast : refs a = 1
  · have hcnt : ino.openCnt - 1 = 0 := by omega
    by_cases hremoved : ino.removed = true
    · have hdies : Dies refs a ino := ⟨hlast, hremoved⟩
      have hsector : ino.sector ≠ 0 := by
        intro hzero
        have hsystem := (h.table.system a ino ha (by omega)).2
        rw [hremoved] at hsystem
        cases hsystem
      obtain ⟨file, hsome⟩ := hfile hdies
      have hsurvivors : survivors live refs a ino = live \ {ino.sector} := by
        ext m
        exact ⟨fun hm => ⟨hm.1, fun heq => hm.2 ⟨hdies, heq⟩⟩, fun hm => ⟨hm.1, fun heq => hm.2 heq.2⟩⟩
      let s₁ : Fs := { s.setInode a { ino with openCnt := ino.openCnt - 1 } with openInodes := s.openInodes.erase a }
      have hspace₁ : Space s₁ live := by
        refine h.space.update rfl rfl rfl rfl fun _ _ _ i hi hsector => ?_
        rw [ha] at hi
        cases hi
        exact ⟨_, rfl, hsector, rfl, rfl⟩
      obtain ⟨b, d, hrelease, hbits, hquiet, hspace⟩ := release_spec hspace₁ hsome (h.table.live a ino ha) hsector
        (h.table.cached a ino ha)
      have hclose : inodeClose s a = .ok { s₁.remap b d with inodes := update s₁.inodes a none } := by
        rw [inodeClose, Fs.deref, ha, except_ok_bind]
        dsimp only [s₁, Fs.setInode] at hrelease ⊢
        rw [if_pos hcnt, if_pos hremoved, ← bind_assoc, hrelease]
        rfl
      refine ⟨_, hclose, ⟨rfl, rfl, ?_, fun x => ?_, ?_, ?_⟩, ?_, ?_⟩
      · rw [if_pos hlast]
        exact update_idem ..
      · rw [and_iff_right hdies]
        exact hbits x
      · rw [hsurvivors]
        exact hquiet
      · exact fun hnot => absurd hdies hnot
      · rw [hsurvivors]
        refine hspace.update rfl rfl rfl rfl fun file hsome hfa => ?_
        exact absurd hlast (hmap file hsome hfa)
      · rw [hsurvivors, hlast]
        refine h.table.free ha (update_idem ..) rfl rfl (fun m hm hne => ⟨hm, hne⟩) fun m hm hne => ?_
        exact hquiet.header m ⟨hm, hne⟩
    · have hnot : ¬Dies refs a ino := fun hdies => hremoved hdies.2
      refine ⟨_, inodeClose_eq_of_kept ha hcnt hremoved, ⟨rfl, rfl, ?_, fun x => ?_, .refl _ _ _, fun _ => ⟨rfl, rfl⟩⟩,
        ?_, ?_⟩
      · rw [if_pos hlast]
      · simp [hnot]
      · rw [survivors_of_not_dies live hnot]
        refine h.space.update rfl rfl rfl rfl fun file hsome hfa => ?_
        exact absurd hlast (hmap file hsome hfa)
      · rw [survivors_of_not_dies live hnot, hlast]
        exact h.table.free ha rfl rfl rfl (fun m hm _ => hm) fun m _ _ => rfl
  · have hnot : ¬Dies refs a ino := fun hdies => hlast hdies.1
    refine ⟨s.setInode a { ino with openCnt := ino.openCnt - 1 }, ?_,
      ⟨rfl, rfl, ?_, fun x => ?_, .refl _ _ _, fun _ => ⟨rfl, rfl⟩⟩, ?_, ?_⟩
    · have hcnt : ino.openCnt - 1 ≠ 0 := by omega
      rw [inodeClose, Fs.deref, ha]
      exact if_neg hcnt
    · rw [if_neg hlast]
      rfl
    · simp [hnot, Fs.setInode]
    · rw [survivors_of_not_dies live hnot]
      refine h.space.update rfl rfl rfl rfl fun _ _ _ i hi hsector => ?_
      rw [ha] at hi
      cases hi
      exact ⟨_, rfl, hsector, rfl, rfl⟩
    · rw [survivors_of_not_dies live hnot]
      refine h.table.set ha { ino with openCnt := ino.openCnt - 1 } rfl rfl ?_ (by omega) (h.table.system a ino ha)
      dsimp only
      omega

/-! ## Changes that leave the inodes where they are -/

namespace Inv

section Inv

variable (h : Inv s live refs)
include h

/-- The flag or the counter of an open inode changes. -/
lemma setInode (ha : s.inodes a = some ino) (hsector : 2 ≤ ino.sector) (ino' : Inode)
    (hsame : ino'.sector = ino.sector) (hdata : ino'.data = ino.data) (hopen : ino'.openCnt = ino.openCnt) :
    Inv (s.setInode a ino') live refs := by
  obtain ⟨hcount, hpos⟩ := h.table.count a ino ha
  constructor
  · refine h.space.update rfl rfl rfl rfl fun _ _ _ i hi hzero => ?_
    rw [ha] at hi
    cases hi
    omega
  · have htable := h.table.set ha ino' hsame hdata (hopen.trans hcount) hpos fun hlt => by omega
    rw [update_eq_self] at htable
    exact htable

/-- The data of an inode changes, not the one of the free map. -/
lemma write {d : Disk} (hquiet : s.disk.Quiet d live n) (hne : n ≠ 0) :
    Inv { s with disk := d } live refs where
  space :=
    { bits := h.space.bits.trans hquiet.size.symm
      layout := h.space.layout.congr hquiet.size hquiet.header fun _ _ _ _ hx => hx
      mapped := fun file hfile => by
        obtain ⟨hzero, hmapped⟩ := h.space.mapped file hfile
        have hsame := hquiet.same 0 hzero hne.symm
        exact ⟨hzero, Mapped.congr (b := s.freeMap) (d := s.disk) hmapped hsame⟩ }
  table := h.table.congr rfl rfl rfl hquiet.header

/-- `inode_read_at`, through a pointer. -/
lemma readAt_eq (ha : s.inodes a = some ino) (buffer : ℕ → UInt8) (size : ℤ) (offset : ℕ) :
    s.readAt a true buffer size offset = .ok (available ino size offset,
      copy buffer 0 (s.disk.byte ino.sector) offset (available ino size offset)) :=
  Fs.readAt_eq h.space.layout (h.table.live a ino ha) ha (h.table.cached a ino ha) buffer size offset

/-- `inode_read_at`, through a pointer, whether or not there is memory for the bounce buffer. -/
lemma readAt_le (ha : s.inodes a = some ino) (bounce : Bool) (buffer : ℕ → UInt8) (size : ℤ)
    (offset : ℕ) :
    ∃ k ≤ available ino size offset, s.readAt a bounce buffer size offset =
      .ok (k, copy buffer 0 (s.disk.byte ino.sector) offset k) := by
  have hdata := h.table.cached a ino ha
  have hdev : OnDevice s.disk ino.data := by
    rw [hdata]
    exact h.space.layout.onDevice (h.table.live a ino ha)
  obtain ⟨k, hk, hrun⟩ := inodeReadAt_le hdev bounce buffer size offset
  refine ⟨k, hk, ?_⟩
  rw [Fs.readAt, Fs.deref, ha, except_ok_bind, hrun, hdata]
  congr 2
  apply copy_congr
  intro i _
  rw [Disk.byte, Nat.add_assoc]

/-- `inode_write_at`, through a pointer. -/
lemma writeAt_spec (ha : s.inodes a = some ino) (hne : ino.sector ≠ 0)
    (hdeny : ino.denyWriteCnt = 0) (buffer : ℕ → UInt8) (size : ℤ) (offset : ℕ) :
    ∃ d : Disk, s.writeAt a true buffer size offset = .ok (available ino size offset, { s with disk := d }) ∧
      s.disk.Quiet d live ino.sector ∧
      d.byte ino.sector = copy (s.disk.byte ino.sector) offset buffer 0 (available ino size offset) ∧
      Inv { s with disk := d } live refs := by
  obtain ⟨d, hrun, hquiet, hbyte⟩ := Fs.writeAt_spec h.space.layout (h.table.live a ino ha) ha
    (h.table.cached a ino ha) hdeny buffer size offset
  exact ⟨d, hrun, hquiet, hbyte, h.write hquiet hne⟩

end Inv

end Inv

end OsLabs.Filesys
