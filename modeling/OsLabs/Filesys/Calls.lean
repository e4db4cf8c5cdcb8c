import OsLabs.Filesys.World

/-!
# Every call returns in a valid state

`World.Valid` is the invariant of the file system with its clients. There is one lemma for each kind of call; `exec_spec`
puts them together, and says next to the invariant what a step does to the inodes that stay open (`Tracks`), and to the
data of the files that stay alive (`Contents`).
-/

namespace OsLabs.Filesys

open Lib LibKernel Function

/-- What matters of the inode at an address to those who have a handle on it: its sector, and how often writes are denied. -/
def Fs.view (s : Fs) (a : ℕ) : Option (ℕ × ℤ) :=
  (s.inodes a).map fun j => (j.sector, j.denyWriteCnt)

variable {s s' : Fs} {a : ℕ}

lemma Fs.view_of_some {ino : Inode} (h : s.inodes a = some ino) :
    s.view a = some (ino.sector, ino.denyWriteCnt) := by
  rw [Fs.view, h]
  rfl

lemma Fs.view_eq_some {n : ℕ} {c : ℤ} (h : s.view a = some (n, c)) :
    ∃ ino, s.inodes a = some ino ∧ ino.sector = n ∧ ino.denyWriteCnt = c := by
  obtain ⟨ino, hino, hpair⟩ := Option.map_eq_some_iff.mp h
  cases hpair
  exact ⟨ino, hino, rfl, rfl⟩

lemma SameInodes.view (h : SameInodes s s') : s'.view = s.view := by
  funext a
  rw [Fs.view, Fs.view, h.inodes]

lemma Removed.view {live : Set ℕ} {name : List UInt8} {n : ℕ} (h : Removed s s' live name n) :
    s'.view = s.view := by
  funext b
  rcases h.inodes with ⟨a, old, hold, _, hinodes⟩ | ⟨_, hinodes⟩
  · by_cases hba : b = a
    · rw [hba, Fs.view_of_some hold, Fs.view, hinodes, update_self]
      rfl
    · rw [Fs.view, Fs.view, hinodes, update_of_ne hba]
  · rw [Fs.view, Fs.view, hinodes]

lemma Fs.view_of_update {b : ℕ} {o : Option Inode} (hinodes : s'.inodes = update s.inodes a o)
    (hba : b ≠ a) : s'.view b = s.view b := by
  rw [Fs.view, Fs.view, hinodes, update_of_ne hba]

lemma SameFiles.of_disk (h : s'.disk = s.disk) : SameFiles s s' := by
  intro m _ _ _
  rw [h]
  exact .refl s.disk m

namespace World

/-- The invariant of the file system with its clients. -/
structure Valid (w : World) : Prop where
  good : Good w.fs w.refs
  held : ∀ x, some x ∈ w.handles → ∃ n c, w.fs.view x.inode = some (n, c) ∧ x.Fits n
  denied : ∀ a n c, w.fs.view a = some (n, c) → c = w.denials a

/-- The file is one on the inode in sector `n`. -/
def isOn (w : World) (n : ℕ) (file : File) : Bool :=
  (w.fs.inodes file.inode).any fun j => j.sector = n

/-- What a call writes to the inode in sector `n`: as much as the call returns. -/
def written (w : World) (n : ℕ) : Op → Option (Write UInt8)
  | .write h buffer size =>
    match w.fileAt h with
    | some file =>
      if w.isOn n file then
        (fileWrite w.fs file buffer size).toOption.map fun r => ⟨file.pos.toNat, buffer, r.1⟩
      else none
    | none => none
  | .writeAt h buffer size ofs =>
    match w.fileAt h with
    | some file =>
      if w.isOn n file then
        (fileWriteAt w.fs file buffer size ofs).toOption.map fun r => ⟨ofs.toNat, buffer, r.1⟩
      else none
    | none => none
  | _ => none

/-- The data of the files that stay alive is what it was, with what was written. -/
def Contents (w : World) (op : Op) (w' : World) : Prop :=
  ∀ n ∈ w.fs.live, n ∈ w'.fs.live → 2 ≤ n → w'.fs.disk.header n = w.fs.disk.header n ∧
    ∀ p : ℕ, p < (w.fs.disk.header n).length →
      w'.fs.disk.byte n p = afterWrites (w.fs.disk.byte n) (w.written n op).toList p

/-- A step to a valid state. -/
structure Goes (w : World) (op : Op) (w' : World) : Prop where
  run : exec w op = .ok w'
  valid : w'.Valid
  tracks : Tracks w.fs w'.fs
  contents : Contents w op w'

variable {w w' : World} {s' : Fs} {x x' : Handle} {h a n : ℕ} {ino : Inode} {op : Op}

/-- A call that writes to no file. -/
lemma Contents.of_sameFiles (hfiles : SameFiles w.fs w'.fs) (hnone : ∀ n, w.written n op = none) :
    Contents w op w' := by
  intro n hn hn' hfile
  rw [hnone]
  exact hfiles n hn hn' hfile

/-! ## Handles -/

lemma fileAt_eq_some {file : File} (hf : w.fileAt h = some file) : w.handles[h]? = some (some (.file file)) := by
  rw [fileAt] at hf
  split at hf
  · rename_i f hget
    cases hf
    exact hget
  · cases hf

lemma dirAt_eq_some {dir : Dir} (hd : w.dirAt h = some dir) : w.handles[h]? = some (some (.dir dir)) := by
  rw [dirAt] at hd
  split at hd
  · rename_i d hget
    cases hd
    exact hget
  · cases hd

section Valid

variable (hv : w.Valid)
include hv

/-- The inode of an open file. -/
lemma Valid.file {file : File} (hx : w.handles[h]? = some (some (.file file))) :
    ∃ ino, w.fs.inodes file.inode = some ino ∧ 2 ≤ ino.sector ∧ 0 ≤ file.pos ∧
      ino.denyWriteCnt = w.denials file.inode := by
  obtain ⟨n, c, hview, hfits⟩ := hv.held (.file file) (List.mem_of_getElem? hx)
  obtain ⟨ino, hino, rfl, rfl⟩ := Fs.view_eq_some hview
  exact ⟨ino, hino, hfits.1, hfits.2, hv.denied _ _ _ hview⟩

variable {file : File}

/-- The inode of an open directory. -/
lemma Valid.dir {dir : Dir} (hx : w.handles[h]? = some (some (.dir dir))) :
    ∃ ino i, RootDir w.fs dir ino ∧ i ≤ 16 ∧ dir.pos = (20 * i : ℕ) := by
  obtain ⟨n, c, hview, rfl, i, hi, hpos⟩ := hv.held (.dir dir) (List.mem_of_getElem? hx)
  obtain ⟨ino, hino, hsector, rfl⟩ := Fs.view_eq_some hview
  exact ⟨ino, i, ⟨hv.good.root, hino, hsector⟩, hi, hpos⟩

/-- Nobody holds an inode that is not open. -/
lemma Valid.denials_eq_zero (ha : w.fs.inodes a = none) : w.denials a = 0 := by
  rw [denials, List.countP_eq_zero]
  intro o ho hdeny
  cases o with
  | none => cases hdeny
  | some x =>
    simp only [denying, Option.any_some, Bool.and_eq_true, decide_eq_true_eq] at hdeny
    obtain ⟨n, c, hview, _⟩ := hv.held x ho
    obtain ⟨ino, hino, _⟩ := Fs.view_eq_some hview
    rw [hdeny.1, ha] at hino
    cases hino

section MapFile

variable (hfile : s'.freeMapFile = w.fs.freeMapFile)
include hfile

/-- The inodes do not change for those who have handles on them. -/
lemma Valid.keep (hgood : Good s' w.refs) (hview : s'.view = w.fs.view) : Valid { w with fs := s' } where
  good := by
    have hrefs : World.refs { w with fs := s' } = w.refs := by
      funext a
      rw [refs, refs, hfile]
    rw [hrefs]
    exact hgood
  held x hx := by
    rw [hview]
    exact hv.held x hx
  denied a n c hc := by
    rw [hview] at hc
    exact hv.denied a n c hc

/-- A new handle that does not deny writes. -/
lemma Valid.pushed (hdenies : x.denies = false)
    (hgood : Good s' (update w.refs x.inode (w.refs x.inode + 1)))
    (hview : ∀ b, b ≠ x.inode → s'.view b = w.fs.view b)
    (hat : ∃ n, s'.view x.inode = some (n, (w.denials x.inode : ℤ)) ∧ x.Fits n ∧
      ∀ m c, w.fs.view x.inode = some (m, c) → m = n) : (w.push s' x).Valid := by
  obtain ⟨n, hat, hfits, hold⟩ := hat
  refine ⟨?_, fun y hy => ?_, fun b m c hc => ?_⟩
  · rw [refs_push hfile]
    exact hgood
  · rcases List.mem_append.mp hy with hy | hy
    · obtain ⟨m, c, hm, hfits'⟩ := hv.held y hy
      by_cases hyx : y.inode = x.inode
      · rw [hyx] at hm ⊢
        rw [hold m c hm] at hfits'
        exact ⟨n, _, hat, hfits'⟩
      · exact ⟨m, c, (hview _ hyx).trans hm, hfits'⟩
    · obtain rfl : y = x := by simpa using hy
      exact ⟨n, _, hat, hfits⟩
  · rw [denials_push w s' hdenies]
    have hc : s'.view b = some (m, c) := hc
    by_cases hbx : b = x.inode
    · rw [hbx, hat] at hc
      cases hc
      rw [hbx]
    · rw [hview b hbx] at hc
      exact hv.denied b m c hc

/-- The value of a handle changes. -/
lemma Valid.stored (hx : w.handles[h]? = some (some x)) (hinode : x'.inode = x.inode)
    (hfits : ∀ n, x.Fits n → x'.Fits n) (hgood : Good s' w.refs)
    (hview : ∀ b, b ≠ x.inode → s'.view b = w.fs.view b)
    (hat : ∀ n c, w.fs.view x.inode = some (n, c) →
      s'.view x.inode = some (n, c + x'.denies.toNat - x.denies.toNat)) : (w.store s' h (some x')).Valid := by
  have hviews : ∀ b n c, w.fs.view b = some (n, c) → ∃ c', s'.view b = some (n, c') := by
    intro b n c hc
    by_cases hbx : b = x.inode
    · rw [hbx] at hc ⊢
      exact ⟨_, hat n c hc⟩
    · exact ⟨c, (hview b hbx).trans hc⟩
  obtain ⟨n₀, c₀, hx₀, hfits₀⟩ := hv.held x (List.mem_of_getElem? hx)
  refine ⟨?_, fun y hy => ?_, fun b m c hc => ?_⟩
  · rw [refs_store hx hfile hinode]
    exact hgood
  · rcases List.mem_or_eq_of_mem_set hy with hy | hy
    · obtain ⟨m, c, hm, hfits'⟩ := hv.held y hy
      obtain ⟨c', hc'⟩ := hviews _ m c hm
      exact ⟨m, c', hc', hfits'⟩
    · cases hy
      rw [hinode]
      exact ⟨n₀, _, hat n₀ c₀ hx₀, hfits n₀ hfits₀⟩
  · have hc : s'.view b = some (m, c) := hc
    have hcount := denials_store hx s' hinode b
    by_cases hbx : b = x.inode
    · subst hbx
      have hold := hv.denied _ n₀ c₀ hx₀
      rw [hat n₀ c₀ hx₀] at hc
      cases hc
      rw [decide_eq_true rfl, Bool.true_and, Bool.true_and] at hcount
      omega
    · rw [hview b hbx] at hc
      have hold := hv.denied b m c hc
      rw [decide_eq_false (Ne.symm hbx), Bool.false_and, Bool.false_and] at hcount
      omega

/-- A handle that does not deny writes is closed. -/
lemma Valid.dropped (hx : w.handles[h]? = some (some x)) (hdenies : x.denies = false)
    (hgood : Good s' (update w.refs x.inode (w.refs x.inode - 1)))
    (hview : ∀ b, b ≠ x.inode → s'.view b = w.fs.view b)
    (hat : s'.view x.inode = if w.refs x.inode = 1 then none else w.fs.view x.inode) : (w.store s' h none).Valid := by
  refine ⟨?_, fun y hy => ?_, fun b m c hc => ?_⟩
  · rw [refs_drop hx hfile]
    exact hgood
  · have hy' : some y ∈ w.handles := by
      rcases List.mem_or_eq_of_mem_set hy with hy | hy
      · exact hy
      · cases hy
    obtain ⟨m, c, hm, hfits⟩ := hv.held y hy'
    refine ⟨m, c, ?_, hfits⟩
    by_cases hyx : y.inode = x.inode
    · have hlt := one_lt_refs hx hy hyx
      have hat' : s'.view y.inode = w.fs.view y.inode := by
        rw [hyx, hat, if_neg (by omega)]
      exact hat'.trans hm
    · exact (hview _ hyx).trans hm
  · rw [denials_drop hx s' hdenies]
    have hc : s'.view b = some (m, c) := hc
    by_cases hbx : b = x.inode
    · rw [hbx, hat] at hc
      split at hc
      · cases hc
      · rw [hbx]
        exact hv.denied _ m c hc
    · rw [hview b hbx] at hc
      exact hv.denied b m c hc

end MapFile

/-! ## Names -/

lemma Goes.same (hrun : exec w op = .ok { w with fs := s' }) (hgood : Good s' w.refs)
    (hsame : SameInodes w.fs s') (hfiles : SameFiles w.fs s') (hnone : ∀ b, w.written b op = none) :
    Goes w op { w with fs := s' } :=
  ⟨hrun, hv.keep hsame.freeMapFile hgood hsame.view, hsame.tracks, .of_sameFiles hfiles hnone⟩

lemma goes_create (name : CStr) {size : ℤ} (hsize : 0 ≤ size ∧ size < 2 ^ 31) :
    ∃ w', Goes w (.create name size) w' := by
  have hrun : ∀ b s', filesysCreate w.fs name size = .ok (b, s') →
      exec w (.create name size) = .ok { w with fs := s' } := by
    intro b s' hcreate
    rw [exec, if_pos hsize, hcreate]
    rfl
  rcases filesysCreate_spec hv.good name hsize.1 hsize.2 with
    ⟨n, k, s', hcreate, _, hcreated, hgood⟩ | ⟨s', hcreate, hrefused, hgood⟩
  · exact ⟨_, .same hv (hrun _ s' hcreate) hgood hcreated.inodes hcreated.files fun _ => rfl⟩
  · exact ⟨_, .same hv (hrun _ s' hcreate) hgood hrefused.inodes hrefused.files fun _ => rfl⟩

lemma goes_remove (name : CStr) : ∃ w', Goes w (.remove name) w' := by
  have hrun : ∀ b s', filesysRemove w.fs name = .ok (b, s') → exec w (.remove name) = .ok { w with fs := s' } := by
    intro b s' hremove
    rw [exec, hremove]
    rfl
  rcases filesysRemove_spec hv.good name with
    ⟨n, s', hbound, hremove, hremoved, hgood⟩ | ⟨s', _, hremove, hdisk, _, hsame, hgood⟩
  · have hfiles := hremoved.sameFiles hv.good hbound
    exact ⟨_, hrun _ s' hremove, hv.keep hremoved.freeMapFile hgood hremoved.view, hremoved.tracks,
      .of_sameFiles hfiles fun _ => rfl⟩
  · exact ⟨_, .same hv (hrun _ s' hremove) hgood hsame (.of_disk hdisk) fun _ => rfl⟩

/-! ## Opening -/

/-- The inode of a new handle. -/
lemma Valid.opened (hopened : Opened w.fs s' n a ino) :
    s'.view a = some (n, (w.denials a : ℤ)) ∧ ∀ m c, w.fs.view a = some (m, c) → m = n := by
  have hview : s'.view a = some (ino.sector, ino.denyWriteCnt) := Fs.view_of_some hopened.self
  rw [hopened.sector] at hview
  rcases hopened.inode with ⟨old, hold, hsector, hino⟩ | ⟨hfresh, _, hino⟩
  · have hold_view := Fs.view_of_some hold
    have hdeny : ino.denyWriteCnt = w.denials a := by
      rw [hino]
      exact hv.denied a _ _ hold_view
    rw [hdeny] at hview
    refine ⟨hview, fun m c hm => ?_⟩
    rw [hold_view] at hm
    cases hm
    exact hsector
  · have hnone := hv.good.inv.table.fresh a hfresh
    have hdeny : ino.denyWriteCnt = w.denials a := by
      rw [hino, hv.denials_eq_zero hnone]
      rfl
    rw [hdeny] at hview
    refine ⟨hview, fun m c hm => ?_⟩
    rw [Fs.view, hnone] at hm
    cases hm

/-- A handle for what was opened. -/
lemma Goes.opened (hrun : exec w op = .ok (w.push s' x)) (hopened : Opened w.fs s' n x.inode ino)
    (hgood : Good s' (update w.refs x.inode (w.refs x.inode + 1))) (hdenies : x.denies = false)
    (hfits : x.Fits n) (hnone : ∀ b, w.written b op = none) : Goes w op (w.push s' x) := by
  have htracks := hopened.tracks hv.good.inv.table
  obtain ⟨hat, hold⟩ := hv.opened hopened
  refine ⟨hrun, hv.pushed hopened.freeMapFile hdenies hgood (fun b hb => ?_) ⟨n, hat, hfits, hold⟩, htracks,
    .of_sameFiles (.of_disk hopened.disk) hnone⟩
  exact Fs.view_of_update hopened.inodes hb

lemma goes_openFile (name : CStr) : ∃ w', Goes w (.openFile name) w' := by
  rcases filesysOpen_spec hv.good name with
    ⟨n, a, ino, s', hbound, hopen, hopened, hgood⟩ | ⟨s', _, hopen, hdisk, _, hsame, hgood⟩
  · have hrun : exec w (.openFile name) = .ok (w.push s' (.file (fileOpen a))) := by
      rw [exec, hopen]
      rfl
    exact ⟨_, .opened hv hrun hopened hgood rfl ⟨hv.good.root.file _ n hbound, Int.le_refl 0⟩ fun _ => rfl⟩
  · have hrun : exec w (.openFile name) = .ok { w with fs := s' } := by
      rw [exec, hopen]
      rfl
    exact ⟨_, .same hv hrun hgood hsame (.of_disk hdisk) fun _ => rfl⟩

lemma goes_openRoot : ∃ w', Goes w .openRoot w' := by
  obtain ⟨dir, ino, s', hopen, hpos, hopened, _, hinv⟩ :=
    dirOpenRoot_spec hv.good.inv hv.good.root hv.good.one_mem
  have hrun : exec w .openRoot = .ok (w.push s' (.dir dir)) := by
    rw [exec, hopen]
    rfl
  have hgood := hv.good.opened (Or.inl (by omega)) hopened hinv
  exact ⟨_, .opened hv hrun hopened hgood rfl ⟨rfl, 0, by omega, hpos⟩ fun _ => rfl⟩

section Handlesh

variable (hx : w.handles[h]? = some (some (.file file)))
include hx

section FileAt

variable (hf : w.fileAt h = some file)
include hf

lemma goes_reopen : ∃ w', Goes w (.reopen h) w' := by
  obtain ⟨ino, hino, hsector, _, _⟩ := hv.file hx
  obtain ⟨hreopen, hinv⟩ := inodeReopen_spec hv.good.inv hino
  let ino' : Inode := { ino with openCnt := ino.openCnt + 1 }
  have hopened : Opened w.fs (w.fs.setInode file.inode ino') ino.sector file.inode ino' :=
    ⟨rfl, rfl, rfl, rfl, Nat.le_refl _, Or.inl ⟨ino, hino, rfl, rfl⟩⟩
  have hrun : exec w (.reopen h) = .ok (w.push (w.fs.setInode file.inode ino') (.file (fileOpen file.inode))) := by
    rw [exec, onFile, hf]
    dsimp only
    rw [fileReopen, hreopen]
    rfl
  have hgood := hv.good.adjust hino ino' rfl rfl hinv
  exact ⟨_, .opened hv hrun hopened hgood rfl ⟨hsector, Int.le_refl 0⟩ fun _ => rfl⟩

/-! ## Reading and writing -/

omit hx hf in
/-- A handle moves, and the file system stays. -/
lemma Goes.moved (hx : w.handles[h]? = some (some x))
    (hrun : exec w op = .ok (w.store w.fs h (some x'))) (hinode : x'.inode = x.inode) (hdenies : x'.denies = x.denies)
    (hfits : ∀ n, x.Fits n → x'.Fits n) (hnone : ∀ b, w.written b op = none) :
    Goes w op (w.store w.fs h (some x')) := by
  refine ⟨hrun, hv.stored rfl hx hinode hfits hv.good (fun _ _ => rfl) (fun n c hc => ?_), .refl w.fs,
    .of_sameFiles (.of_disk rfl) hnone⟩
  rw [hc, hdenies]
  simp

lemma goes_read (buffer : ℕ → UInt8) (size : ℤ) : ∃ w', Goes w (.read h buffer size) w' := by
  obtain ⟨ino, hino, _, hpos, _⟩ := hv.file hx
  obtain ⟨p, hp⟩ := Int.eq_ofNat_of_zero_le hpos
  obtain ⟨k, buffer', hread⟩ : ∃ k buffer', w.fs.readAt file.inode true buffer size file.pos = .ok (k, buffer') := by
    rw [hp]
    exact ⟨_, _, hv.good.inv.readAt_eq hino buffer size p⟩
  have hrun : exec w (.read h buffer size) =
      .ok (w.store w.fs h (some (.file { file with pos := file.pos + k }))) := by
    rw [exec, onFile, hf]
    dsimp only
    rw [fileRead, fileReadAt, hread]
    rfl
  refine ⟨_, .moved hv hx hrun rfl rfl (fun n hfits => ⟨hfits.1, ?_⟩) fun _ => rfl⟩
  dsimp only
  omega

lemma goes_readAt (buffer : ℕ → UInt8) (size : ℤ) {ofs : ℤ} (hofs : 0 ≤ ofs) :
    ∃ w', Goes w (.readAt h buffer size ofs) w' := by
  obtain ⟨ino, hino, _, _, _⟩ := hv.file hx
  obtain ⟨p, rfl⟩ := Int.eq_ofNat_of_zero_le hofs
  have hread := hv.good.inv.readAt_eq hino buffer size p
  have hrun : exec w (.readAt h buffer size p) = .ok { w with fs := w.fs } := by
    rw [exec, onFile, hf]
    dsimp only
    rw [fileReadAt, hread]
    rfl
  exact ⟨_, .same hv hrun hv.good ⟨rfl, Nat.le_refl _, rfl⟩ (.of_disk rfl) fun _ => rfl⟩

lemma goes_seek {pos : ℤ} (hpos : 0 ≤ pos) : ∃ w', Goes w (.seek h pos) w' := by
  have hrun : exec w (.seek h pos) = .ok (w.store w.fs h (some (.file { file with pos }))) := by
    rw [exec, if_pos hpos, onFile, hf]
    dsimp only
    rw [fileSeek, if_pos hpos]
    rfl
  exact ⟨_, .moved hv hx hrun rfl rfl (fun n hfits => ⟨hfits.1, hpos⟩) fun _ => rfl⟩

omit hf in
/-- What `inode_write_at` does to the file system and to the file. -/
lemma Valid.write_spec
    (buffer : ℕ → UInt8) (size : ℤ) (p : ℕ) :
    ∃ ino k d, w.fs.inodes file.inode = some ino ∧
      w.fs.writeAt file.inode true buffer size p = .ok (k, { w.fs with disk := d }) ∧
      Good { w.fs with disk := d } w.refs ∧ w.fs.disk.Quiet d w.fs.live ino.sector ∧
      d.byte ino.sector = copy (w.fs.disk.byte ino.sector) p buffer 0 k := by
  obtain ⟨ino, hino, hsector, _, _⟩ := hv.file hx
  by_cases hdeny : ino.denyWriteCnt = 0
  · obtain ⟨d, hwrite, hquiet, hbyte, hinv⟩ := hv.good.inv.writeAt_spec hino (by omega) hdeny buffer size p
    exact ⟨ino, _, d, hino, hwrite, hv.good.written hsector hquiet hinv, hquiet, hbyte⟩
  · refine ⟨ino, 0, w.fs.disk, hino, Fs.writeAt_denied hino hdeny buffer size p, hv.good, .refl _ _ _, ?_⟩
    rw [copy_zero]

omit hv hx hf in
/-- A write changes the data of its file, and no other. -/
lemma Contents.of_write {k p : ℕ} {d : Disk} {buffer : ℕ → UInt8}
    (hino : w.fs.inodes file.inode = some ino) (hquiet : w.fs.disk.Quiet d w.fs.live ino.sector)
    (hbyte : d.byte ino.sector = copy (w.fs.disk.byte ino.sector) p buffer 0 k) (hdisk : w'.fs.disk = d)
    (hwritten : ∀ n, w.written n op = if w.isOn n file then some ⟨p, buffer, k⟩ else none) : Contents w op w' := by
  intro n hn _ _
  have hon : w.isOn n file = decide (ino.sector = n) := by
    rw [isOn, hino]
    rfl
  rw [hdisk, hwritten, hon]
  refine ⟨hquiet.header n hn, fun q hq => ?_⟩
  by_cases hsector : ino.sector = n
  · subst hsector
    rw [hbyte, decide_eq_true rfl]
    rfl
  · rw [decide_eq_false hsector]
    exact (hquiet.same n hn (Ne.symm hsector)).2 q hq

lemma goes_write (buffer : ℕ → UInt8) (size : ℤ) : ∃ w', Goes w (.write h buffer size) w' := by
  obtain ⟨_, _, _, hpos, _⟩ := hv.file hx
  obtain ⟨p, hp⟩ := Int.eq_ofNat_of_zero_le hpos
  obtain ⟨ino, k, d, hino, hwriteAt, hgood, hquiet, hbyte⟩ := hv.write_spec hx buffer size p
  have hwrite : fileWrite w.fs file buffer size =
      .ok (k, { file with pos := file.pos + k }, { w.fs with disk := d }) := by
    rw [← hp] at hwriteAt
    rw [fileWrite, fileWriteAt, hwriteAt]
    rfl
  have hrun : exec w (.write h buffer size) =
      .ok (w.store { w.fs with disk := d } h (some (.file { file with pos := file.pos + k }))) := by
    rw [exec, onFile, hf]
    dsimp only
    rw [hwrite]
    rfl
  refine ⟨_, hrun, ?_, SameInodes.tracks ⟨rfl, Nat.le_refl _, rfl⟩, .of_write hino hquiet hbyte rfl fun b => ?_⟩
  · refine hv.stored rfl hx rfl (fun n hfits => ⟨hfits.1, ?_⟩) hgood (fun _ _ => rfl) fun n c hc => ?_
    · dsimp only
      omega
    · have hview : Fs.view { w.fs with disk := d } = w.fs.view := rfl
      rw [hview]
      rw [hc]
      simp [Handle.denies]
  · have htoNat : file.pos.toNat = p := by omega
    rw [written, hf]
    dsimp only
    rw [hwrite, htoNat]
    rfl

lemma goes_writeAt (buffer : ℕ → UInt8) (size : ℤ) {ofs : ℤ} (hofs : 0 ≤ ofs) :
    ∃ w', Goes w (.writeAt h buffer size ofs) w' := by
  obtain ⟨p, rfl⟩ := Int.eq_ofNat_of_zero_le hofs
  obtain ⟨ino, k, d, hino, hwriteAt, hgood, hquiet, hbyte⟩ := hv.write_spec hx buffer size p
  have hrun : exec w (.writeAt h buffer size p) = .ok { w with fs := { w.fs with disk := d } } := by
    rw [exec, onFile, hf]
    dsimp only
    rw [fileWriteAt, hwriteAt]
    rfl
  refine ⟨_, hrun, hv.keep rfl hgood rfl, SameInodes.tracks ⟨rfl, Nat.le_refl _, rfl⟩,
    .of_write hino hquiet hbyte rfl fun b => ?_⟩
  rw [written, hf]
  dsimp only
  rw [fileWriteAt, hwriteAt]
  rfl

end FileAt

/-! ## Denying writes -/

omit hx in
/-- The count of an inode that is not the one of the free map or the root directory changes. -/
lemma Valid.recount (hino : w.fs.inodes a = some ino) (hsector : 2 ≤ ino.sector) (c : ℤ) :
    Good (w.fs.setInode a { ino with denyWriteCnt := c }) w.refs ∧
      Tracks w.fs (w.fs.setInode a { ino with denyWriteCnt := c }) := by
  constructor
  · exact hv.good.adjust hino _ rfl rfl (hv.good.inv.setInode hino hsector _ rfl rfl rfl)
  · refine .update (Nat.le_refl _) rfl (fun _ _ => Or.inl ⟨ino, hino⟩) fun j j' hj hj' => ?_
    rw [hino] at hj
    cases hj
    cases hj'
    exact ⟨rfl, rfl, id⟩

/-- The flag of a handle and the count of its inode change together. -/
lemma Valid.flagged
    (hino : w.fs.inodes file.inode = some ino) (hsector : 2 ≤ ino.sector) {c : ℤ} {flag : Bool}
    (hc : c = ino.denyWriteCnt + flag.toNat - file.denyWrite.toNat) :
    (w.store (w.fs.setInode file.inode { ino with denyWriteCnt := c }) h
      (some (.file { file with denyWrite := flag }))).Valid := by
  subst hc
  refine hv.stored rfl hx rfl (fun n hfits => hfits) (hv.recount hino hsector _).1 (fun b hb => ?_) fun n c' hview => ?_
  · exact Fs.view_of_update rfl hb
  · have hold : w.fs.view file.inode = some (n, c') := hview
    rw [Fs.view_of_some hino] at hold
    cases hold
    exact Fs.view_of_some (Fs.setInode_self ..)

omit hx in
/-- Nothing is stored but what is there. -/
lemma Valid.restored (hx : w.handles[h]? = some (some x)) : (w.store w.fs h (some x)).Valid := by
  refine hv.stored rfl hx rfl (fun _ hfits => hfits) hv.good (fun _ _ => rfl) fun n c hc => ?_
  rw [hc]
  simp

omit hv hx in
lemma file_eta {flag : Bool} (hflag : file.denyWrite = flag) : { file with denyWrite := flag } = file := by
  subst hflag
  rfl

lemma fileDenyWrite_spec :
    ∃ s', fileDenyWrite w.fs file = .ok ({ file with denyWrite := true }, s') ∧
      (w.store s' h (some (.file { file with denyWrite := true }))).Valid ∧ Tracks w.fs s' ∧ s'.disk = w.fs.disk := by
  obtain ⟨ino, hino, hsector, _, hdeny⟩ := hv.file hx
  by_cases hflag : file.denyWrite = true
  · rw [fileDenyWrite, if_pos hflag, file_eta hflag]
    exact ⟨w.fs, rfl, hv.restored hx, .refl w.fs, rfl⟩
  · have hopen := (hv.good.inv.table.count _ ino hino).1
    -- this handle does not deny writes yet, so there is room for one more that does
    have hlt : w.denials file.inode < w.refs file.inode :=
      denials_lt_refs hx (by rw [Handle.denies]; simpa using hflag)
    have hrun : fileDenyWrite w.fs file = .ok ({ file with denyWrite := true },
        w.fs.setInode file.inode { ino with denyWriteCnt := ino.denyWriteCnt + 1 }) := by
      rw [fileDenyWrite, if_neg hflag, inodeDenyWrite, Fs.deref, hino, except_ok_bind, if_pos (by omega)]
      rfl
    refine ⟨_, hrun, hv.flagged hx hino hsector ?_, (hv.recount hino hsector _).2, rfl⟩
    simp [hflag]

lemma fileAllowWrite_spec :
    ∃ s', fileAllowWrite w.fs file = .ok ({ file with denyWrite := false }, s') ∧
      (w.store s' h (some (.file { file with denyWrite := false }))).Valid ∧ Tracks w.fs s' ∧
      s'.disk = w.fs.disk ∧ s'.freeMap = w.fs.freeMap ∧ s'.freeMapFile = w.fs.freeMapFile ∧ s'.live = w.fs.live := by
  obtain ⟨ino, hino, hsector, _, hdeny⟩ := hv.file hx
  by_cases hflag : file.denyWrite = true
  · have hopen := (hv.good.inv.table.count _ ino hino).1
    have hpos : 0 < w.denials file.inode := denials_pos hx hflag
    have hle := denials_le_refs w file.inode
    have hrun : fileAllowWrite w.fs file = .ok ({ file with denyWrite := false },
        w.fs.setInode file.inode { ino with denyWriteCnt := ino.denyWriteCnt - 1 }) := by
      rw [fileAllowWrite, if_pos hflag, inodeAllowWrite, Fs.deref, hino, except_ok_bind,
        if_pos ⟨by omega, by omega⟩]
      rfl
    refine ⟨_, hrun, hv.flagged hx hino hsector ?_, (hv.recount hino hsector _).2, rfl, rfl, rfl,
      Fs.live_setInode hino _ rfl⟩
    simp [hflag]
  · have hfalse : file.denyWrite = false := by simpa using hflag
    rw [fileAllowWrite, if_neg hflag, file_eta hfalse]
    exact ⟨w.fs, rfl, hv.restored hx, .refl w.fs, rfl, rfl, rfl, rfl⟩

lemma goes_denyWrite
    (hf : w.fileAt h = some file) : ∃ w', Goes w (.denyWrite h) w' := by
  obtain ⟨s', hdeny, hvalid, htracks, hdisk⟩ := fileDenyWrite_spec hv hx
  refine ⟨_, ?_, hvalid, htracks, .of_sameFiles (.of_disk hdisk) fun _ => rfl⟩
  rw [exec, onFile, hf]
  dsimp only
  rw [hdeny]
  rfl

lemma goes_allowWrite
    (hf : w.fileAt h = some file) : ∃ w', Goes w (.allowWrite h) w' := by
  obtain ⟨s', hallow, hvalid, htracks, hdisk, _⟩ := fileAllowWrite_spec hv hx
  refine ⟨_, ?_, hvalid, htracks, .of_sameFiles (.of_disk hdisk) fun _ => rfl⟩
  rw [exec, onFile, hf]
  dsimp only
  rw [hallow]
  rfl

/-! ## Closing -/

omit hx in
/-- A pointer is given up, and its handle closed. -/
lemma inodeClose_valid (hx : w.handles[h]? = some (some x)) (hdenies : x.denies = false)
    (hino : w.fs.inodes x.inode = some ino) (hsector : ino.sector ≠ 0) :
    ∃ s', inodeClose w.fs x.inode = .ok s' ∧ (w.store s' h none).Valid ∧
      Closed w.fs s' w.fs.live w.refs x.inode ino ∧ SameFiles w.fs s' := by
  obtain ⟨a, hfile⟩ := hv.good.mounted
  obtain ⟨s', hclose, hclosed, hinv⟩ := inodeClose_spec hv.good.inv hino (fun _ => ⟨_, hfile⟩) (by
    intro file hfile heq
    obtain ⟨j, hj, hzero, _⟩ := (hv.good.inv.space.mapped file hfile).2.inode
    rw [heq, hino] at hj
    cases hj
    exact absurd hzero hsector)
  obtain ⟨hgood, hfiles⟩ := hv.good.closed hino hclosed hinv
  refine ⟨s', hclose, hv.dropped hclosed.freeMapFile hx hdenies hgood (fun b hb => ?_) ?_, hclosed, hfiles⟩
  · exact Fs.view_of_update hclosed.inodes hb
  · rw [Fs.view, hclosed.inodes, update_self, Fs.view_of_some hino]
    split <;> rfl

/-- What `file_close` does with the sectors of the file. -/
structure FileClosed (w : World) (s' : Fs) (file : File) (ino : Inode) : Prop where
  tracks : Tracks w.fs s'
  files : SameFiles w.fs s'
  gone : w.refs file.inode = 1 ↔ s'.inodes file.inode = none
  bits : ∀ x, s'.freeMap.has x = true ↔
    w.fs.freeMap.has x = true ∧ ¬((w.refs file.inode = 1 ∧ ino.removed = true) ∧ w.fs.disk.Owns ino.sector x)

lemma fileClose_spec
    (hino : w.fs.inodes file.inode = some ino) :
    ∃ s', fileClose w.fs file = .ok s' ∧ (w.store s' h none).Valid ∧ FileClosed w s' file ino := by
  obtain ⟨s₁, hallow, hv₁, htracks₁, hdisk₁, hmap₁, hfile₁, hlive₁⟩ := fileAllowWrite_spec hv hx
  let x₁ : Handle := .file { file with denyWrite := false }
  have hlt : h < w.handles.length := (List.getElem?_eq_some_iff.mp hx).1
  have hx₁ : (w.store s₁ h (some x₁)).handles[h]? = some (some x₁) := by
    rw [store, List.getElem?_set_self hlt]
  obtain ⟨ino₁, hino₁, hsector₁, _, _⟩ := hv₁.file hx₁
  obtain ⟨s', hclose, hvalid, hclosed, hfiles⟩ := inodeClose_valid hv₁ hx₁ rfl hino₁ (by omega)
  have hstore : (w.store s₁ h (some x₁)).store s' h none = w.store s' h none := by
    rw [store, store, store, List.set_set]
  rw [hstore] at hvalid
  have hrefs : (w.store s₁ h (some x₁)).refs = w.refs := refs_store hx hfile₁ rfl
  rw [hrefs] at hclosed
  obtain ⟨hsector, _⟩ := htracks₁.kept _ ino ino₁ hino hino₁
  -- both are removed if, and only if, the file has no name
  have hremoved : ino₁.removed = true ↔ ino.removed = true := by
    have h₁ : ino₁.removed = true ↔ ∀ v, ¬s₁.disk.Bound v ino₁.sector := hv₁.good.removed _ ino₁ hino₁ hsector₁
    rw [hsector, hdisk₁] at h₁
    exact h₁.trans (hv.good.removed _ ino hino (hsector ▸ hsector₁)).symm
  refine ⟨s', ?_, hvalid, htracks₁.trans hv.good.inv.table (hclosed.tracks hino₁), ?_, ?_, fun x => ?_⟩
  · rw [fileClose, hallow]
    exact hclose
  · intro m hm hm'
    rw [← hdisk₁]
    rw [← hlive₁] at hm
    exact hfiles m hm hm'
  · have hat : s'.inodes file.inode =
        if w.refs file.inode = 1 then none else some { ino₁ with openCnt := ino₁.openCnt - 1 } := by
      rw [hclosed.inodes]
      exact update_self ..
    rw [hat]
    by_cases hlast : w.refs file.inode = 1
    · rw [if_pos hlast]
      exact ⟨fun _ => rfl, fun _ => hlast⟩
    · rw [if_neg hlast]
      exact ⟨fun heq => absurd heq hlast, by simp⟩
  · have hbits := hclosed.bits x
    have hmap : (w.store s₁ h (some x₁)).fs.freeMap = w.fs.freeMap := hmap₁
    have hdisk : (w.store s₁ h (some x₁)).fs.disk = w.fs.disk := hdisk₁
    rw [Dies, hremoved, hsector, hmap, hdisk] at hbits
    exact hbits

omit hx in
lemma goes_closeDir {dir : Dir} (hx : w.handles[h]? = some (some (.dir dir)))
    (hd : w.dirAt h = some dir) : ∃ w', Goes w (.closeDir h) w' := by
  obtain ⟨ino, _, hroot, _, _⟩ := hv.dir hx
  have hsector := hroot.sector
  obtain ⟨s', hclose, hvalid, hclosed, hfiles⟩ := inodeClose_valid hv hx rfl hroot.inode (by omega)
  have htracks := hclosed.tracks hroot.inode
  refine ⟨_, ?_, hvalid, htracks, .of_sameFiles hfiles fun _ => rfl⟩
  have hclose' : dirClose w.fs dir = .ok s' := hclose
  rw [exec, onDir, hd]
  dsimp only
  rw [hclose']
  rfl

lemma goes_close
    (hf : w.fileAt h = some file) : ∃ w', Goes w (.close h) w' := by
  obtain ⟨ino, hino, _⟩ := hv.file hx
  obtain ⟨s', hclose, hvalid, hclosed⟩ := fileClose_spec hv hx hino
  refine ⟨_, ?_, hvalid, hclosed.tracks, .of_sameFiles hclosed.files fun _ => rfl⟩
  rw [exec, onFile, hf]
  dsimp only
  rw [hclose]
  rfl

end Handlesh

lemma goes_readdir {dir : Dir} (hx : w.handles[h]? = some (some (.dir dir)))
    (hd : w.dirAt h = some dir) : ∃ w', Goes w (.readdir h) w' := by
  obtain ⟨ino, i, hroot, hi, hpos⟩ := hv.dir hx
  have hdir : dir = ⟨dir.inode, (20 * i : ℕ)⟩ := by
    rw [← hpos]
  obtain ⟨o, j, hj, hread⟩ : ∃ o j, j ≤ 16 ∧
      dirReaddir w.fs dir (fun _ => true) = .ok (o, ⟨dir.inode, (20 * j : ℕ)⟩) := by
    have hloop : dirReaddir w.fs dir (fun _ => true) =
        readdirLoop w.fs (fun _ => true) 17 ⟨dir.inode, (20 * i : ℕ)⟩ fun _ => 0 := by
      rw [dirReaddir, hroot.entryRounds_eq hv.good.inv, except_ok_bind, ← hdir]
    rw [hloop]
    rcases readdirLoop_spec hroot hv.good.inv (show 17 ≤ i + 17 by omega) hi fun _ => 0 with
      ⟨j, v, _, _, hj, _, _, hrun⟩ | ⟨_, hrun⟩
    · exact ⟨some v, j + 1, hj, hrun⟩
    · exact ⟨none, 16, Nat.le_refl 16, hrun⟩
  have hrun : exec w (.readdir h) = .ok (w.store w.fs h (some (.dir ⟨dir.inode, (20 * j : ℕ)⟩))) := by
    rw [exec, onDir, hd]
    dsimp only
    rw [hread]
    rfl
  exact ⟨_, .moved hv hx hrun rfl rfl (fun n hfits => ⟨hfits.1, j, hj, rfl⟩) fun _ => rfl⟩

/-! ## All calls -/

/-- Every call from a valid state returns, in a valid state, unless its handle is not open or its arguments are out of
range. -/
lemma exec_spec (op : Op) : exec w op = .error .disabled ∨ ∃ w', Goes w op w' := by
  have hfile : ∀ (h : ℕ) (f : File → Except Panic World),
      (∀ file, w.handles[h]? = some (some (.file file)) → w.fileAt h = some file → ∃ w', Goes w op w') →
      w.onFile h f = .error .disabled ∨ ∃ w', Goes w op w' := by
    intro h f hgoes
    cases hf : w.fileAt h with
    | none =>
      left
      rw [onFile, hf]
    | some file => exact Or.inr (hgoes file (fileAt_eq_some hf) hf)
  have hdir : ∀ (h : ℕ) (f : Dir → Except Panic World),
      (∀ dir, w.handles[h]? = some (some (.dir dir)) → w.dirAt h = some dir → ∃ w', Goes w op w') →
      w.onDir h f = .error .disabled ∨ ∃ w', Goes w op w' := by
    intro h f hgoes
    cases hd : w.dirAt h with
    | none =>
      left
      rw [onDir, hd]
    | some dir => exact Or.inr (hgoes dir (dirAt_eq_some hd) hd)
  cases op with
  | create name size =>
    by_cases hsize : 0 ≤ size ∧ size < 2 ^ 31
    · exact Or.inr (goes_create hv name hsize)
    · exact Or.inl (if_neg hsize)
  | remove name => exact Or.inr (goes_remove hv name)
  | openFile name => exact Or.inr (goes_openFile hv name)
  | reopen h => exact hfile h _ fun file hx hf => goes_reopen hv hx hf
  | close h => exact hfile h _ fun file hx hf => goes_close hv hx hf
  | read h buffer size => exact hfile h _ fun file hx hf => goes_read hv hx hf buffer size
  | write h buffer size => exact hfile h _ fun file hx hf => goes_write hv hx hf buffer size
  | readAt h buffer size ofs =>
    by_cases hofs : 0 ≤ ofs
    · rw [exec, if_pos hofs]
      exact hfile h _ fun file hx hf => goes_readAt hv hx hf buffer size hofs
    · exact Or.inl (if_neg hofs)
  | writeAt h buffer size ofs =>
    by_cases hofs : 0 ≤ ofs
    · rw [exec, if_pos hofs]
      exact hfile h _ fun file hx hf => goes_writeAt hv hx hf buffer size hofs
    · exact Or.inl (if_neg hofs)
  | seek h pos =>
    by_cases hpos : 0 ≤ pos
    · rw [exec, if_pos hpos]
      exact hfile h _ fun file hx hf => goes_seek hv hx hf hpos
    · exact Or.inl (if_neg hpos)
  | denyWrite h => exact hfile h _ fun file hx hf => goes_denyWrite hv hx hf
  | allowWrite h => exact hfile h _ fun file hx hf => goes_allowWrite hv hx hf
  | openRoot => exact Or.inr (goes_openRoot hv)
  | readdir h => exact hdir h _ fun dir hx hd => goes_readdir hv hx hd
  | closeDir h => exact hdir h _ fun dir hx hd => goes_closeDir hv hx hd

end Valid

end World

end OsLabs.Filesys
