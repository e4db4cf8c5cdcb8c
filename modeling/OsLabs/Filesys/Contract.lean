import OsLabs.Filesys.Mount

/-!
# What the file system promises

Every state that calls reach on a formatted device is valid (`reachable_valid`). This gives the three contracts here:

* `disk_space_safe`: the inodes that are alive have their own sectors, and no call fails an assertion;
* `failed_create_unchanged`: when a call of `filesys_create` that fails leaves everything as it was;
* `root_directory_map`: the root directory is a finite map from names to sectors.
-/

namespace OsLabs.Filesys

open Lib LibKernel

namespace World

variable {w w' : World} {op : Op} {ops : List Op} {n : ℕ}

/-! ## Reachable states -/

lemma goes_of_exec (hv : w.Valid) (hexec : exec w op = .ok w') : Goes w op w' := by
  rcases exec_spec hv op with hdisabled | ⟨w'', hgoes⟩
  · rw [hexec] at hdisabled
    cases hdisabled
  · have hrun := hgoes.run
    rw [hexec] at hrun
    cases hrun
    exact hgoes

lemma goes_of_step (hv : w.Valid) (hstep : machine.step w op = some w') : Goes w op w' :=
  goes_of_exec hv (Machine.ofExec_step.mp hstep)

lemma reachable_valid (h : machine.Reachable w) : w.Valid := by
  refine h.invariant ?_ ?_
  · intro w hinit
    exact format_valid hinit
  · intro w op w' _ hv hstep
    exact (goes_of_step hv hstep).valid

/-- A formatted device of eight sectors. -/
def formatted : World :=
  ⟨(filesysInit (Fs.boot ⟨8, by decide, fun _ => 0⟩) (fun _ => 0) true).toOption.getD (Fs.boot ⟨8, by decide, fun _ => 0⟩),
    []⟩

lemma formatted_formatted : formatted.Formatted := by
  refine ⟨⟨8, by decide, fun _ => 0⟩, fun _ => 0, ?_, rfl⟩
  have hok : (filesysInit (Fs.boot ⟨8, by decide, fun _ => 0⟩) (fun _ => 0) true).toOption.isSome = true := by
    decide +kernel
  unfold formatted
  cases hinit : filesysInit (Fs.boot ⟨8, by decide, fun _ => 0⟩) (fun _ => 0) true with
  | error e =>
    rw [hinit] at hok
    cases hok
  | ok s => rfl

/-- The formatted device after some calls. -/
def after (ops : List Op) : World :=
  (machine.run formatted ops).getD formatted

lemma after_reachable (ops : List Op) : machine.Reachable (after ops) := by
  unfold after
  cases hrun : machine.run formatted ops with
  | none => exact .init formatted_formatted
  | some w => exact ⟨formatted, ops, formatted_formatted, hrun⟩

/-- One more call. -/
lemma exec_after (h : (machine.run formatted (ops ++ [op])).isSome = true) :
    exec (after ops) op = .ok (after (ops ++ [op])) := by
  obtain ⟨t, ht⟩ := Option.isSome_iff_exists.mp h
  obtain ⟨r, hr, hstep⟩ := machine.run_snoc_eq_some.mp ht
  unfold after
  rw [ht, hr]
  exact Machine.ofExec_step.mp hstep

lemma nameA_ne_zero : ∀ c ∈ ([97] : List UInt8), c ≠ 0 := by decide

/-- The name of a file. -/
def nameA : CStr := ⟨[97], nameA_ne_zero⟩

/-! ## The space on the device -/

/-- The sectors of the inodes that are open, one for each. -/
lemma nodup_openSectors (hv : w.Valid) : (w.fs.openInodes.map fun a => (w.fs.inodes a).map Inode.sector).Nodup := by
  apply List.Nodup.map_on ?_ hv.good.inv.table.nodup
  intro a ha b hb heq
  obtain ⟨i, hi⟩ := (hv.good.inv.table.mem_iff a).mp ha
  obtain ⟨j, hj⟩ := (hv.good.inv.table.mem_iff b).mp hb
  rw [hi, hj] at heq
  have hsector : i.sector = j.sector := by simpa using heq
  exact hv.good.inv.table.inj a b i j hi hj hsector

/-- No assertion fails. -/
lemma exec_ne_fault (hv : w.Valid) (op : Op) (p : Panic) : exec w op ≠ .error (.fault p) := by
  intro hfault
  rcases exec_spec hv op with hdisabled | ⟨w', hgoes⟩
  · rw [hfault] at hdisabled
    cases hdisabled
  · have hrun := hgoes.run
    rw [hfault] at hrun
    cases hrun

/-- The inodes that are alive have different sectors of the device that are in use, for themselves and their data; an inode
is open once; and no assertion fails, whatever is called. -/
theorem disk_space_safe (hw : machine.Reachable w) :
    (∀ n ∈ w.fs.live, ∀ x, w.fs.disk.Owns n x → x < w.fs.disk.size ∧ w.fs.freeMap.has x = true) ∧
    (∀ n ∈ w.fs.live, ∀ m ∈ w.fs.live, ∀ x, w.fs.disk.Owns n x → w.fs.disk.Owns m x → n = m) ∧
    (∀ n ∈ w.fs.live, ¬w.fs.disk.Data n n) ∧
    (∀ a ino, w.fs.inodes a = some ino → ino.data = w.fs.disk.header ino.sector) ∧
    (w.fs.openInodes.map fun a => (w.fs.inodes a).map Inode.sector).Nodup ∧
    ∀ op p, exec w op ≠ .error (.fault p) := by
  have hv := reachable_valid hw
  have hlayout := hv.good.inv.space.layout
  exact ⟨hlayout.owned.taken, hlayout.owned.unique, hlayout.apart, hv.good.inv.table.cached, nodup_openSectors hv,
    exec_ne_fault hv⟩

/-- A file that was removed while it is open. -/
def openRemoved : World :=
  after [.create nameA 600, .openFile nameA, .remove nameA]

lemma openRemoved_reachable : machine.Reachable openRemoved :=
  after_reachable _

theorem disk_space_safe_openRemoved :
    (openRemoved.fs.inodes 4).map (fun j => (j.sector, j.removed)) = some (4, true) ∧
    (openRemoved.fs.openInodes.map fun a => (openRemoved.fs.inodes a).map Inode.sector).Nodup ∧
    ∀ op p, exec openRemoved op ≠ .error (.fault p) :=
  ⟨by decide +kernel, (disk_space_safe openRemoved_reachable).2.2.2.2⟩

/-! ## A create that fails -/

/-- The directory is the same if its bytes are. -/
lemma entry_eq_of_same (hv : w.Valid) {s' : Fs} (h : w.fs.disk.Same s'.disk 1) :
    ∀ i < 16, ∀ k < 20, s'.disk.entry i k = w.fs.disk.entry i k := by
  intro i hi k hk
  exact h.entry hv.good.root.length hi hk

/-- A call of `filesys_create` that fails leaves the directory as it was. The free map is what it was if, and only if, the
size is zero or there was no room for the file: when the name is what is wrong, the sectors for the data were taken already
and are not given back. -/
theorem failed_create_unchanged (hw : machine.Reachable w) (name : CStr) {size : ℤ} (hnonneg : 0 ≤ size)
    (hlt : size < 2 ^ 31) {s' : Fs} (hfail : filesysCreate w.fs name size = .ok (false, s')) :
    ((∀ x, s'.freeMap.has x = w.fs.freeMap.has x) ∧ ∀ i < 16, ∀ k < 20, s'.disk.entry i k = w.fs.disk.entry i k) ↔
      size = 0 ∨ ¬w.fs.HasRoom size := by
  have hv := reachable_valid hw
  rcases filesysCreate_spec hv.good name hnonneg hlt with
    ⟨n, k, s'', hcreate, _⟩ | ⟨s'', hcreate, hrefused, _⟩
  · rw [hfail] at hcreate
    cases hcreate
  · rw [hfail] at hcreate
    cases hcreate
    have hentries := entry_eq_of_same hv hrefused.entries
    constructor
    · rintro ⟨hbits, _⟩
      by_contra hcond
      obtain ⟨hpos, hroom⟩ : size ≠ 0 ∧ w.fs.HasRoom size := by
        simpa using hcond
      rcases hrefused.bits with ⟨hnoroom, _⟩ | ⟨_, n, k, _, hrun, hhas⟩
      · exact hnoroom hroom
      · -- the first sector of the data was free
        have hcnt : 0 < sectorsFor size := by
          unfold sectorsFor
          omega
        have hfree := (hrun.2 k (Nat.le_refl k) (by omega)).1
        have hleak := (hhas k).mpr (Or.inr ⟨Nat.le_refl k, by omega⟩)
        rw [hbits, hfree] at hleak
        cases hleak
    · intro hcond
      refine ⟨fun x => ?_, hentries⟩
      rcases hrefused.bits with ⟨_, hsame⟩ | ⟨_, n, k, hfirst, hrun, hhas⟩
      · exact hsame x
      · -- there was room, so there is no data
        have hsize : size = 0 := by
          rcases hcond with hsize | hnoroom
          · exact hsize
          · exact absurd ⟨n, hfirst, k, hrun⟩ hnoroom
        have hcnt : sectorsFor size = 0 := by
          rw [hsize]
          rfl
        rw [Bool.eq_iff_iff, hhas x, hcnt]
        constructor
        · rintro (hx | hx)
          · exact hx
          · omega
        · exact Or.inl

/-- A file of one byte. -/
def created : World :=
  after [.create nameA 1]

lemma created_reachable : machine.Reachable created :=
  after_reachable _

/-- The file is created again, without data: the call fails and changes nothing. -/
theorem failed_create_unchanged_empty :
    (filesysCreate created.fs nameA 0).toOption.map Prod.fst = some false ∧
    ∀ s', filesysCreate created.fs nameA 0 = .ok (false, s') → ∀ x, s'.freeMap.has x = created.fs.freeMap.has x :=
  ⟨by decide +kernel, fun _ hfail =>
    ((failed_create_unchanged created_reachable nameA (by omega) (by omega) hfail).mpr (Or.inl rfl)).1⟩

/-- The file is created again, with one byte: the call fails, and sector 7 is in use after it. -/
theorem failed_create_leaks :
    machine.Reachable created ∧
    (List.range 8).map created.fs.freeMap.has = [true, true, true, true, true, true, false, false] ∧
    ((filesysCreate created.fs nameA 1).toOption.map fun r => (r.1, (List.range 8).map r.2.freeMap.has)) =
      some (false, [true, true, true, true, true, true, false, true]) :=
  ⟨created_reachable, by decide +kernel, by decide +kernel⟩

/-! ## The root directory -/

/-- What `filesys_create` does to the directory. -/
lemma create_map (hv : w.Valid) (name : CStr) {size : ℤ} (hnonneg : 0 ≤ size) (hlt : size < 2 ^ 31) :
    ∃ b s', filesysCreate w.fs name size = .ok (b, s') ∧
      (b = true ↔ ValidName name.chars ∧ (∀ m, ¬w.fs.disk.Bound name.chars m) ∧
        (slotPairs 16 w.fs.disk.slot).length < 16 ∧ w.fs.HasRoom size) ∧
      (b = true → ∃ n, w.fs.FirstFree n ∧ (s'.disk.header n).length = size ∧
        ∀ v m, s'.disk.Bound v m ↔ v = name.chars ∧ m = n ∨ w.fs.disk.Bound v m) ∧
      (b = false → ∀ v m, s'.disk.Bound v m ↔ w.fs.disk.Bound v m) := by
  have htakes : w.fs.TakesName name.chars ↔ ValidName name.chars ∧ (∀ m, ¬w.fs.disk.Bound name.chars m) ∧
      (slotPairs 16 w.fs.disk.slot).length < 16 := by
    unfold Fs.TakesName
    rw [length_slotPairs_lt]
  rcases filesysCreate_spec hv.good name hnonneg hlt with
    ⟨n, k, s', hcreate, hname, hcreated, _⟩ | ⟨s', hcreate, hrefused, _⟩
  · obtain ⟨hvalid, hunbound, hslot⟩ := htakes.mp hname
    refine ⟨true, s', hcreate, ⟨fun _ => ⟨hvalid, hunbound, hslot, ?_⟩, fun _ => rfl⟩, fun _ => ?_, nofun⟩
    · exact ⟨n, hcreated.first, k, hcreated.run⟩
    · refine ⟨n, hcreated.first, ?_, hcreated.bound⟩
      rw [hcreated.header]
  · refine ⟨false, s', hcreate, ⟨nofun, ?_⟩, nofun, fun _ v m => ?_⟩
    · rintro ⟨hvalid, hunbound, hslot, hroom⟩
      rcases hrefused.bits with ⟨hnoroom, _⟩ | ⟨hname, _⟩
      · exact absurd hroom hnoroom
      · exact absurd (htakes.mpr ⟨hvalid, hunbound, hslot⟩) hname
    · exact hv.good.root.bound_congr hrefused.entries

/-- What `filesys_open` does to the directory. -/
lemma open_map (hv : w.Valid) (name : CStr) :
    ∃ o s', filesysOpen w.fs name = .ok (o, s') ∧ s'.disk = w.fs.disk ∧
      (o = none ↔ ∀ n, ¬w.fs.disk.Bound name.chars n) ∧
      ∀ file, o = some file → ∃ n ino, w.fs.disk.Bound name.chars n ∧ s'.inodes file.inode = some ino ∧
        ino.sector = n ∧ ino.data = w.fs.disk.header n := by
  rcases filesysOpen_spec hv.good name with
    ⟨n, a, ino, s', hbound, hopen, hopened, hgood⟩ | ⟨s', hunbound, hopen, hdisk, _⟩
  · refine ⟨_, s', hopen, hopened.disk, ⟨nofun, fun h => absurd hbound (h n)⟩, fun file ho => ?_⟩
    cases ho
    refine ⟨n, ino, hbound, hopened.self, hopened.sector, ?_⟩
    rw [hgood.inv.table.cached a ino hopened.self, hopened.sector, hopened.disk]
  · exact ⟨none, s', hopen, hdisk, ⟨fun _ => hunbound, fun _ => rfl⟩, nofun⟩

/-- What `filesys_remove` does to the directory. -/
lemma remove_map (hv : w.Valid) (name : CStr) :
    ∃ b s', filesysRemove w.fs name = .ok (b, s') ∧ (b = true ↔ ∃ n, w.fs.disk.Bound name.chars n) ∧
      ∀ v m, s'.disk.Bound v m ↔ w.fs.disk.Bound v m ∧ v ≠ name.chars := by
  rcases filesysRemove_spec hv.good name with
    ⟨n, s', hbound, hremove, hremoved, _⟩ | ⟨s', hunbound, hremove, hdisk, _⟩
  · exact ⟨true, s', hremove, ⟨fun _ => ⟨n, hbound⟩, fun _ => rfl⟩, hremoved.bound⟩
  · refine ⟨false, s', hremove, ⟨nofun, fun ⟨n, hbound⟩ => absurd hbound (hunbound n)⟩, fun v m => ?_⟩
    rw [hdisk]
    refine ⟨fun hm => ⟨hm, ?_⟩, And.left⟩
    rintro rfl
    exact hunbound m hm

/-- What a scan of the directory returns. -/
lemma readdir_map (hv : w.Valid) :
    ∃ dir s', dirOpenRoot w.fs = .ok (dir, s') ∧ s'.disk = w.fs.disk ∧
      ∀ fuel, 17 ≤ fuel → readdirAll s' fuel dir = .ok (some (slotNames 16 w.fs.disk.slot)) := by
  obtain ⟨dir, ino, s', hopen, hpos, hopened, hd, hinv⟩ :=
    dirOpenRoot_spec hv.good.inv hv.good.root hv.good.one_mem
  refine ⟨dir, s', hopen, hopened.disk, fun fuel hfuel => ?_⟩
  rw [← hopened.disk]
  exact readdirAll_spec hd hinv hpos hfuel

/-- The root directory is a finite map from names to the sectors of inodes: it binds different names to different sectors;
`filesys_create` adds a binding, if the name is a new one of 1 to 14 characters, less than 16 entries are in use, and there
is room for the file; `filesys_open` finds what a name is bound to; `filesys_remove` takes a binding away; and a scan
returns each name once. -/
theorem root_directory_map (hw : machine.Reachable w) :
    ((slotNames 16 w.fs.disk.slot).Nodup ∧
      (∀ v n m, w.fs.disk.Bound v n → w.fs.disk.Bound v m → n = m) ∧
      ∀ v u n, w.fs.disk.Bound v n → w.fs.disk.Bound u n → v = u) ∧
    (∀ (name : CStr) (size : ℤ), 0 ≤ size → size < 2 ^ 31 →
      ∃ b s', filesysCreate w.fs name size = .ok (b, s') ∧
        (b = true ↔ ValidName name.chars ∧ (∀ m, ¬w.fs.disk.Bound name.chars m) ∧
          (slotPairs 16 w.fs.disk.slot).length < 16 ∧ w.fs.HasRoom size) ∧
        (b = true → ∃ n, w.fs.FirstFree n ∧ (s'.disk.header n).length = size ∧
          ∀ v m, s'.disk.Bound v m ↔ v = name.chars ∧ m = n ∨ w.fs.disk.Bound v m) ∧
        (b = false → ∀ v m, s'.disk.Bound v m ↔ w.fs.disk.Bound v m)) ∧
    (∀ name : CStr, ∃ o s', filesysOpen w.fs name = .ok (o, s') ∧ s'.disk = w.fs.disk ∧
      (o = none ↔ ∀ n, ¬w.fs.disk.Bound name.chars n) ∧
      ∀ file, o = some file → ∃ n ino, w.fs.disk.Bound name.chars n ∧ s'.inodes file.inode = some ino ∧
        ino.sector = n ∧ ino.data = w.fs.disk.header n) ∧
    (∀ name : CStr, ∃ b s', filesysRemove w.fs name = .ok (b, s') ∧ (b = true ↔ ∃ n, w.fs.disk.Bound name.chars n) ∧
      ∀ v m, s'.disk.Bound v m ↔ w.fs.disk.Bound v m ∧ v ≠ name.chars) ∧
    ∃ dir s' names, dirOpenRoot w.fs = .ok (dir, s') ∧ s'.disk = w.fs.disk ∧
      (∀ fuel, 17 ≤ fuel → readdirAll s' fuel dir = .ok (some names)) ∧ names.Nodup ∧
      ∀ v, v ∈ names ↔ ∃ n, w.fs.disk.Bound v n := by
  have hv := reachable_valid hw
  have hone := hv.good.root.oneToOne
  have hnodup := hone.nodup_slotNames
  refine ⟨⟨hnodup, fun v n m => hone.binds_unique, fun v u n => hone.binds_inj⟩, ?_, ?_, ?_, ?_⟩
  · intro name size hnonneg hlt
    exact create_map hv name hnonneg hlt
  · exact open_map hv
  · exact remove_map hv
  · obtain ⟨dir, s', hopen, hdisk, hscan⟩ := readdir_map hv
    exact ⟨dir, s', _, hopen, hdisk, hscan, hnodup, fun v => mem_slotNames⟩

theorem root_directory_map_openRemoved :
    (filesysOpen openRemoved.fs nameA).toOption.map (fun r => r.1.isSome) = some false ∧
    (slotNames 16 openRemoved.fs.disk.slot).Nodup :=
  ⟨by decide +kernel, (root_directory_map openRemoved_reachable).1.1⟩

/-! ## Denying writes -/

/-- A write through an open file. -/
lemma writeAt_denied_iff (hv : w.Valid) {h : ℕ} {file : File} (hf : w.fileAt h = some file) {ino : Inode}
    (hino : w.fs.inodes file.inode = some ino) (buffer : ℕ → UInt8) {size : ℤ} (hsize : 0 < size) {p : ℕ}
    (hp : p < ino.data.length) :
    ∃ k s', fileWriteAt w.fs file buffer size p = .ok (k, s') ∧
      ((k = 0 ∧ s' = w.fs) ↔ ∃ x, some x ∈ w.handles ∧ x.inode = file.inode ∧ x.denies = true) := by
  obtain ⟨ino', hino', hsector, _, hdenied⟩ := hv.file (fileAt_eq_some hf)
  obtain rfl : ino' = ino := Option.some.inj (hino'.symm.trans hino)
  have hcount : (∃ x, some x ∈ w.handles ∧ x.inode = file.inode ∧ x.denies = true) ↔ ino'.denyWriteCnt ≠ 0 := by
    have hpos : ino'.denyWriteCnt ≠ 0 ↔ 0 < w.denials file.inode := by omega
    rw [hpos, denials, List.countP_pos_iff]
    constructor
    · rintro ⟨x, hx, hinode, hdenies⟩
      refine ⟨some x, hx, ?_⟩
      simp [denying, hinode, hdenies]
    · rintro ⟨o, ho, hdeny⟩
      cases o with
      | none => cases hdeny
      | some x =>
        simp only [denying, Option.any_some, Bool.and_eq_true, decide_eq_true_eq] at hdeny
        exact ⟨x, ho, hdeny⟩
  rw [hcount]
  by_cases hdeny : ino'.denyWriteCnt = 0
  · obtain ⟨d, hwrite, -⟩ := hv.good.inv.writeAt_spec hino (by omega) hdeny buffer size p
    refine ⟨_, _, hwrite, iff_of_false (fun hnone => ?_) (not_not.mpr hdeny)⟩
    have havailable := hnone.1
    unfold available at havailable
    omega
  · exact ⟨0, w.fs, Fs.writeAt_denied hino hdeny buffer size p, iff_of_true ⟨rfl, rfl⟩ hdeny⟩

/-- A file with two handles, of which the first denies writes. -/
def deniedOnce : World :=
  after [.create nameA 600, .openFile nameA, .reopen 0, .denyWrite 0]

lemma deniedOnce_reachable : machine.Reachable deniedOnce :=
  after_reachable _

lemma deniedOnce_handle : deniedOnce.fileAt 1 = some ⟨4, 0, false⟩ ∧
    (deniedOnce.fs.inodes 4).map (fun j => (j.openCnt, j.denyWriteCnt, j.data.length)) = some (2, 1, 600) :=
  ⟨by decide +kernel, by decide +kernel⟩

end World

end OsLabs.Filesys
