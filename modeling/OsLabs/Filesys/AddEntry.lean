import OsLabs.Filesys.InodeArray
import OsLabs.Filesys.Root

/-!
# Adding an entry when memory is short

`dir_add` in any directory, with any outcomes of the allocations of bounce buffers. The loops over the entries take a read
without a bounce buffer for the end of the directory. So `lookup` can miss the name, and the loop after it can stop at an
entry that is in use. `AddsAt` says which entry is written, and `dir_add_safe_iff` when that is harmless.
-/

namespace OsLabs.Filesys

open Lib LibKernel Function

/-! ## Reading and writing without a bounce buffer -/

section Bounce

variable {d : Disk} {ino : Inode} {buffer : ℕ → UInt8} {size : ℤ}

/-- A round for a part of a sector. -/
lemma part_of_lt (ino : Inode) (hsize : size < 512) (offset : ℤ) :
    ¬((offset.tmod 512 = 0 && chunkSize ino size offset = 512) : Bool) = true := by
  unfold chunkSize
  simp only [Bool.and_eq_true, decide_eq_true_eq]
  split <;> omega

/-- Less than a sector is not read at all. -/
lemma inodeReadAt_false (hsize : size < 512) (offset : ℤ) :
    inodeReadAt d ino false buffer size offset = .ok (0, buffer) := by
  unfold inodeReadAt
  cases size.toNat with
  | zero => rfl
  | succ fuel =>
    rw [readLoop]
    by_cases hstop : (decide (size ≤ 0) || decide (chunkSize ino size offset ≤ 0)) = true
    · rw [if_pos hstop]
      rfl
    · rw [if_neg hstop, readChunk, if_neg (part_of_lt ino hsize offset)]
      rfl

/-- Less than a sector is not written at all. -/
lemma inodeWriteAt_false (hsize : size < 512) (offset : ℤ) :
    inodeWriteAt d ino false buffer size offset = .ok (0, d) := by
  unfold inodeWriteAt
  by_cases hdeny : ino.denyWriteCnt ≠ 0
  · rw [if_pos hdeny]
    rfl
  · rw [if_neg hdeny]
    cases size.toNat with
    | zero => rfl
    | succ fuel =>
      rw [writeLoop]
      by_cases hstop : (decide (size ≤ 0) || decide (chunkSize ino size offset ≤ 0)) = true
      · rw [if_pos hstop]
        rfl
      · rw [if_neg hstop, writeChunk, if_neg (part_of_lt ino hsize offset)]
        rfl

end Bounce

/-! ## The entries of a directory -/

/-- The number of whole entries. -/
def entryCnt (data : InodeDisk) : ℕ :=
  data.length.toNat / 20

/-- The bytes of entry `i`. -/
def Disk.entryAt (d : Disk) (data : InodeDisk) (i : ℕ) : ℕ → UInt8 :=
  fun k => d.content data (20 * i + k)

/-- What entry `i` says. -/
def Disk.slotAt (d : Disk) (data : InodeDisk) (i : ℕ) : Option (List UInt8 × ℕ) :=
  entryOf (d.entryAt data i)

/-- Different entries in use have different names. -/
def NamesDiffer (cnt : ℕ) (slots : ℕ → Option (List UInt8 × ℕ)) : Prop :=
  ∀ i < cnt, ∀ j < cnt, ∀ w n n', slots i = some (w, n) → slots j = some (w, n') → i = j

/-- The entries that were in use are as before, and different ones have different names. -/
structure EntriesSafe (cnt : ℕ) (slots slots' : ℕ → Option (List UInt8 × ℕ)) : Prop where
  kept : ∀ i < cnt, ∀ w n, slots i = some (w, n) → slots' i = some (w, n)
  names : NamesDiffer cnt slots'

/-- `dir_add` writes entry `j`: `lookup` does not see the name before its reads fail, entry `j` is the first that is free or
cannot be read, and it can be written. -/
structure AddsAt (slots : ℕ → Option (List UInt8 × ℕ)) (ino : Inode) (name : List UInt8) (bounces : Bounces) (j : ℕ) :
    Prop where
  unseen : ∀ i < entryCnt ino.data, (∀ k ≤ i, bounces.lookup k = true) → ∀ n, slots i ≠ some (name, n)
  lt : j < entryCnt ino.data
  before : ∀ i < j, bounces.scan i = true ∧ slots i ≠ none
  stop : bounces.scan j = false ∨ slots j = none
  write : bounces.write = true
  allowed : ino.denyWriteCnt = 0

lemma AddsAt.unique {slots : ℕ → Option (List UInt8 × ℕ)} {ino : Inode} {name : List UInt8} {bounces : Bounces}
    {i j : ℕ} (hi : AddsAt slots ino name bounces i) (hj : AddsAt slots ino name bounces j) : i = j := by
  have hnot {i j : ℕ} (hi : AddsAt slots ino name bounces i) (hj : AddsAt slots ino name bounces j) : ¬i < j := by
    intro hlt
    obtain ⟨hread, huse⟩ := hj.before i hlt
    rcases hi.stop with hfail | hfree
    · rw [hread] at hfail
      cases hfail
    · exact huse hfree
  have := hnot hi hj
  have := hnot hj hi
  omega

section Entries

variable {s : Fs} {dir : Dir} {ino : Inode}

/-- The test of `lookup`, for a name that an entry can hold. -/
lemma matches_iff_of_valid (e : ℕ → UInt8) {name : CStr} (hname : ValidName name.chars) :
    (entryInUse e && sameString e 4 name.chars) = true ↔ ∃ n, entryOf e = some (name.chars, n) := by
  have hlength := hname.2
  refine matches_iff_of name fun _ => ⟨fun hstring => hstring.readString_eq (by omega), fun hread => ?_⟩
  rw [← hread]
  exact stringAt_of_length_lt (by rw [hread]; omega)

variable (hino : s.inodes dir.inode = some ino) (hdev : OnDevice s.disk ino.data)

include hino hdev in
/-- An entry is read, if there is a bounce buffer, and behind the last one there is no whole one. -/
lemma reads_of_onDevice (bounce : ℕ → Bool) :
    Reads s dir (entryCnt ino.data) (s.disk.entryAt ino.data) bounce := by
  have hread (b : Bool) (e : ℕ → UInt8) (i : ℕ) :
      s.readAt dir.inode b e 20 (20 * i : ℕ) = inodeReadAt s.disk ino b e 20 (20 * i : ℕ) := by
    rw [Fs.readAt, Fs.deref, hino, except_ok_bind]
  constructor
  · intro i hi hb e
    have havailable : available ino 20 (20 * i : ℕ) = 20 := by
      unfold entryCnt at hi
      unfold available
      omega
    refine ⟨_, by rw [hb, hread, inodeReadAt_eq hdev, havailable], fun k hk => ?_⟩
    rw [copy_of_mem (Nat.zero_le k) (by omega), Nat.add_assoc]
    rfl
  · rintro i - (rfl | hb) e
    · obtain ⟨n, hn, hrun⟩ := inodeReadAt_le hdev (bounce (entryCnt ino.data)) e 20 (20 * entryCnt ino.data)
      refine ⟨n, _, by rw [hread, hrun], ?_⟩
      unfold entryCnt available at hn
      omega
    · exact ⟨0, e, by rw [hb, hread, inodeReadAt_false (by omega)], by omega⟩

include hino in
lemma entryRounds_eq : entryRounds s dir = .ok (entryCnt ino.data + 1) := by
  rw [entryRounds, Fs.deref, hino]
  rfl

include hino hdev in
/-- One entry is written, if there is a bounce buffer and writes are not denied. -/
lemma writeAt_entry (bounce : Bool) (e : ℕ → UInt8) {j : ℕ} (hj : j ≤ entryCnt ino.data) :
    ∃ n s', s.writeAt dir.inode bounce e 20 (20 * j : ℕ) = .ok (n, s') ∧ ∀ i < entryCnt ino.data,
      s'.disk.slotAt ino.data i =
        if j < entryCnt ino.data ∧ bounce = true ∧ ino.denyWriteCnt = 0 then
          update (s.disk.slotAt ino.data) j (entryOf e) i
        else s.disk.slotAt ino.data i := by
  rw [Fs.writeAt, Fs.deref, hino, except_ok_bind]
  by_cases hdeny : ino.denyWriteCnt = 0
  · cases bounce with
    | false =>
      rw [inodeWriteAt_false (by omega)]
      exact ⟨0, s, rfl, fun i _ => (if_neg fun h => Bool.false_ne_true h.2.1).symm⟩
    | true =>
      rw [inodeWriteAt_eq hdev hdeny]
      refine ⟨_, _, rfl, fun i hi => ?_⟩
      have hentry (k : ℕ) (hk : k < 20) :
          (s.disk.put (512 * ino.data.start + (20 * j : ℕ)) e 0 (available ino 20 (20 * j : ℕ))).entryAt ino.data i k =
            if j < entryCnt ino.data ∧ i = j then e k else s.disk.entryAt ino.data i k := by
        unfold Disk.entryAt Disk.content
        unfold entryCnt at *
        have havailable : available ino 20 (20 * j : ℕ) = if j < ino.data.length.toNat / 20 then 20
            else (ino.data.length - 20 * j).toNat := by
          unfold available
          split <;> omega
        by_cases hlt : j < ino.data.length.toNat / 20
        · rw [havailable, if_pos hlt]
          by_cases hij : i = j
          · rw [if_pos ⟨hlt, hij⟩, hij, ← Nat.add_assoc, Disk.put_add hk, Nat.zero_add]
          · rw [if_neg (fun h => hij h.2), Disk.put_of_not_mem (by omega)]
        · rw [havailable, if_neg hlt, if_neg (fun h => hlt h.1), Disk.put_of_not_mem (by omega)]
      show entryOf _ = _
      rw [entryOf_congr hentry]
      by_cases hlt : j < entryCnt ino.data
      · rw [if_pos ⟨hlt, rfl, hdeny⟩]
        by_cases hij : i = j
        · rw [hij, update_self]
          exact entryOf_congr fun k _ => if_pos ⟨hlt, rfl⟩
        · rw [update_of_ne hij]
          exact entryOf_congr fun k _ => if_neg fun h => hij h.2
      · rw [if_neg fun h => hlt h.1]
        exact entryOf_congr fun k _ => if_neg fun h => hlt h.1
  · have hdenied : inodeWriteAt s.disk ino bounce e 20 (20 * j : ℕ) = .ok (0, s.disk) := if_pos hdeny
    rw [hdenied]
    exact ⟨0, s, rfl, fun i _ => (if_neg fun h => hdeny h.2.2).symm⟩

include hino hdev in
/-- `dir_add` writes one entry or none. -/
lemma dirAdd_slots {name : CStr} (hname : ValidName name.chars) {sector : ℕ} (hsector : sector < 2 ^ 32)
    (bounces : Bounces) :
    ∃ success s', dirAdd s dir bounces name sector = .ok (success, s') ∧
      ((∀ j, ¬AddsAt (s.disk.slotAt ino.data) ino name.chars bounces j) ∧
          (∀ i < entryCnt ino.data, s'.disk.slotAt ino.data i = s.disk.slotAt ino.data i) ∨
        ∃ j, AddsAt (s.disk.slotAt ino.data) ino name.chars bounces j ∧ ∀ i < entryCnt ino.data,
          s'.disk.slotAt ino.data i = update (s.disk.slotAt ino.data) j (some (name.chars, sector)) i) := by
  have hvalid : ¬(name.chars = [] ∨ name.chars.length > 14) := by
    have hlength := hname.2
    exact fun h => h.elim hname.1 (by omega)
  rw [dirAdd, if_neg hvalid, lookup, entryRounds_eq hino, except_ok_bind]
  rcases lookupLoop_spec (reads_of_onDevice hino hdev bounces.lookup) (fun _ _ e _ => matches_iff_of_valid e hname)
    (Nat.zero_add _) (Nat.zero_le _) fun _ => 0 with ⟨i, e, n, -, hi, hall, hlookup, -, hfound⟩ | ⟨hlookup, hunseen⟩
  · rw [hlookup]
    refine ⟨false, s, rfl, Or.inl ⟨fun j hj => ?_, fun _ _ => rfl⟩⟩
    exact hj.unseen i hi (fun k hk => hall k (Nat.zero_le k) hk) n hfound
  · rw [hlookup, except_ok_bind]
    obtain ⟨j, e, hscan, -, hj, hbefore, hstop⟩ :=
      freeSlotLoop_spec (reads_of_onDevice hino hdev bounces.scan) (Nat.zero_add _) (Nat.zero_le _) fun _ => 0
    obtain ⟨n, s', hwrite, hslots⟩ := writeAt_entry hino hdev bounces.write (newEntry e name sector) hj
    dsimp only
    rw [except_ok_bind, hscan, except_ok_bind]
    rw [hwrite]
    refine ⟨_, s', rfl, ?_⟩
    by_cases hadds : j < entryCnt ino.data ∧ bounces.write = true ∧ ino.denyWriteCnt = 0
    · refine Or.inr ⟨j, ⟨fun i hi hall => ?_, hadds.1, fun i hi => hbefore i (Nat.zero_le i) hi, hstop hadds.1, hadds.2.1,
        hadds.2.2⟩, fun i hi => ?_⟩
      · exact hunseen i (Nat.zero_le i) hi fun k _ hk => hall k hk
      · rw [hslots i hi, if_pos hadds, (entryOf_newEntry e hname hsector).1]
    · refine Or.inl ⟨fun j' hj' => hadds ⟨?_, hj'.write, hj'.allowed⟩, fun i hi => by rw [hslots i hi, if_neg hadds]⟩
      -- the loop does not go past an entry at which it stops
      by_contra hnot
      obtain ⟨hread, huse⟩ := hbefore j' (Nat.zero_le j') (by have := hj'.lt; omega)
      rcases hj'.stop with hfail | hfree
      · rw [hread] at hfail
        cases hfail
      · exact huse hfree

end Entries

/-! ## The contract -/

section Update

variable {cnt i j : ℕ} {slots slots' : ℕ → Option (List UInt8 × ℕ)} {w : List UInt8} {n : ℕ}

lemma NamesDiffer.congr (h : NamesDiffer cnt slots) (heq : ∀ i < cnt, slots' i = slots i) : NamesDiffer cnt slots' := by
  intro a ha b hb v m m' hslot hslot'
  rw [heq a ha] at hslot
  rw [heq b hb] at hslot'
  exact h a ha b hb v m m' hslot hslot'

/-- The entries in use stay exactly if the entry that is written was free, or said the same. -/
lemma kept_update (hj : j < cnt) :
    (∀ i < cnt, ∀ v m, slots i = some (v, m) → update slots j (some (w, n)) i = some (v, m)) ↔
      slots j = none ∨ slots j = some (w, n) := by
  constructor
  · intro h
    cases hslot : slots j with
    | none => exact Or.inl rfl
    | some pair =>
      refine Or.inr ?_
      have hself := h j hj pair.1 pair.2 hslot
      rw [update_self] at hself
      exact hself.symm
  · intro hold i _ v m hslot
    by_cases hij : i = j
    · rw [hij] at hslot ⊢
      rw [update_self]
      rcases hold with hnone | hsame
      · cases hnone.symm.trans hslot
      · exact hsame.symm.trans hslot
    · rw [update_of_ne hij]
      exact hslot

/-- One more name is another one. -/
lemma namesDiffer_update (hj : j < cnt) (hold : slots j = none ∨ slots j = some (w, n)) :
    NamesDiffer cnt (update slots j (some (w, n))) ↔
      NamesDiffer cnt slots ∧ ∀ i < cnt, i ≠ j → ∀ m, slots i ≠ some (w, m) := by
  constructor
  · intro h
    constructor
    · intro a ha b hb v m m' hslot hslot'
      have hkept : ∀ i < cnt, ∀ v m, slots i = some (v, m) → update slots j (some (w, n)) i = some (v, m) :=
        (kept_update hj).mpr hold
      exact h a ha b hb v m m' (hkept a ha v m hslot) (hkept b hb v m' hslot')
    · intro i hi hij m hslot
      refine hij (h i hi j hj w m n ?_ (update_self ..))
      rw [update_of_ne hij]
      exact hslot
  · rintro ⟨h, hother⟩ a ha b hb v m m' hslot hslot'
    by_cases haj : a = j
    · by_cases hbj : b = j
      · rw [haj, hbj]
      · rw [haj, update_self] at hslot
        rw [update_of_ne hbj] at hslot'
        obtain rfl : w = v := congrArg Prod.fst (Option.some.inj hslot)
        exact absurd hslot' (hother b hb hbj m')
    · rw [update_of_ne haj] at hslot
      by_cases hbj : b = j
      · rw [hbj, update_self] at hslot'
        obtain rfl : w = v := congrArg Prod.fst (Option.some.inj hslot')
        exact absurd hslot (hother a ha haj m)
      · rw [update_of_ne hbj] at hslot'
        exact h a ha b hb v m m' hslot hslot'

end Update

/-- `dir_add` destroys no entry and makes no name double exactly if no name was double before and the entry that it writes
was free, or said the same, and no other entry has the name. -/
theorem dir_add_safe_iff {s : Fs} (dir : Dir) {ino : Inode} (hino : s.inodes dir.inode = some ino)
    (hdev : OnDevice s.disk ino.data) (name : CStr) (hname : ValidName name.chars) (sector : ℕ) (hsector : sector < 2 ^ 32)
    (bounces : Bounces) :
    ∃ success s', dirAdd s dir bounces name sector = .ok (success, s') ∧
      (EntriesSafe (entryCnt ino.data) (s.disk.slotAt ino.data) (s'.disk.slotAt ino.data) ↔
        NamesDiffer (entryCnt ino.data) (s.disk.slotAt ino.data) ∧
        ∀ j, AddsAt (s.disk.slotAt ino.data) ino name.chars bounces j →
          (s.disk.slotAt ino.data j = none ∨ s.disk.slotAt ino.data j = some (name.chars, sector)) ∧
          ∀ i < entryCnt ino.data, i ≠ j → ∀ n, s.disk.slotAt ino.data i ≠ some (name.chars, n)) := by
  obtain ⟨success, s', hrun, hslots⟩ := dirAdd_slots hino hdev hname hsector bounces
  refine ⟨success, s', hrun, ?_⟩
  rcases hslots with ⟨hnone, hsame⟩ | ⟨j, hj, hupdate⟩
  · -- nothing is written
    constructor
    · intro hsafe
      exact ⟨hsafe.names.congr fun i hi => (hsame i hi).symm, fun j hj => absurd hj (hnone j)⟩
    · rintro ⟨hnames, -⟩
      exact ⟨fun i hi w n hslot => (hsame i hi).trans hslot, hnames.congr hsame⟩
  · constructor
    · intro hsafe
      have hold := (kept_update hj.lt).mp fun i hi v m hslot => (hupdate i hi).symm.trans (hsafe.kept i hi v m hslot)
      obtain ⟨hnames, hother⟩ := (namesDiffer_update hj.lt hold).mp
        (hsafe.names.congr fun i hi => (hupdate i hi).symm)
      refine ⟨hnames, fun j' hj' => ?_⟩
      rw [hj'.unique hj]
      exact ⟨hold, hother⟩
    · rintro ⟨hnames, hcond⟩
      obtain ⟨hold, hother⟩ := hcond j hj
      refine ⟨fun i hi v m hslot => ?_, ((namesDiffer_update hj.lt hold).mpr ⟨hnames, hother⟩).congr hupdate⟩
      exact (hupdate i hi).trans ((kept_update hj.lt).mpr hold i hi v m hslot)

/-- A directory of two entries, of which the first is in use. -/
def oneEntry : Fs :=
  { Fs.boot ⟨2, by decide, fun p => if p < 512 then 0 else newEntry (fun _ => 0) ⟨[97], by decide⟩ 7 (p - 512)⟩ with
    inodes := fun _ => some ⟨0, 1, false, 0, ⟨1, 40⟩⟩ }

lemma oneEntry_slots : oneEntry.disk.slotAt ⟨1, 40⟩ 0 = some ([97], 7) ∧ oneEntry.disk.slotAt ⟨1, 40⟩ 1 = none :=
  ⟨by decide +kernel, by decide +kernel⟩

/-- With all bounce buffers, the second entry is written. -/
theorem dir_add_safe_iff_free : ∃ success s', dirAdd oneEntry ⟨0, 0⟩ .all ⟨[98], by decide⟩ 9 = .ok (success, s') ∧
    EntriesSafe 2 (oneEntry.disk.slotAt ⟨1, 40⟩) (s'.disk.slotAt ⟨1, 40⟩) := by
  obtain ⟨hfirst, hsecond⟩ := oneEntry_slots
  have hdev : OnDevice oneEntry.disk ⟨1, 40⟩ := fun p hp => by
    have hp : (p : ℤ) < 40 := hp
    show 1 + p / 512 < 2
    omega
  have hzero {i : ℕ} (hi : i < 2) (huse : oneEntry.disk.slotAt ⟨1, 40⟩ i ≠ none) : i = 0 := by
    by_contra hne
    obtain rfl : i = 1 := by omega
    exact huse hsecond
  obtain ⟨success, s', hrun, hiff⟩ := dir_add_safe_iff (s := oneEntry) ⟨0, 0⟩ rfl hdev ⟨[98], by decide⟩
    (by decide) 9 (by decide) .all
  refine ⟨success, s', hrun, hiff.mpr ⟨fun i hi j hj w n n' hslot hslot' => ?_, fun j hj => ?_⟩⟩
  · rw [hzero hi (by rw [hslot]; exact Option.some_ne_none _), hzero hj (by rw [hslot']; exact Option.some_ne_none _)]
  · have hfree : oneEntry.disk.slotAt ⟨1, 40⟩ j = none := hj.stop.resolve_left Bool.noConfusion
    refine ⟨Or.inl hfree, fun i hi _ n hslot => ?_⟩
    rw [hzero hi (by rw [hslot]; exact Option.some_ne_none _), hfirst] at hslot
    exact absurd hslot (by simp)

/-- Without the one for the first read of the second loop, the first entry is overwritten. -/
theorem dir_add_overwrites :
    oneEntry.disk.slotAt ⟨1, 40⟩ 0 = some ([97], 7) ∧
      ((dirAdd oneEntry ⟨0, 0⟩ ⟨fun _ => true, fun _ => false, true⟩ ⟨[98], by decide⟩ 9).toOption.map fun r =>
        (r.1, r.2.disk.slotAt ⟨1, 40⟩ 0)) = some (true, some ([98], 9)) :=
  ⟨by decide +kernel, by decide +kernel⟩

end OsLabs.Filesys
