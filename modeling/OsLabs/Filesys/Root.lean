import OsLabs.Filesys.Directory
import OsLabs.Filesys.Table
import OsLabs.Lib.SlotMap

/-!
# The root directory is a table of slots

An entry of the directory is a slot with the name and the sector of a file, or a free one (`entryOf`). In a directory
that is a `Root`, the functions that search, add and list entries do what they do on the table of slots.
-/

namespace OsLabs.Filesys

open Lib LibKernel Function

/-! ## Entries -/

/-- What an entry says: the name and the sector, if it is in use. -/
def entryOf (e : ℕ → UInt8) : Option (List UInt8 × ℕ) :=
  if entryInUse e then some (readString e 15 4, entrySector e) else none

/-- The name ends inside of the entry. -/
def Terminated (e : ℕ → UInt8) : Prop :=
  ∃ j, 4 ≤ j ∧ j < 19 ∧ e j = 0

/-- A name that a file can have. -/
def ValidName (name : List UInt8) : Prop :=
  name ≠ [] ∧ name.length ≤ 14

instance (name : List UInt8) : Decidable (ValidName name) :=
  inferInstanceAs (Decidable (_ ∧ _))

section Entry

variable {e e' : ℕ → UInt8} {w : List UInt8} {i n : ℕ}

lemma entryInUse_congr (h : ∀ k < 20, e' k = e k) : entryInUse e' = entryInUse e := by
  rw [entryInUse, entryInUse, h 19 (by omega)]

lemma entrySector_congr (h : ∀ k < 20, e' k = e k) : entrySector e' = entrySector e := by
  apply le32_congr
  intro k hk
  exact h (0 + k) (by omega)

lemma entryOf_congr (h : ∀ k < 20, e' k = e k) : entryOf e' = entryOf e := by
  rw [entryOf, entryOf, entryInUse_congr h, entrySector_congr h, readString_congr fun j _ hj => h j (by omega)]

lemma Terminated.congr (ht : Terminated e) (h : ∀ k < 20, e' k = e k) : Terminated e' := by
  obtain ⟨j, hle, hlt, hzero⟩ := ht
  exact ⟨j, hle, hlt, (h j (by omega)).trans hzero⟩

lemma sameString_iff (hw : ∀ c ∈ w, c ≠ 0) : sameString e i w = true ↔ StringAt e i w := by
  induction w generalizing i with
  | nil => simp [sameString, StringAt]
  | cons c w ih =>
    have hc := hw c List.mem_cons_self
    have hrest := ih (i := i + 1) fun b hb => hw b (List.mem_cons_of_mem c hb)
    simp only [sameString, Bool.and_eq_true, decide_eq_true_eq, hrest]
    exact ⟨fun h => ⟨h.1, hc, h.2⟩, fun h => ⟨h.1, h.2.2⟩⟩

lemma Terminated.stringAt (ht : Terminated e) : StringAt e 4 (readString e 15 4) := by
  obtain ⟨j, hle, hlt, hzero⟩ := ht
  exact stringAt_readString ⟨j, hle, by omega, hzero⟩

/-- The test of `lookup`, if it can see the whole name. -/
lemma matches_iff_of (name : CStr) (h : entryInUse e = true → (StringAt e 4 name.chars ↔ readString e 15 4 = name.chars)) :
    (entryInUse e && sameString e 4 name.chars) = true ↔ ∃ n, entryOf e = some (name.chars, n) := by
  rw [Bool.and_eq_true, sameString_iff name.nonzero, entryOf]
  constructor
  · rintro ⟨huse, hstring⟩
    exact ⟨entrySector e, by rw [if_pos huse, (h huse).mp hstring]⟩
  · rintro ⟨n, hentry⟩
    by_cases huse : entryInUse e = true
    · rw [if_pos huse] at hentry
      exact ⟨huse, (h huse).mpr (congrArg Prod.fst (Option.some.inj hentry))⟩
    · rw [if_neg huse] at hentry
      cases hentry

lemma matches_iff (ht : entryInUse e = true → Terminated e) (name : CStr) :
    (entryInUse e && sameString e 4 name.chars) = true ↔ ∃ n, entryOf e = some (name.chars, n) :=
  matches_iff_of name fun huse => ⟨(ht huse).stringAt.unique, fun hname => hname ▸ (ht huse).stringAt⟩

lemma entryOf_eq_none : entryOf e = none ↔ entryInUse e = false := by
  rw [entryOf]
  split <;> simp_all

/-- `dir_add` writes an entry that says what was asked for. -/
lemma entryOf_newEntry (e) {name : CStr} (hname : ValidName name.chars) (hn : n < 2 ^ 32) :
    entryOf (newEntry e name n) = some (name.chars, n) ∧ Terminated (newEntry e name n) := by
  obtain ⟨_, hlength⟩ := hname
  have htake : name.chars.take 14 = name.chars := List.take_of_length_le hlength
  have hout : ∀ j, 4 ≤ j → newEntry e name n j = putString (update e 19 1) 4 name.chars j := by
    intro j hj
    rw [newEntry, copy_of_not_mem (by omega), strlcpy, htake]
  have huse : entryInUse (newEntry e name n) = true := by
    rw [entryInUse, hout 19 (by omega), putString_of_not_mem (by omega)]
    rfl
  have hsector : entrySector (newEntry e name n) = n := by
    rw [← le32_leBytes hn]
    apply le32_congr
    intro k hk
    rw [newEntry, copy_add hk, le32_leBytes hn]
  have hstring : StringAt (newEntry e name n) 4 name.chars :=
    (stringAt_putString name.nonzero).congr fun j hj _ => hout j hj
  refine ⟨?_, 4 + name.chars.length, by omega, by omega, hstring.terminator⟩
  rw [entryOf, if_pos huse, hsector, hstring.readString_eq (by omega)]

/-- `dir_remove` writes an entry that is free. -/
lemma entryOf_update_zero (e) : entryOf (update e 19 0) = none := by
  rfl

/-- A name that ends inside of the entry is not too long. -/
lemma Terminated.length_le (ht : Terminated e) : (readString e 15 4).length ≤ 14 := by
  obtain ⟨j, hle, hlt, hzero⟩ := ht
  exact Nat.le_of_lt_succ (length_readString_lt ⟨j, hle, by omega, hzero⟩)

end Entry

/-! ## Loops over entries -/

/-- What the loops over a directory see: entry by entry, until there is none left or no memory for the bounce buffer. -/
structure Reads (s : Fs) (dir : Dir) (cnt : ℕ) (entry : ℕ → ℕ → UInt8) (bounce : ℕ → Bool) : Prop where
  some : ∀ i < cnt, bounce i = true → ∀ e, ∃ e', s.readAt dir.inode (bounce i) e 20 (20 * i : ℕ) = .ok (20, e') ∧
    ∀ k < 20, e' k = entry i k
  none : ∀ i ≤ cnt, i = cnt ∨ bounce i = false → ∀ e, ∃ n e',
    s.readAt dir.inode (bounce i) e 20 (20 * i : ℕ) = .ok (n, e') ∧ n ≠ 20

section Loops

variable {s : Fs} {dir : Dir} {cnt : ℕ} {entry : ℕ → ℕ → UInt8} {bounce : ℕ → Bool} {fuel i : ℕ}

/-- The loop of `lookup` finds the first entry with the name, if it can read so far. -/
lemma lookupLoop_spec (hr : Reads s dir cnt entry bounce) {name : CStr}
    (hmatch : ∀ j < cnt, ∀ e, (∀ k < 20, e k = entry j k) →
      ((entryInUse e && sameString e 4 name.chars) = true ↔ ∃ n, entryOf e = some (name.chars, n)))
    (hfuel : i + fuel = cnt + 1) (hi : i ≤ cnt) (e) :
    (∃ j e' n, i ≤ j ∧ j < cnt ∧ (∀ k, i ≤ k → k ≤ j → bounce k = true) ∧
      lookupLoop s dir bounce name fuel i e = .ok (some (e', 20 * j)) ∧ (∀ k < 20, e' k = entry j k) ∧
      entryOf (entry j) = some (name.chars, n)) ∨
    (lookupLoop s dir bounce name fuel i e = .ok none ∧
      ∀ j, i ≤ j → j < cnt → (∀ k, i ≤ k → k ≤ j → bounce k = true) → ∀ n, entryOf (entry j) ≠ some (name.chars, n)) := by
  induction fuel generalizing i e with
  | zero => omega
  | succ fuel ih =>
    rw [lookupLoop]
    by_cases hread : i < cnt ∧ bounce i = true
    · obtain ⟨hlt, hb⟩ := hread
      obtain ⟨e', hread, he'⟩ := hr.some i hlt hb e
      rw [hread, except_ok_bind]
      dsimp only
      by_cases htest : (entryInUse e' && sameString e' 4 name.chars) = true
      · obtain ⟨n, hn⟩ := (hmatch i hlt e' he').mp htest
        rw [entryOf_congr he'] at hn
        rw [if_pos htest]
        refine Or.inl ⟨i, e', n, Nat.le_refl i, hlt, fun k hik hki => ?_, rfl, he', hn⟩
        rw [Nat.le_antisymm hki hik, hb]
      · rw [if_neg htest]
        rcases ih (i := i + 1) (by omega) (by omega) e' with ⟨j, e'', n, hj, hj', hall, hfound⟩ | ⟨hrun, hnone⟩
        · refine Or.inl ⟨j, e'', n, by omega, hj', fun k hik hkj => ?_, hfound⟩
          by_cases hki : k = i
          · rw [hki, hb]
          · exact hall k (by omega) hkj
        · refine Or.inr ⟨hrun, fun j hij hj hall n => ?_⟩
          by_cases hji : j = i
          · rw [hji, ← entryOf_congr he']
            exact fun heq => htest ((hmatch i hlt e' he').mpr ⟨n, heq⟩)
          · exact hnone j (by omega) hj (fun k hik hkj => hall k (by omega) hkj) n
    · have hstop : i < cnt → bounce i = false := fun hlt => by simpa [hlt] using hread
      obtain ⟨n, e', hfail, hn⟩ := hr.none i hi ((Nat.eq_or_lt_of_le hi).imp_right hstop) e
      rw [hfail, except_ok_bind]
      dsimp only
      rw [if_neg hn]
      refine Or.inr ⟨rfl, fun j hij hj hall => absurd ⟨by omega, hall i (Nat.le_refl i) hij⟩ hread⟩

/-- The loop of `dir_add` stops at the first entry that is free or cannot be read, or at the end. -/
lemma freeSlotLoop_spec (hr : Reads s dir cnt entry bounce) (hfuel : i + fuel = cnt + 1) (hi : i ≤ cnt) (e) :
    ∃ j e', freeSlotLoop s dir bounce fuel i e = .ok (20 * j, e') ∧ i ≤ j ∧ j ≤ cnt ∧
      (∀ k, i ≤ k → k < j → bounce k = true ∧ entryOf (entry k) ≠ none) ∧
      (j < cnt → bounce j = false ∨ entryOf (entry j) = none) := by
  induction fuel generalizing i e with
  | zero => omega
  | succ fuel ih =>
    rw [freeSlotLoop]
    by_cases hread : i < cnt ∧ bounce i = true
    · obtain ⟨hlt, hb⟩ := hread
      obtain ⟨e', hread, he'⟩ := hr.some i hlt hb e
      rw [hread, except_ok_bind]
      by_cases huse : entryInUse e' = true
      · obtain ⟨j, e'', hrun, hj, hj', hbefore, hstop⟩ := ih (i := i + 1) (by omega) (by omega) e'
        refine ⟨j, e'', ?_, by omega, hj', fun k hik hkj => ?_, hstop⟩
        · simp only [huse]
          exact hrun
        · by_cases hki : k = i
          · rw [hki, hb, ← entryOf_congr he', ne_eq, entryOf_eq_none, huse]
            simp
          · exact hbefore k (by omega) hkj
      · refine ⟨i, e', ?_, Nat.le_refl i, hi, fun k _ _ => by omega, fun _ => Or.inr ?_⟩
        · simp only [huse]
          rfl
        · rw [← entryOf_congr he', entryOf_eq_none]
          simpa using huse
    · have hstop : i < cnt → bounce i = false := fun hlt => by simpa [hlt] using hread
      obtain ⟨n, e', hfail, hn⟩ := hr.none i hi ((Nat.eq_or_lt_of_le hi).imp_right hstop) e
      refine ⟨i, e', ?_, Nat.le_refl i, hi, fun k _ _ => by omega, fun hlt => Or.inl (hstop hlt)⟩
      rw [hfail, except_ok_bind]
      simp only [hn]
      rfl

end Loops

/-! ## The table -/

/-- The bytes of entry `i`. -/
def Disk.entry (d : Disk) (i : ℕ) : ℕ → UInt8 :=
  fun k => d.byte 1 (20 * i + k)

/-- Slot `i` of the table. -/
def Disk.slot (d : Disk) (i : ℕ) : Option (List UInt8 × ℕ) :=
  entryOf (d.entry i)

/-- The directory binds the name to the inode in sector `n`. -/
def Disk.Bound (d : Disk) (name : List UInt8) (n : ℕ) : Prop :=
  Binds 16 d.slot name n

/-- The root directory: 16 entries, with different valid names and different sectors. -/
structure Root (d : Disk) : Prop where
  length : (d.header 1).length = 320
  terminated : ∀ i < 16, entryInUse (d.entry i) = true → Terminated (d.entry i)
  nonempty : ∀ w n, d.Bound w n → w ≠ []
  file : ∀ w n, d.Bound w n → 2 ≤ n
  oneToOne : OneToOne 16 d.slot

/-- An open root directory. -/
structure RootDir (s : Fs) (dir : Dir) (ino : Inode) : Prop where
  root : Root s.disk
  inode : s.inodes dir.inode = some ino
  sector : ino.sector = 1

section Table

variable {s : Fs} {live : Set ℕ} {refs : ℕ → ℕ} {dir : Dir} {ino : Inode} {d d' : Disk}

variable {i n fuel : ℕ} {w : List UInt8}

lemma Disk.Same.entry (h : d.Same d' 1) (hlength : (d.header 1).length = 320) {k : ℕ} (hi : i < 16)
    (hk : k < 20) : d'.entry i k = d.entry i k :=
  h.2 (20 * i + k) (by omega)

lemma Disk.Same.slot (h : d.Same d' 1) (hlength : (d.header 1).length = 320) (hi : i < 16) :
    d'.slot i = d.slot i :=
  entryOf_congr fun _ hk => h.entry hlength hi hk

lemma Root.bound_congr (hr : Root d) (h : d.Same d' 1) : d'.Bound w n ↔ d.Bound w n :=
  binds_congr fun _ hi => h.slot hr.length hi

/-- The directory stays, if its bytes stay. -/
lemma Root.congr (hr : Root d) (h : d.Same d' 1) : Root d' where
  length := by
    rw [h.1]
    exact hr.length
  terminated i hi huse := by
    have heq : ∀ k < 20, d'.entry i k = d.entry i k := fun k hk => h.entry hr.length hi hk
    rw [entryInUse_congr heq] at huse
    exact (hr.terminated i hi huse).congr heq
  nonempty w n hbound := hr.nonempty w n ((hr.bound_congr h).mp hbound)
  file w n hbound := hr.file w n ((hr.bound_congr h).mp hbound)
  oneToOne := hr.oneToOne.congr fun i hi => h.slot hr.length hi

lemma Root.validName (hr : Root d) (h : d.Bound w n) : ValidName w := by
  refine ⟨hr.nonempty w n h, ?_⟩
  obtain ⟨i, hi, hslot⟩ := h
  rw [Disk.slot, entryOf] at hslot
  by_cases huse : entryInUse (d.entry i) = true
  · rw [if_pos huse] at hslot
    have hname : readString (d.entry i) 15 4 = w := congrArg Prod.fst (Option.some.inj hslot)
    rw [← hname]
    exact (hr.terminated i hi huse).length_le
  · rw [if_neg huse] at hslot
    cases hslot

/-! ## Searching -/

lemma RootDir.data_length (hd : RootDir s dir ino) (h : Inv s live refs) : ino.data.length = 320 := by
  rw [h.table.cached dir.inode ino hd.inode, hd.sector]
  exact hd.root.length

lemma RootDir.entryRounds_eq (hd : RootDir s dir ino) (h : Inv s live refs) : entryRounds s dir = .ok 17 := by
  rw [entryRounds, Fs.deref, hd.inode, except_ok_bind, hd.data_length h]
  rfl

/-- With all bounce buffers, the 16 entries are read. -/
lemma RootDir.reads (hd : RootDir s dir ino) (h : Inv s live refs) :
    Reads s dir 16 s.disk.entry fun _ => true := by
  constructor
  · intro i hi _ e
    have havailable : available ino 20 (20 * i : ℕ) = 20 := by
      rw [available, hd.data_length h]
      omega
    have hread := h.readAt_eq hd.inode e 20 (20 * i)
    rw [havailable, hd.sector] at hread
    refine ⟨_, hread, fun k hk => ?_⟩
    rw [copy_of_mem (Nat.zero_le k) (by omega)]
    rfl
  · intro i hi hend e
    have havailable : available ino 20 (20 * i : ℕ) = 0 := by
      rw [available, hd.data_length h]
      have hend := hend.resolve_right Bool.noConfusion
      omega
    exact ⟨_, _, h.readAt_eq hd.inode e 20 (20 * i), by omega⟩

/-- `lookup`. -/
lemma lookup_spec (hd : RootDir s dir ino) (h : Inv s live refs) (name : CStr) :
    (∃ i e n, i < 16 ∧ lookup s dir (fun _ => true) name = .ok (some (e, 20 * i)) ∧
      (∀ k < 20, e k = s.disk.entry i k) ∧ s.disk.slot i = some (name.chars, n) ∧ entrySector e = n) ∨
    (lookup s dir (fun _ => true) name = .ok none ∧ ∀ n, ¬s.disk.Bound name.chars n) := by
  have hrun : lookup s dir (fun _ => true) name = lookupLoop s dir (fun _ => true) name 17 0 fun _ => 0 := by
    rw [lookup, hd.entryRounds_eq h, except_ok_bind]
  rw [hrun]
  have hmatch (j : ℕ) (hj : j < 16) (e : ℕ → UInt8) (he : ∀ k < 20, e k = s.disk.entry j k) :=
    matches_iff (fun huse => (hd.root.terminated j hj (entryInUse_congr he ▸ huse)).congr he) name
  rcases lookupLoop_spec (hd.reads h) hmatch (show 0 + 17 = 17 from rfl) (by omega) fun _ => 0 with
    ⟨j, e, n, _, hj, _, hloop, he, hslot⟩ | ⟨hloop, hnone⟩
  · refine Or.inl ⟨j, e, n, hj, hloop, he, hslot, ?_⟩
    rw [entrySector_congr he]
    rw [entryOf] at hslot
    split at hslot
    · exact congrArg Prod.snd (Option.some.inj hslot)
    · cases hslot
  · refine Or.inr ⟨hloop, ?_⟩
    rintro n ⟨i, hi, hslot⟩
    exact hnone i (Nat.zero_le i) hi (fun _ _ _ => rfl) n hslot

/-! ## Adding -/

section Write

variable {i : ℕ} {e : ℕ → UInt8}

lemma Disk.entry_write (hbyte : d'.byte 1 = copy (d.byte 1) (20 * i) e 0 20) (j : ℕ) :
    ∀ k < 20, d'.entry j k = if j = i then e k else d.entry j k := by
  intro k hk
  rw [Disk.entry, hbyte]
  split
  · rename_i hji
    rw [hji, copy_add hk, Nat.zero_add]
  · rw [copy_of_not_mem (by omega)]
    rfl

/-- One slot is written. -/
lemma Disk.slot_write (hbyte : d'.byte 1 = copy (d.byte 1) (20 * i) e 0 20) (j : ℕ) :
    d'.slot j = update d.slot i (entryOf e) j := by
  rw [Disk.slot, entryOf_congr (Disk.entry_write hbyte j)]
  by_cases hji : j = i
  · subst hji
    simp
  · simp only [hji, update_of_ne hji]
    rfl

/-- The directory stays one, if the table of slots stays one. -/
lemma Root.write (hr : Root d) (hheader : d'.header 1 = d.header 1)
    (hbyte : d'.byte 1 = copy (d.byte 1) (20 * i) e 0 20) (hterminated : entryInUse e = true → Terminated e)
    (hfile : ∀ w n, Binds 16 (update d.slot i (entryOf e)) w n → w ≠ [] ∧ 2 ≤ n)
    (hone : OneToOne 16 (update d.slot i (entryOf e))) : Root d' where
  length := by
    rw [hheader]
    exact hr.length
  terminated j hj huse := by
    have hentry := Disk.entry_write hbyte j
    rw [entryInUse_congr hentry] at huse
    refine Terminated.congr ?_ hentry
    by_cases hji : j = i
    · simp only [hji] at huse ⊢
      exact hterminated huse
    · simp only [hji] at huse ⊢
      exact hr.terminated j hj huse
  nonempty w n hbound := (hfile w n ((binds_congr fun j _ => Disk.slot_write hbyte j).mp hbound)).1
  file w n hbound := (hfile w n ((binds_congr fun j _ => Disk.slot_write hbyte j).mp hbound)).2
  oneToOne := hone.congr fun j _ => Disk.slot_write hbyte j

end Write

section RootDir

variable (hd : RootDir s dir ino)
include hd

section Inv

variable (h : Inv s live refs)
include h

/-- An entry is written. -/
lemma RootDir.write_spec (hi : i < 16) (e)
    (hterminated : entryInUse e = true → Terminated e)
    (hfile : ∀ w n, Binds 16 (update s.disk.slot i (entryOf e)) w n → w ≠ [] ∧ 2 ≤ n)
    (hone : OneToOne 16 (update s.disk.slot i (entryOf e))) :
    ∃ d, s.writeAt dir.inode true e 20 (20 * i : ℕ) = .ok (20, { s with disk := d }) ∧ s.disk.Quiet d live 1 ∧
      (∀ j, d.slot j = update s.disk.slot i (entryOf e) j) ∧ Root d ∧ Inv { s with disk := d } live refs := by
  have hdeny : ino.denyWriteCnt = 0 := (h.table.system dir.inode ino hd.inode (by rw [hd.sector]; omega)).1
  have havailable : available ino 20 (20 * i : ℕ) = 20 := by
    rw [available, hd.data_length h]
    omega
  obtain ⟨d, hwrite, hquiet, hbyte, hinv⟩ := h.writeAt_spec hd.inode (by rw [hd.sector]; omega) hdeny e 20 (20 * i)
  rw [havailable] at hwrite hbyte
  rw [hd.sector] at hquiet hbyte
  have hheader := hquiet.header 1 (by rw [← hd.sector]; exact h.table.live dir.inode ino hd.inode)
  exact ⟨d, hwrite, hquiet, Disk.slot_write hbyte, hd.root.write hheader hbyte hterminated hfile hone, hinv⟩

/-- `dir_add`. -/
lemma dirAdd_spec (name : CStr) (hfile : 2 ≤ n)
    (hn : n < 2 ^ 32) (hnew : ∀ w, ¬s.disk.Bound w n) :
    (∃ i d, i < 16 ∧ ValidName name.chars ∧ (∀ m, ¬s.disk.Bound name.chars m) ∧ s.disk.slot i = none ∧
      dirAdd s dir .all name n = .ok (true, { s with disk := d }) ∧ s.disk.Quiet d live 1 ∧
      (∀ j, d.slot j = update s.disk.slot i (some (name.chars, n)) j) ∧ Root d ∧
      Inv { s with disk := d } live refs) ∨
    (dirAdd s dir .all name n = .ok (false, s) ∧ ¬(ValidName name.chars ∧ (∀ m, ¬s.disk.Bound name.chars m) ∧
      ∃ i < 16, s.disk.slot i = none)) := by
  rw [dirAdd]
  by_cases hinvalid : name.chars = [] ∨ name.chars.length > 14
  · right
    rw [if_pos hinvalid]
    refine ⟨rfl, fun hall => ?_⟩
    rcases hinvalid with hempty | hlong
    · exact hall.1.1 hempty
    · have := hall.1.2
      omega
  · rw [if_neg hinvalid]
    have hvalid : ValidName name.chars := ⟨fun hempty => hinvalid (Or.inl hempty), by omega⟩
    rcases lookup_spec hd h name with ⟨i, e, m, hi, hlookup, _, hslot, _⟩ | ⟨hlookup, hunbound⟩
    · right
      rw [Bounces.all, hlookup]
      exact ⟨rfl, fun hall => hall.2.1 m ⟨i, hi, hslot⟩⟩
    · obtain ⟨i, e, hscan, _, hi, hbefore, hfree⟩ :=
        freeSlotLoop_spec (hd.reads h) (show 0 + 17 = 17 from rfl) (by omega) fun _ => 0
      rw [Bounces.all, hlookup, except_ok_bind]
      dsimp only
      rw [hd.entryRounds_eq h, except_ok_bind, hscan, except_ok_bind]
      have hdeny : ino.denyWriteCnt = 0 := (h.table.system dir.inode ino hd.inode (by rw [hd.sector]; omega)).1
      by_cases hend : i = 16
      · right
        have havailable : available ino 20 (20 * i : ℕ) = 0 := by
          rw [available, hd.data_length h]
          omega
        rw [Fs.writeAt_end h.space.layout (h.table.live dir.inode ino hd.inode) hd.inode
          (h.table.cached dir.inode ino hd.inode) hdeny _ havailable, except_ok_bind]
        refine ⟨rfl, fun hall => ?_⟩
        obtain ⟨j, hj, hnone⟩ := hall.2.2
        exact (hbefore j (Nat.zero_le j) (by omega)).2 hnone
      · left
        have hfree : s.disk.slot i = none := (hfree (by omega)).resolve_left Bool.noConfusion
        obtain ⟨hentry, hterminated⟩ := entryOf_newEntry e hvalid hn
        obtain ⟨d, hwrite, hquiet, hslots, hroot, hinv⟩ := hd.write_spec h (show i < 16 by omega) (newEntry e name n)
          (fun _ => hterminated) (fun w m hbinds => by
            rw [hentry] at hbinds
            rcases (binds_store (by omega) hfree).mp hbinds with ⟨rfl, rfl⟩ | hold
            · exact ⟨hvalid.1, hfile⟩
            · exact ⟨hd.root.nonempty w m hold, hd.root.file w m hold⟩)
          (by rw [hentry]; exact hd.root.oneToOne.store hunbound hnew)
        rw [hentry] at hslots
        refine ⟨i, d, by omega, hvalid, hunbound, hfree, ?_, hquiet, hslots, hroot, hinv⟩
        rw [hwrite]
        rfl

/-! ## Clearing -/

/-- `dir_remove` clears the slot of the entry it found. -/
lemma RootDir.clear_spec (hi : i < 16)
    (hslot : s.disk.slot i = some (w, n)) (e) :
    ∃ d, s.writeAt dir.inode true (update e 19 0) 20 (20 * i : ℕ) = .ok (20, { s with disk := d }) ∧
      s.disk.Quiet d live 1 ∧ (∀ w' m, d.Bound w' m ↔ s.disk.Bound w' m ∧ w' ≠ w) ∧ Root d ∧
      Inv { s with disk := d } live refs := by
  have hnone := entryOf_update_zero e
  have hbinds : ∀ w' m, Binds 16 (update s.disk.slot i (entryOf (update e 19 0))) w' m ↔
      s.disk.Bound w' m ∧ w' ≠ w := by
    intro w' m
    exact binds_clear hd.root.oneToOne hi hslot
  obtain ⟨d, hwrite, hquiet, hslots, hroot, hinv⟩ := hd.write_spec h hi (update e 19 0)
    (fun huse => by rw [entryOf_eq_none.mp hnone] at huse; cases huse)
    (fun w' m hm => by
      have hold := ((hbinds w' m).mp hm).1
      exact ⟨hd.root.nonempty w' m hold, hd.root.file w' m hold⟩)
    (by rw [hnone]; exact hd.root.oneToOne.clear)
  refine ⟨d, hwrite, hquiet, fun w' m => ?_, hroot, hinv⟩
  rw [Disk.Bound, binds_congr fun j _ => hslots j]
  exact hbinds w' m

/-! ## Listing -/

/-- The loop of `dir_readdir` finds the next entry in use. -/
lemma readdirLoop_spec (hfuel : 17 ≤ i + fuel) (hi : i ≤ 16)
    (e) :
    (∃ j w n, i ≤ j ∧ j < 16 ∧ s.disk.slot j = some (w, n) ∧ (∀ j', i ≤ j' → j' < j → s.disk.slot j' = none) ∧
      readdirLoop s (fun _ => true) fuel ⟨dir.inode, (20 * i : ℕ)⟩ e =
        .ok (some w, ⟨dir.inode, (20 * (j + 1) : ℕ)⟩)) ∨
    ((∀ j, i ≤ j → j < 16 → s.disk.slot j = none) ∧
      readdirLoop s (fun _ => true) fuel ⟨dir.inode, (20 * i : ℕ)⟩ e = .ok (none, ⟨dir.inode, (20 * 16 : ℕ)⟩)) := by
  induction fuel generalizing i e with
  | zero => omega
  | succ fuel ih =>
    rw [readdirLoop]
    dsimp only
    by_cases hend : i = 16
    · right
      subst hend
      obtain ⟨n, e', hread, hn⟩ := (hd.reads h).none 16 hi (Or.inl rfl) e
      rw [hread, except_ok_bind]
      rw [if_neg hn]
      exact ⟨fun j hj hj' => by omega, rfl⟩
    · obtain ⟨e', hread, he'⟩ := (hd.reads h).some i (by omega) rfl e
      have hslot : entryOf e' = s.disk.slot i := entryOf_congr he'
      rw [hread, except_ok_bind]
      by_cases huse : entryInUse e' = true
      · left
        have hterminated : Terminated e' := by
          rw [entryInUse_congr he'] at huse
          exact (hd.root.terminated i (by omega) huse).congr he'
        have hshort : (readString e' 15 4).take 14 = readString e' 15 4 :=
          List.take_of_length_le hterminated.length_le
        refine ⟨i, readString e' 15 4, entrySector e', Nat.le_refl i, by omega, ?_, fun j' _ _ => by omega, ?_⟩
        · rw [← hslot, entryOf, if_pos huse]
        · rw [if_pos huse, hshort]
          rfl
      · have hfree : s.disk.slot i = none := by
          rw [← hslot, entryOf_eq_none]
          simpa using huse
        have hstep : ∀ j, i ≤ j → (i + 1 ≤ j → s.disk.slot j = none) → s.disk.slot j = none := by
          intro j hj hlater
          by_cases hji : j = i
          · rw [hji]
            exact hfree
          · exact hlater (by omega)
        rw [if_neg huse]
        rcases ih (i := i + 1) (by omega) (by omega) e' with
          ⟨j, w, n, hj, hj', hfound, hbefore, hrun⟩ | ⟨hnone, hrun⟩
        · refine Or.inl ⟨j, w, n, by omega, hj', hfound, fun j' hle hlt => ?_, hrun⟩
          exact hstep j' hle fun hle' => hbefore j' hle' hlt
        · exact Or.inr ⟨fun j hj hj' => hstep j hj fun hle => hnone j hle hj', hrun⟩

/-- The calls of `dir_readdir` until there is no name left, as in `fsutil_ls`. -/
def readdirAll (s : Fs) : ℕ → Dir → Except Panic (Option (List (List UInt8)))
  | 0, _ => return none
  | fuel + 1, dir => do
    match ← dirReaddir s dir fun _ => true with
    | (none, _) => return some []
    | (some name, dir) =>
      let rest ← readdirAll s fuel dir
      return rest.map (name :: ·)

/-- The names from slot `i` on. -/
lemma readdirAll_from (hfuel : 17 ≤ i + fuel) (hi : i ≤ 16) :
    readdirAll s fuel ⟨dir.inode, (20 * i : ℕ)⟩ =
      .ok (some (((List.range' i (16 - i)).filterMap s.disk.slot).map Prod.fst)) := by
  induction fuel generalizing i with
  | zero => omega
  | succ fuel ih =>
    have hrun : dirReaddir s ⟨dir.inode, (20 * i : ℕ)⟩ (fun _ => true) =
        readdirLoop s (fun _ => true) 17 ⟨dir.inode, (20 * i : ℕ)⟩ fun _ => 0 := by
      have hrounds : entryRounds s ⟨dir.inode, (20 * i : ℕ)⟩ = .ok 17 := hd.entryRounds_eq h
      rw [dirReaddir, hrounds, except_ok_bind]
    rw [readdirAll, hrun]
    have hfree : ∀ l : List ℕ, (∀ j ∈ l, s.disk.slot j = none) → l.filterMap s.disk.slot = [] := by
      intro l hl
      simpa using hl
    rcases readdirLoop_spec hd h (show 17 ≤ i + 17 by omega) hi fun _ => 0 with
      ⟨j, w, n, hj, hj', hfound, hbefore, hloop⟩ | ⟨hnone, hloop⟩
    · rw [hloop, except_ok_bind]
      dsimp only
      rw [ih (by omega) (by omega)]
      have hsplit : List.range' i (16 - i) = List.range' i (j - i) ++ j :: List.range' (j + 1) (16 - (j + 1)) := by
        have happend := List.range'_append_1 (s := i) (m := j - i) (n := 16 - (j + 1) + 1)
        rw [show i + (j - i) = j by omega, show j - i + (16 - (j + 1) + 1) = 16 - i by omega] at happend
        rw [← happend, List.range'_succ]
      have hskipped : (List.range' i (j - i)).filterMap s.disk.slot = [] := by
        apply hfree
        intro j' hmem
        rw [List.mem_range'_1] at hmem
        exact hbefore j' (by omega) (by omega)
      rw [hsplit, List.filterMap_append, hskipped, List.filterMap_cons_some hfound]
      rfl
    · have hskipped : (List.range' i (16 - i)).filterMap s.disk.slot = [] := by
        apply hfree
        intro j hmem
        rw [List.mem_range'_1] at hmem
        exact hnone j (by omega) (by omega)
      rw [hloop, hskipped]
      rfl

/-- A whole scan returns the names of the table. -/
lemma readdirAll_spec (hpos : dir.pos = 0) (hfuel : 17 ≤ fuel) :
    readdirAll s fuel dir = .ok (some (slotNames 16 s.disk.slot)) := by
  obtain ⟨a, pos⟩ := dir
  obtain rfl : pos = 0 := hpos
  have hall := readdirAll_from hd h (show 17 ≤ 0 + fuel by omega) (Nat.zero_le 16)
  exact hall

end Inv

end RootDir

end Table

end OsLabs.Filesys
