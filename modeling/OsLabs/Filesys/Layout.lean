import OsLabs.Filesys.Inode
import OsLabs.Lib.Ownership

/-!
# Where inodes are on the device

An inode on the device is known by its sector. `Disk.header` and `Disk.byte` are what the device holds for it, and it
owns its sector and the sectors of its data. In a `Layout` the living inodes own different sectors, so a write to the
data of one of them leaves the others as they are (`Layout.put`).
-/

namespace OsLabs.Filesys

open Lib LibKernel

/-! ## Sectors and bytes -/

variable {size : ℤ}

/-- The number of sectors for a size that does not make the sum overflow. -/
lemma bytesToSectors_eq (h : 0 ≤ size) (hlt : size + 511 < 2 ^ 31) :
    (bytesToSectors size : ℤ) = (size + 511) / 512 := by
  have hbmod : Int.bmod (size + 511) (2 ^ 32) = size + 511 := by
    apply Int.bmod_eq_of_le <;> omega
  rw [bytesToSectors, Int.tdiv_eq_ediv_of_nonneg (by omega)]
  omega

/-- Near the end of its range, a size takes more sectors than a device has. -/
lemma bytesToSectors_ge (hlt : size < 2 ^ 31) (h : 2 ^ 31 ≤ size + 511) : 2 ^ 21 ≤ bytesToSectors size := by
  have hbmod : Int.bmod (size + 511) (2 ^ 32) = size + 511 - 2 ^ 32 := by
    rw [Int.bmod_def]
    omega
  rw [bytesToSectors, hbmod]
  have hneg : (size + 511 - 2 ^ 32).tdiv 512 = -((2 ^ 32 - size - 511) / 512) := by
    rw [show size + 511 - 2 ^ 32 = -(2 ^ 32 - size - 511) by omega, Int.neg_tdiv,
      Int.tdiv_eq_ediv_of_nonneg (by omega)]
  omega

/-- What `inode_create` writes is what `inode_open` reads. -/
lemma InodeDisk.ofBytes_bytes {data : InodeDisk} (hstart : data.start < 2 ^ 32) (hnonneg : 0 ≤ data.length)
    (hlength : data.length < 2 ^ 31) {m : ℕ → UInt8} (h : ∀ k < 8, m k = data.bytes k) : InodeDisk.ofBytes m = data := by
  have hfirst : le32 m 0 = data.start := by
    rw [← le32_leBytes hstart]
    apply le32_congr
    intro k hk
    rw [Nat.zero_add, h k (by omega), InodeDisk.bytes, copy_of_not_mem (by omega), copy_of_not_mem (by omega),
      copy_of_mem (by omega) (by omega), Nat.zero_add, Nat.sub_zero]
  have hsecond : le32 m 4 = (data.length % 2 ^ 32).toNat := by
    have hlt : (data.length % 2 ^ 32).toNat < 4294967296 := by omega
    have hbytes : le32 m 4 = le32 (leBytes (data.length % 2 ^ 32).toNat) 0 := by
      apply le32_congr
      intro k hk
      rw [h (4 + k) (by omega), InodeDisk.bytes, copy_of_not_mem (by omega), copy_add hk]
    rw [hbytes, le32_leBytes hlt]
  have hsigned : Int.bmod (le32 m 4) (2 ^ 32) = data.length := by
    rw [Int.bmod_def]
    omega
  rw [InodeDisk.ofBytes, hfirst, hsigned]

lemma InodeDisk.ofBytes_congr {m m' : ℕ → UInt8} (h : ∀ k < 8, m k = m' k) :
    InodeDisk.ofBytes m = InodeDisk.ofBytes m' := by
  have hword : ∀ i, i + 4 ≤ 8 → le32 m i = le32 m' i := by
    intro i hi
    apply le32_congr
    intro k hk
    exact h (i + k) (by omega)
  simp only [InodeDisk.ofBytes, hword 0 (by omega), hword 4 (by omega)]

namespace Disk

/-- The inode in sector `n`. -/
def header (d : Disk) (n : ℕ) : InodeDisk :=
  .ofBytes fun k => d.bytes (512 * n + k)

lemma header_length_lt (d : Disk) (n : ℕ) : (d.header n).length < 2 ^ 31 := by
  have hlt := Int.bmod_lt (x := le32 (fun k => d.bytes (512 * n + k)) 4) (m := 2 ^ 32) (by omega)
  unfold header InodeDisk.ofBytes
  dsimp only
  omega

/-- Byte `p` of the inode in sector `n`. -/
def byte (d : Disk) (n p : ℕ) : UInt8 :=
  d.bytes (512 * (d.header n).start + p)

/-- Sector `x` has data of the inode in sector `n`. -/
def Data (d : Disk) (n x : ℕ) : Prop :=
  (d.header n).start ≤ x ∧ x < (d.header n).start + bytesToSectors (d.header n).length

/-- Sector `x` belongs to the inode in sector `n`. -/
def Owns (d : Disk) (n x : ℕ) : Prop :=
  x = n ∨ d.Data n x

/-- The inode in sector `n` has the same data on both devices. -/
def Same (d d' : Disk) (n : ℕ) : Prop :=
  d'.header n = d.header n ∧ ∀ p : ℕ, p < (d.header n).length → d'.byte n p = d.byte n p

variable {d d' d'' : Disk} {n : ℕ}

lemma Same.refl (d : Disk) (n : ℕ) : d.Same d n :=
  ⟨rfl, fun _ _ => rfl⟩

lemma Same.trans (h : d.Same d' n) (h' : d'.Same d'' n) : d.Same d'' n := by
  refine ⟨h'.1.trans h.1, fun p hp => ?_⟩
  rw [h'.2 p (by rw [h.1]; exact hp), h.2 p hp]

/-- Among the living inodes, only the data of `n` may differ. -/
structure Quiet (d d' : Disk) (live : Set ℕ) (n : ℕ) : Prop where
  size : d'.size = d.size
  header : ∀ m ∈ live, d'.header m = d.header m
  same : ∀ m ∈ live, m ≠ n → d.Same d' m

lemma Quiet.refl (d : Disk) (live : Set ℕ) (n : ℕ) : d.Quiet d live n :=
  ⟨rfl, fun _ _ => rfl, fun m _ _ => .refl d m⟩

lemma Quiet.trans {live : Set ℕ} (h : d.Quiet d' live n) (h' : d'.Quiet d'' live n) : d.Quiet d'' live n :=
  ⟨h'.size.trans h.size, fun m hm => (h'.header m hm).trans (h.header m hm),
    fun m hm hne => (h.same m hm hne).trans (h'.same m hm hne)⟩

/-- Nothing differs. -/
lemma Quiet.of_same {live : Set ℕ} (hsize : d'.size = d.size) (h : ∀ m ∈ live, d.Same d' m) : d.Quiet d' live n :=
  ⟨hsize, fun m hm => (h m hm).1, fun m hm _ => h m hm⟩

lemma header_congr (h : ∀ k < 512, d'.bytes (512 * n + k) = d.bytes (512 * n + k)) : d'.header n = d.header n :=
  InodeDisk.ofBytes_congr fun k hk => h k (by omega)

lemma owns_of_header_eq (h : d'.header n = d.header n) (x : ℕ) : d'.Owns n x ↔ d.Owns n x := by
  simp only [Owns, Data, h]

end Disk

/-! ## Layouts -/

/-- The living inodes own different sectors of the device, and those are in use. -/
structure Layout (d : Disk) (used : ℕ → Bool) (live : Set ℕ) : Prop where
  owned : Ownership d.Owns (fun x => x < d.size ∧ used x = true) live
  apart : ∀ n ∈ live, ¬d.Data n n
  covered : ∀ n ∈ live, 0 ≤ (d.header n).length ∧
    (d.header n).length ≤ 512 * (bytesToSectors (d.header n).length : ℤ) ∧
    (d.header n).start + bytesToSectors (d.header n).length ≤ d.size

namespace Layout

variable {d d' : Disk} {used used' : ℕ → Bool} {live : Set ℕ} {n m : ℕ}

section Layout

variable (h : Layout d used live)
include h

lemma congr (hsize : d'.size = d.size) (hheader : ∀ m ∈ live, d'.header m = d.header m)
    (hused : ∀ m ∈ live, ∀ x, d.Owns m x → used x = true → used' x = true) : Layout d' used' live where
  owned := by
    refine (h.owned.retake fun m hm x hx htaken => ?_).congr fun m hm x =>
      (Disk.owns_of_header_eq (hheader m hm) x).mp
    rw [hsize]
    exact ⟨htaken.1, hused m hm x hx htaken.2⟩
  apart m hm hdata := by
    simp only [Disk.Data, hheader m hm] at hdata
    exact h.apart m hm hdata
  covered m hm := by
    rw [hheader m hm, hsize]
    exact h.covered m hm

omit h in
/-- No inode is alive. -/
lemma empty (d : Disk) (used : ℕ → Bool) : Layout d used ∅ where
  owned := ⟨fun n hn => absurd hn (Set.notMem_empty n), fun n hn => absurd hn (Set.notMem_empty n)⟩
  apart n hn := absurd hn (Set.notMem_empty n)
  covered n hn := absurd hn (Set.notMem_empty n)

lemma mono {live' : Set ℕ} (hsub : live' ⊆ live) : Layout d used live' :=
  ⟨h.owned.mono hsub, fun n hn => h.apart n (hsub hn), fun n hn => h.covered n (hsub hn)⟩

/-- The sector of a byte. -/
lemma data_of_lt (hn : n ∈ live) {p : ℕ} (hp : p < (d.header n).length) :
    d.Data n ((d.header n).start + p / 512) := by
  have hcovered := (h.covered n hn).2.1
  constructor
  · omega
  · omega

lemma onDevice (hn : n ∈ live) : OnDevice d (d.header n) := by
  intro p hp
  exact (h.owned.taken n hn _ (Or.inr (h.data_of_lt hn hp))).1

/-- A write to the data of an inode that is alive. -/
lemma put (hn : n ∈ live) (buffer : ℕ → UInt8) {offset k : ℕ}
    (hk : (offset + k : ℕ) ≤ (d.header n).length ∨ k = 0) :
    let d' := d.put (512 * (d.header n).start + offset) buffer 0 k
    d.Quiet d' live n ∧ d'.byte n = copy (d.byte n) offset buffer 0 k := by
  intro d'
  -- what is written is in a sector with data of `n`
  have hother : ∀ i : ℕ, (¬∃ p : ℕ, p < (d.header n).length ∧ i = 512 * (d.header n).start + p) →
      d'.bytes i = d.bytes i := by
    intro i hi
    apply copy_of_not_mem
    by_contra hin
    apply hi
    refine ⟨i - 512 * (d.header n).start, ?_, by omega⟩
    omega
  have hheader : ∀ m ∈ live, d'.header m = d.header m := by
    intro m hm
    apply Disk.header_congr
    intro k hk
    apply hother
    rintro ⟨p, hp, heq⟩
    have hdata := h.data_of_lt hn hp
    rw [show (d.header n).start + p / 512 = m by omega] at hdata
    by_cases hmn : m = n
    · rw [hmn] at hdata
      exact h.apart n hn hdata
    · exact hmn (h.owned.unique m hm n hn m (Or.inl rfl) (Or.inr hdata))
  refine ⟨⟨rfl, hheader, fun m hm hmn => ⟨hheader m hm, fun p hp => ?_⟩⟩, ?_⟩
  · rw [Disk.byte, hheader m hm]
    apply hother
    rintro ⟨q, hq, heq⟩
    have hdata := h.data_of_lt hm hp
    have hdata' := h.data_of_lt hn hq
    rw [show (d.header n).start + q / 512 = (d.header m).start + p / 512 by omega] at hdata'
    exact hmn (h.owned.unique m hm n hn _ (Or.inr hdata) (Or.inr hdata'))
  · have hbyte : d'.byte n = fun p => copy d.bytes (512 * (d.header n).start + offset) buffer 0 k
        (512 * (d.header n).start + p) := by
      funext p
      rw [Disk.byte, hheader n hn]
      rfl
    rw [hbyte, copy_shift]
    rfl

/-- A new inode in sector `n`, with zeros in sectors that were free. -/
lemma create {start : ℕ} {length : ℤ} (hnonneg : 0 ≤ length) (hlength : length < 2 ^ 31)
    (hn : n < d.size) (hused : used n = true) (hfree : ∀ m ∈ live, ¬d.Owns m n)
    (hrun : start + bytesToSectors length ≤ d.size)
    (hbefore : ∀ x, start ≤ x → x < start + bytesToSectors length → used x = false)
    (hafter : ∀ x, used' x = if start ≤ x ∧ x < start + bytesToSectors length then true else used x) :
    let d' := (d.put (512 * n) (InodeDisk.bytes ⟨start, length⟩) 0 512).put (512 * start) (fun _ => 0) 0
      (512 * bytesToSectors length)
    d'.header n = ⟨start, length⟩ ∧ (∀ p : ℕ, p < length → d'.byte n p = 0) ∧ (∀ m ∈ live, d.Same d' m) ∧
      Layout d' used' (insert n live) := by
  intro d'
  have hsmall := d.small
  have hsectors : (bytesToSectors length : ℤ) = (length + 511) / 512 := by
    apply bytesToSectors_eq hnonneg
    by_contra hge
    have := bytesToSectors_ge hlength (by omega)
    omega
  have hout : ¬(start ≤ n ∧ n < start + bytesToSectors length) := by
    rintro ⟨hle, hlt⟩
    rw [hbefore n hle hlt] at hused
    cases hused
  have hheader : d'.header n = ⟨start, length⟩ := by
    apply InodeDisk.ofBytes_bytes
    · dsimp only
      omega
    · exact hnonneg
    · exact hlength
    · intro k hk
      rw [Disk.put_of_not_mem (by omega), Disk.put_add (by omega), Nat.zero_add]
  -- the sectors that are written belong to no other inode
  have hother : ∀ i : ℕ, (∃ m ∈ live, d.Owns m (i / 512)) → d'.bytes i = d.bytes i := by
    rintro i ⟨m, hm, howns⟩
    have hne : i / 512 ≠ n := by
      intro heq
      rw [heq] at howns
      exact hfree m hm howns
    have hnot : ¬(start ≤ i / 512 ∧ i / 512 < start + bytesToSectors length) := by
      rintro ⟨hle, hlt⟩
      have htaken := (h.owned.taken m hm _ howns).2
      rw [hbefore _ hle hlt] at htaken
      cases htaken
    rw [Disk.put_of_not_mem (by omega), Disk.put_of_not_mem (by omega)]
  have hsame : ∀ m ∈ live, d.Same d' m := by
    intro m hm
    have hheader' : d'.header m = d.header m := by
      apply Disk.header_congr
      intro k hk
      exact hother _ ⟨m, hm, Or.inl (by omega)⟩
    refine ⟨hheader', fun p hp => ?_⟩
    rw [Disk.byte, hheader']
    refine hother _ ⟨m, hm, Or.inr ?_⟩
    have hdata := h.data_of_lt hm hp
    rw [show (512 * (d.header m).start + p) / 512 = (d.header m).start + p / 512 by omega]
    exact hdata
  have hdata : ∀ x, d'.Data n x ↔ start ≤ x ∧ x < start + bytesToSectors length := by
    intro x
    simp only [Disk.Data, hheader]
  refine ⟨hheader, fun p hp => ?_, hsame, ?_⟩
  · rw [Disk.byte, hheader]
    rw [Disk.put_add (by omega)]
  · have hlive : Layout d' used' live := by
      refine h.congr rfl (fun m hm => (hsame m hm).1) fun m hm x _ hx => ?_
      rw [hafter]
      split
      · rfl
      · exact hx
    have hsize : d'.size = d.size := rfl
    refine ⟨hlive.owned.insert ?_ ?_, ?_, ?_⟩
    · intro x hx
      rw [hafter]
      rcases hx with rfl | hx
      · exact ⟨hn, by rw [if_neg hout]; exact hused⟩
      · have hx := (hdata x).mp hx
        exact ⟨by omega, by rw [if_pos hx]⟩
    · intro x hx m hm howns
      rw [Disk.owns_of_header_eq (hsame m hm).1] at howns
      rcases hx with rfl | hx
      · exact hfree m hm howns
      · have hx := (hdata x).mp hx
        have htaken := (h.owned.taken m hm x howns).2
        rw [hbefore x hx.1 hx.2] at htaken
        cases htaken
    · rintro m (rfl | hm)
      · rw [hdata]
        exact hout
      · exact hlive.apart m hm
    · rintro m (rfl | hm)
      · rw [hheader]
        dsimp only
        omega
      · exact hlive.covered m hm

end Layout

end Layout

/-! ## Reading and writing through a pointer -/

section Pointer

variable {s : Fs} {used : ℕ → Bool} {live : Set ℕ} {a n : ℕ} {ino : Inode}

lemma available_le (ino : Inode) (size : ℤ) (offset : ℕ) :
    (offset + available ino size offset : ℕ) ≤ ino.data.length ∨ available ino size offset = 0 := by
  rw [available]
  omega

/-- `inode_read_at` of an inode that is alive. -/
lemma Fs.readAt_eq (hlayout : Layout s.disk used live) (hn : n ∈ live) (hino : s.inodes a = some ino)
    (hdata : ino.data = s.disk.header n) (buffer : ℕ → UInt8) (size : ℤ) (offset : ℕ) :
    s.readAt a true buffer size offset = .ok (available ino size offset,
      copy buffer 0 (s.disk.byte n) offset (available ino size offset)) := by
  have hdev : OnDevice s.disk ino.data := by
    rw [hdata]
    exact hlayout.onDevice hn
  have hread : s.readAt a true buffer size offset = inodeReadAt s.disk ino true buffer size offset := by
    rw [Fs.readAt, Fs.deref, hino, except_ok_bind]
  rw [hread, inodeReadAt_eq hdev, hdata]
  congr 2
  apply copy_congr
  intro i _
  rw [Disk.byte, Nat.add_assoc]

/-- `inode_write_at` of an inode that is alive. -/
lemma Fs.writeAt_spec (hlayout : Layout s.disk used live) (hn : n ∈ live) (hino : s.inodes a = some ino)
    (hdata : ino.data = s.disk.header n) (hdeny : ino.denyWriteCnt = 0) (buffer : ℕ → UInt8) (size : ℤ) (offset : ℕ) :
    ∃ d : Disk, s.writeAt a true buffer size offset = .ok (available ino size offset, { s with disk := d }) ∧
      s.disk.Quiet d live n ∧ d.byte n = copy (s.disk.byte n) offset buffer 0 (available ino size offset) := by
  have hdev : OnDevice s.disk ino.data := by
    rw [hdata]
    exact hlayout.onDevice hn
  have hle := available_le ino size offset
  rw [hdata] at hle
  obtain ⟨hquiet, hbyte⟩ := hlayout.put hn buffer hle
  refine ⟨_, ?_, hquiet, hbyte⟩
  rw [Fs.writeAt, Fs.deref, hino, except_ok_bind, inodeWriteAt_eq hdev hdeny, hdata]
  rfl

/-- `inode_write_at` behind the end of an inode that is alive. -/
lemma Fs.writeAt_end (hlayout : Layout s.disk used live) (hn : n ∈ live) (hino : s.inodes a = some ino)
    (hdata : ino.data = s.disk.header n) (hdeny : ino.denyWriteCnt = 0) (buffer : ℕ → UInt8) {offset : ℕ}
    (hend : available ino size offset = 0) : s.writeAt a true buffer size offset = .ok (0, s) := by
  have hdev : OnDevice s.disk ino.data := by
    rw [hdata]
    exact hlayout.onDevice hn
  rw [Fs.writeAt, Fs.deref, hino, except_ok_bind, inodeWriteAt_eq hdev hdeny, hend, Disk.put_zero]
  rfl

/-- `inode_write_at` when writes are denied. -/
lemma Fs.writeAt_denied (hino : s.inodes a = some ino) (hdeny : ino.denyWriteCnt ≠ 0) (buffer : ℕ → UInt8)
    (size offset : ℤ) : s.writeAt a true buffer size offset = .ok (0, s) := by
  rw [Fs.writeAt, Fs.deref, hino, except_ok_bind, inodeWriteAt_denied hdeny]
  rfl

end Pointer

end OsLabs.Filesys
