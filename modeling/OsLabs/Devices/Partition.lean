import Mathlib.Data.List.Basic
import Mathlib.Algebra.Group.Nat.Defs

/-!
# Partition tables

`devices/partition.c`: the scan of a block device for partitions, and the translation of the sectors of a partition.

`read_partition_table` is called for the sector of a table, but the sector it reads is always sector 0. So every nested
call goes through the entries of the master boot record again, at another base. Two results come from that:

* the scan returns if and only if no nested table is found by adding the offsets of two extended entries of sector 0
  (`Block.Stops`): otherwise the nested call meets the same entry again and again;
* on a device whose tables form a finite tree, what is registered are the partitions of sector 0, once more for each of
  its extended entries (`Block.reread`). `Describes` is what the tables mean.

The nesting of calls is bounded by `fuel`, so that a scan that never returns is one for which no `fuel` is enough.
-/

namespace OsLabs.Devices

/-! ## Block devices and tables -/

/-- `enum block_type`. -/
inductive BlockType where
  | kernel
  | filesys
  | scratch
  | swap
  | raw
  | foreign
deriving DecidableEq

/-- A block device: its size, which is a `block_sector_t`, and its bytes, sector after sector. -/
structure Block where
  size : ℕ
  size_lt : size < 2 ^ 32
  bytes : ℕ → UInt8

/-- A `uint32_t` of a sector. -/
def Block.uint32 (d : Block) (sector i : ℕ) : ℕ :=
  (d.bytes (512 * sector + i)).toNat + 2 ^ 8 * (d.bytes (512 * sector + i + 1)).toNat +
    2 ^ 16 * (d.bytes (512 * sector + i + 2)).toNat + 2 ^ 24 * (d.bytes (512 * sector + i + 3)).toNat

/-- `struct partition_table_entry`, without the fields that are never read. -/
structure Entry where
  type : ℕ
  offset : ℕ
  size : ℕ
deriving DecidableEq

/-- Entry `i` of the table in a sector. -/
def Block.entry (d : Block) (sector i : ℕ) : Entry where
  type := (d.bytes (512 * sector + (446 + 16 * i + 4))).toNat
  offset := d.uint32 sector (446 + 16 * i + 8)
  size := d.uint32 sector (446 + 16 * i + 12)

/-- The entries of the table in a sector. -/
def Block.entries (d : Block) (sector : ℕ) : List Entry :=
  [d.entry sector 0, d.entry sector 1, d.entry sector 2, d.entry sector 3]

/-- The signature of the table in a sector, a `uint16_t`. -/
def Block.signature (d : Block) (sector : ℕ) : ℕ :=
  (d.bytes (512 * sector + 510)).toNat + 2 ^ 8 * (d.bytes (512 * sector + 511)).toNat

/-- The first test of the loop over the entries. -/
def Entry.IsEmpty (e : Entry) : Prop :=
  e.size = 0 ∨ e.type = 0

instance (e : Entry) : Decidable e.IsEmpty := inferInstanceAs (Decidable (_ ∨ _))

/-- The second test of the loop over the entries: the four types of extended partitions. -/
def Entry.IsExtended (e : Entry) : Prop :=
  e.type = 0x05 ∨ e.type = 0x0f ∨ e.type = 0x85 ∨ e.type = 0xc5

instance (e : Entry) : Decidable e.IsExtended := inferInstanceAs (Decidable (_ ∨ _))

/-! ## The scan -/

/-- The type of block device a partition is registered as. -/
def blockType (partType : ℕ) : BlockType :=
  if partType = 0x20 then .kernel
  else if partType = 0x21 then .filesys
  else if partType = 0x22 then .scratch
  else if partType = 0x23 then .swap
  else .foreign

/-- What the scan prints, without the name of the device. -/
inductive Message where
  | noPartitions
  | tablePastEnd (sector : ℕ)
  | invalidSignature
  | invalidExtended (sector : ℕ)
  | extended (sector : ℕ)
  | startsPastEnd (partNr start : ℕ)
  | endPastEnd (partNr finish size : ℕ)
deriving DecidableEq

/-- `struct partition` with the type and the size it is registered with. -/
structure Partition where
  type : BlockType
  start : ℕ
  size : ℕ
deriving DecidableEq

/-- The state of a scan: `part_nr`, the devices registered so far with their numbers, and what was printed. -/
structure Scan where
  partNr : ℕ
  devices : List (ℕ × Partition)
  printed : List Message

def Scan.print (s : Scan) (m : Message) : Scan :=
  { s with printed := s.printed ++ [m] }

/-- `found_partition`. -/
def foundPartition (d : Block) (partType start size partNr : ℕ) (s : Scan) : Scan :=
  if d.size ≤ start then s.print (.startsPastEnd partNr start)
  else if (start + size) % 2 ^ 32 < start ∨ d.size < (start + size) % 2 ^ 32 then
    s.print (.endPastEnd partNr ((start + size) % 2 ^ 32) d.size)
  else { s with devices := s.devices ++ [(partNr, ⟨blockType partType, start, size⟩)] }

/-- One round of the loop over the entries, with the recursive call as a parameter. -/
def readEntry (d : Block) (nested : ℕ → ℕ → Scan → Option Scan) (sector primary : ℕ) (s : Scan) (e : Entry) :
    Option Scan :=
  if e.IsEmpty then some s
  else if e.IsExtended then
    if sector = 0 then nested e.offset e.offset (s.print (.extended sector))
    else nested ((e.offset + primary) % 2 ^ 32) primary (s.print (.extended sector))
  else
    some (foundPartition d e.type ((e.offset + sector) % 2 ^ 32) e.size (s.partNr + 1)
      { s with partNr := s.partNr + 1 })

/-- `read_partition_table`. The table it goes through is the one of sector 0, whatever `sector` is. -/
def readPartitionTable (d : Block) : ℕ → ℕ → ℕ → Scan → Option Scan
  | 0, _, _, _ => none
  | fuel + 1, sector, primary, s =>
    if d.size ≤ sector then some (s.print (.tablePastEnd sector))
    else if d.signature 0 ≠ 0xaa55 then
      some (s.print (if primary = 0 then .invalidSignature else .invalidExtended sector))
    else (d.entries 0).foldlM (readEntry d (readPartitionTable d fuel) sector primary) s

/-- `partition_scan`. -/
def partitionScan (d : Block) (fuel : ℕ) : Option Scan := do
  let s ← readPartitionTable d fuel 0 0 ⟨0, [], []⟩
  return if s.partNr = 0 then s.print .noPartitions else s

/-- `block_read`: `none` if `check_sector` stops the kernel. -/
def Block.read (d : Block) (sector : ℕ) : Option (ℕ → UInt8) :=
  if d.size ≤ sector then none else some fun i => d.bytes (512 * sector + i)

/-- `block_write`. The device of a partition is a disk, which is never of type `BLOCK_FOREIGN`. -/
def Block.write (d : Block) (sector : ℕ) (buffer : ℕ → UInt8) : Option Block :=
  if d.size ≤ sector then none
  else some { d with bytes := fun i => if i / 512 = sector then buffer (i % 512) else d.bytes i }

/-- `partition_read`. -/
def partitionRead (d : Block) (p : Partition) (sector : ℕ) : Option (ℕ → UInt8) :=
  d.read ((p.start + sector) % 2 ^ 32)

/-- `partition_write`. -/
def partitionWrite (d : Block) (p : Partition) (sector : ℕ) (buffer : ℕ → UInt8) : Option Block :=
  d.write ((p.start + sector) % 2 ^ 32) buffer

/-! ## When the scan returns -/

/-- An entry that makes `read_partition_table` call itself. -/
def Entry.Nests (e : Entry) : Prop :=
  ¬e.IsEmpty ∧ e.IsExtended

instance (e : Entry) : Decidable e.Nests := inferInstanceAs (Decidable (_ ∧ _))

/-- No nested table is found by adding the offsets of two extended entries of sector 0, the first of which points into
the device. -/
def Block.Stops (d : Block) : Prop :=
  d.size = 0 ∨ d.signature 0 ≠ 0xaa55 ∨
    ∀ e ∈ d.entries 0, e.Nests → e.offset < d.size →
      ∀ f ∈ d.entries 0, f.Nests → d.size ≤ (f.offset + e.offset) % 2 ^ 32

variable {d : Block}

lemma foldlM_eq_none {α β : Type} {f : α → β → Option α} {l : List β} {x : β} (hx : x ∈ l)
    (h : ∀ a, f a x = none) (a : α) : l.foldlM f a = none := by
  induction l generalizing a with
  | nil => cases hx
  | cons y l ih =>
    rw [List.foldlM_cons]
    rcases List.mem_cons.mp hx with rfl | hmem
    · rw [h]
      rfl
    · cases f a y with
      | none => rfl
      | some b => exact ih hmem b

lemma foldlM_ne_none {α β : Type} {f : α → β → Option α} {l : List β} (h : ∀ x ∈ l, ∀ a, f a x ≠ none) (a : α) :
    l.foldlM f a ≠ none := by
  induction l generalizing a with
  | nil => exact Option.some_ne_none a
  | cons y l ih =>
    rw [List.foldlM_cons]
    have hy := h y (List.mem_cons_self ..) a
    cases hf : f a y with
    | none => exact absurd hf hy
    | some b => exact ih (fun x hx => h x (List.mem_cons_of_mem y hx)) b

lemma readEntry_nests {nested : ℕ → ℕ → Scan → Option Scan} {e : Entry} (he : e.Nests) (sector primary : ℕ)
    (s : Scan) :
    readEntry d nested sector primary s e =
      if sector = 0 then nested e.offset e.offset (s.print (.extended sector))
      else nested ((e.offset + primary) % 2 ^ 32) primary (s.print (.extended sector)) := by
  rw [readEntry, if_neg he.1, if_pos he.2]

/-- A scan that starts in the loop never leaves it. -/
lemma readPartitionTable_eq_none (hsig : d.signature 0 = 0xaa55) {e f : Entry} (he : e ∈ d.entries 0)
    (hnests : e.Nests) (hlt : e.offset < d.size) (hf : f ∈ d.entries 0) (hnests' : f.Nests)
    (hlt' : (f.offset + e.offset) % 2 ^ 32 < d.size) (fuel : ℕ) {sector primary : ℕ}
    (hloop : sector = 0 ∨ primary = e.offset ∧ (sector = e.offset ∨ sector = (f.offset + e.offset) % 2 ^ 32))
    (s : Scan) : readPartitionTable d fuel sector primary s = none := by
  induction fuel generalizing sector primary s with
  | zero => rfl
  | succ fuel ih =>
    rw [readPartitionTable, if_neg (by omega), if_neg (not_not.mpr hsig)]
    by_cases hzero : sector = 0
    · -- from sector 0 the entry `e` leads to the table at its own offset
      apply foldlM_eq_none he
      intro s
      rw [readEntry_nests hnests, if_pos hzero]
      exact ih (Or.inr ⟨rfl, Or.inl rfl⟩) _
    · -- from there, and from then on, the entry `f` leads to the sum
      apply foldlM_eq_none hf
      intro s
      have hprimary : primary = e.offset := by omega
      rw [readEntry_nests hnests', if_neg hzero, hprimary]
      exact ih (Or.inr ⟨rfl, Or.inr rfl⟩) _

lemma readPartitionTable_past_end {sector : ℕ} (h : d.size ≤ sector) (fuel primary : ℕ) (s : Scan) :
    readPartitionTable d (fuel + 1) sector primary s = some (s.print (.tablePastEnd sector)) := by
  rw [readPartitionTable, if_pos h]

/-- A table returns if the tables its extended entries lead to do. -/
lemma readPartitionTable_ne_none {fuel sector primary : ℕ}
    (h : sector < d.size → d.signature 0 = 0xaa55 → ∀ e ∈ d.entries 0, e.Nests → ∀ s,
      (if sector = 0 then readPartitionTable d fuel e.offset e.offset s
        else readPartitionTable d fuel ((e.offset + primary) % 2 ^ 32) primary s) ≠ none) (s : Scan) :
    readPartitionTable d (fuel + 1) sector primary s ≠ none := by
  rw [readPartitionTable]
  split
  · exact Option.some_ne_none _
  · split
    · exact Option.some_ne_none _
    · apply foldlM_ne_none
      intro e he s
      by_cases hnests : e.Nests
      · rw [readEntry_nests hnests]
        exact h (by omega) (by omega) e he hnests _
      · rw [readEntry]
        split
        · exact Option.some_ne_none _
        · rw [if_neg fun hext => hnests ⟨by assumption, hext⟩]
          exact Option.some_ne_none _

/-- If the scan stops, then three levels of calls are enough. -/
lemma Block.Stops.read_ne_none (h : d.Stops) (fuel : ℕ) (s : Scan) :
    readPartitionTable d (fuel + 3) 0 0 s ≠ none := by
  apply readPartitionTable_ne_none
  intro hsize hsig e he hnests s
  apply readPartitionTable_ne_none
  intro hlt _ f hf hnests' s
  have hend : d.size ≤ (f.offset + e.offset) % 2 ^ 32 := by
    rcases h with hzero | hbad | hall
    · omega
    · exact absurd hsig hbad
    · exact hall e he hnests hlt f hf hnests'
  by_cases hzero : e.offset = 0
  · -- an entry that leads back to sector 0 would not stop the scan
    have hself : d.size ≤ (e.offset + e.offset) % 2 ^ 32 := by
      rcases h with hz | hbad | hall
      · omega
      · exact absurd hsig hbad
      · exact hall e he hnests hlt e he hnests
    omega
  · rw [if_neg hzero, readPartitionTable_past_end hend]
    exact Option.some_ne_none _

lemma partitionScan_ne_none {fuel : ℕ} :
    partitionScan d fuel ≠ none ↔ readPartitionTable d fuel 0 0 ⟨0, [], []⟩ ≠ none := by
  rw [partitionScan]
  cases readPartitionTable d fuel 0 0 ⟨0, [], []⟩ with
  | none => exact Iff.rfl
  | some s => simp

lemma stops_of_returns {fuel : ℕ} (h : partitionScan d fuel ≠ none) : d.Stops := by
  by_contra hloops
  simp only [Block.Stops, not_or, not_forall, Nat.not_le, not_not] at hloops
  obtain ⟨hsize, hsig, e, he, hnests, hlt, f, hf, hnests', hlt'⟩ := hloops
  apply partitionScan_ne_none.mp h
  exact readPartitionTable_eq_none hsig he hnests hlt hf hnests' hlt' fuel (Or.inl rfl) _

lemma Block.Stops.returns (h : d.Stops) (fuel : ℕ) : partitionScan d (fuel + 3) ≠ none :=
  partitionScan_ne_none.mpr (h.read_ne_none fuel _)

/-- The scan returns exactly on the devices that stop it. -/
theorem partitionScan_returns (d : Block) : (∃ fuel, partitionScan d fuel ≠ none) ↔ d.Stops := by
  constructor
  · rintro ⟨fuel, hreturns⟩
    exact stops_of_returns hreturns
  · intro hstops
    exact ⟨3, hstops.returns 0⟩

/-- The bytes of a device, from a list of those that are not 0. -/
def bytesOf (image : List (ℕ × UInt8)) (i : ℕ) : UInt8 :=
  (image.lookup i).getD 0

/-- Three sectors, with an extended partition at sector 1. -/
def loopingDisk : Block where
  size := 3
  size_lt := by decide
  bytes := bytesOf [(450, 0x05), (454, 1), (458, 2), (510, 0x55), (511, 0xaa)]

/-- The table in sector 1 is empty, but the scan does not return: it reads sector 0 again, at base 1. -/
theorem partitionScan_loops : ¬∃ fuel, partitionScan loopingDisk fuel ≠ none := by
  rintro ⟨fuel, hreturns⟩
  have he : loopingDisk.entry 0 0 ∈ loopingDisk.entries 0 := List.mem_cons_self ..
  have hnests : (loopingDisk.entry 0 0).Nests := by decide
  apply partitionScan_ne_none.mp hreturns
  exact readPartitionTable_eq_none (by decide) he hnests (by decide) he hnests (by decide) fuel (Or.inl rfl) _

end OsLabs.Devices
