import OsLabs.Devices.Partition

/-!
# What a scan registers, and what the tables describe

`Describes` follows the tables of a device as they are meant: an extended entry of the master boot record gives the
sector of a nested table, one of a nested table gives it relative to the extended partition of the master boot record, and
the offset of a partition is relative to the table it is in.

The scan is compared with it through `Adds`: what a call of `read_partition_table` does to the number of partitions and to
the registered devices, for the list of partitions that it finds.
-/

namespace OsLabs.Devices

variable {d : Block}

/-! ## The tables as they are meant -/

/-- There is a partition table in the sector. -/
def Block.IsTable (d : Block) (sector : ℕ) : Prop :=
  sector < d.size ∧ d.signature sector = 0xaa55

/-- The sector of the table that an extended entry of the table in `sector` points to. -/
def Entry.nestedSector (e : Entry) (sector primary : ℕ) : ℕ :=
  if sector = 0 then e.offset else e.offset + primary

/-- The extended partition of the master boot record that this table is in. -/
def Entry.nestedPrimary (e : Entry) (sector primary : ℕ) : ℕ :=
  if sector = 0 then e.offset else primary

/-- These entries of the table in `sector` stand for these partitions, with the ones of nested tables in their places. -/
inductive Describes (d : Block) : ℕ → ℕ → List Entry → List Partition → Prop
  | nil (sector primary : ℕ) : Describes d sector primary [] []
  | empty {sector primary : ℕ} {e : Entry} {es : List Entry} {ps : List Partition} (he : e.IsEmpty)
      (hrest : Describes d sector primary es ps) : Describes d sector primary (e :: es) ps
  | partition {sector primary : ℕ} {e : Entry} {es : List Entry} {ps : List Partition} (he : ¬e.IsEmpty)
      (hext : ¬e.IsExtended) (hrest : Describes d sector primary es ps) :
      Describes d sector primary (e :: es) (⟨blockType e.type, sector + e.offset, e.size⟩ :: ps)
  | extended {sector primary : ℕ} {e : Entry} {es : List Entry} {below ps : List Partition} (he : ¬e.IsEmpty)
      (hext : e.IsExtended) (htable : d.IsTable (e.nestedSector sector primary))
      (hbelow : Describes d (e.nestedSector sector primary) (e.nestedPrimary sector primary)
        (d.entries (e.nestedSector sector primary)) below)
      (hrest : Describes d sector primary es ps) : Describes d sector primary (e :: es) (below ++ ps)

/-- The tables of the device form a finite tree and describe these partitions. -/
def Block.HasPartitions (d : Block) (ps : List Partition) : Prop :=
  d.IsTable 0 ∧ Describes d 0 0 (d.entries 0) ps

/-- The partition lies inside of the device. -/
def Partition.Fits (d : Block) (p : Partition) : Prop :=
  p.start < d.size ∧ p.start + p.size ≤ d.size

instance (d : Block) (p : Partition) : Decidable (p.Fits d) := inferInstanceAs (Decidable (_ ∧ _))

/-- The partitions with the numbers that follow `n`. -/
def numbered : ℕ → List Partition → List (ℕ × Partition)
  | _, [] => []
  | n, p :: ps => (n + 1, p) :: numbered (n + 1) ps

/-! ## What a call adds -/

/-- The scan went from `s` to `t` and found the partitions `ps`: each of them got a number, and those that fit were
registered. -/
structure Adds (d : Block) (s t : Scan) (ps : List Partition) : Prop where
  partNr : t.partNr = s.partNr + ps.length
  devices : t.devices = s.devices ++ (numbered s.partNr ps).filter fun r => r.2.Fits d

lemma numbered_append (n : ℕ) (ps qs : List Partition) :
    numbered n (ps ++ qs) = numbered n ps ++ numbered (n + ps.length) qs := by
  induction ps generalizing n with
  | nil => rfl
  | cons p ps ih =>
    have hlength : n + (p :: ps).length = n + 1 + ps.length := by
      rw [List.length_cons]
      omega
    rw [hlength]
    show (n + 1, p) :: numbered (n + 1) (ps ++ qs) = (n + 1, p) :: (numbered (n + 1) ps ++ _)
    rw [ih]

namespace Adds

variable {s t u : Scan} {ps qs : List Partition}

lemma print (s : Scan) (m : Message) : Adds d s (s.print m) [] :=
  ⟨rfl, (List.append_nil _).symm⟩

lemma refl (s : Scan) : Adds d s s [] :=
  ⟨rfl, (List.append_nil _).symm⟩

lemma trans (h : Adds d s t ps) (h' : Adds d t u qs) : Adds d s u (ps ++ qs) := by
  constructor
  · rw [h'.partNr, h.partNr, List.length_append, Nat.add_assoc]
  · rw [h'.devices, h.devices, h.partNr, numbered_append, List.filter_append, List.append_assoc]

/-- A loop adds what its rounds add. -/
lemma foldlM {f : Scan → Entry → Option Scan} {g : Entry → List Partition} {es : List Entry}
    (h : ∀ e ∈ es, ∀ s t, f s e = some t → Adds d s t (g e)) (hrun : es.foldlM f s = some t) :
    Adds d s t (es.flatMap g) := by
  induction es generalizing s with
  | nil =>
    obtain rfl : s = t := Option.some.inj hrun
    exact refl s
  | cons e es ih =>
    obtain ⟨r, hr, hrest⟩ := Option.bind_eq_some_iff.mp hrun
    have hfirst := h e (List.mem_cons_self ..) s r hr
    exact hfirst.trans (ih (fun e' he' => h e' (List.mem_cons_of_mem e he')) hrest)

end Adds

lemma Block.uint32_lt (d : Block) (sector i : ℕ) : d.uint32 sector i < 2 ^ 32 := by
  have h₀ := (d.bytes (512 * sector + i)).toNat_lt
  have h₁ := (d.bytes (512 * sector + i + 1)).toNat_lt
  have h₂ := (d.bytes (512 * sector + i + 2)).toNat_lt
  have h₃ := (d.bytes (512 * sector + i + 3)).toNat_lt
  unfold Block.uint32
  omega

variable {sector fuel : ℕ} {s t : Scan} {ps : List Partition}

lemma Block.entries_lt {e : Entry} (he : e ∈ d.entries sector) : e.offset < 2 ^ 32 ∧ e.size < 2 ^ 32 := by
  have hentry : ∃ i, e = d.entry sector i := by
    simp only [Block.entries, List.mem_cons, List.not_mem_nil, or_false] at he
    rcases he with rfl | rfl | rfl | rfl <;> exact ⟨_, rfl⟩
  obtain ⟨i, rfl⟩ := hentry
  exact ⟨d.uint32_lt .., d.uint32_lt ..⟩

/-- The test of `found_partition` sees a sum that wraps around. -/
lemma foundPartition_adds {start size : ℕ} (hstart : start < 2 ^ 32) (hsize : size < 2 ^ 32) (partType : ℕ)
    (s : Scan) :
    Adds d s (foundPartition d partType start size (s.partNr + 1) { s with partNr := s.partNr + 1 })
      [⟨blockType partType, start, size⟩] := by
  have hd := d.size_lt
  have hfilter : (numbered s.partNr [⟨blockType partType, start, size⟩]).filter (fun r => r.2.Fits d) =
      if (⟨blockType partType, start, size⟩ : Partition).Fits d then
        [(s.partNr + 1, ⟨blockType partType, start, size⟩)] else [] := by
    simp only [numbered, List.filter_cons, List.filter_nil, decide_eq_true_eq]
  unfold foundPartition
  by_cases hfits : (⟨blockType partType, start, size⟩ : Partition).Fits d
  · rw [if_pos hfits] at hfilter
    have hlt : start < d.size := hfits.1
    have hle : start + size ≤ d.size := hfits.2
    rw [if_neg (by omega), if_neg (by omega)]
    exact ⟨rfl, by rw [hfilter]⟩
  · rw [if_neg hfits] at hfilter
    have hpast : d.size ≤ start ∨ d.size < start + size := by
      by_contra hin
      apply hfits
      show start < d.size ∧ start + size ≤ d.size
      omega
    have hdevices : s.devices = s.devices ++ (numbered s.partNr [⟨blockType partType, start, size⟩]).filter
        fun r => r.2.Fits d := by
      rw [hfilter, List.append_nil]
    by_cases hbeyond : d.size ≤ start
    · rw [if_pos hbeyond]
      exact ⟨rfl, hdevices⟩
    · rw [if_neg hbeyond, if_pos (by omega)]
      exact ⟨rfl, hdevices⟩

/-! ## What the scan finds -/

/-- The partitions in the entries of sector 0 at a base, with those of `below e` in the place of an extended entry. -/
def Block.listed (d : Block) (base : ℕ) (below : Entry → List Partition) : List Partition :=
  (d.entries 0).flatMap fun e =>
    if e.IsEmpty then []
    else if e.IsExtended then below e
    else [⟨blockType e.type, (e.offset + base) % 2 ^ 32, e.size⟩]

/-- The partitions of sector 0, and those of sector 0 again at the offset of each extended entry. -/
def Block.reread (d : Block) : List Partition :=
  d.listed 0 fun e => if e.offset < d.size then d.listed e.offset fun _ => [] else []

/-- A call of `read_partition_table` lists sector 0. -/
lemma readPartitionTable_adds {primary : ℕ} {below : Entry → List Partition}
    (hlt : sector < d.size) (hsig : d.signature 0 = 0xaa55)
    (hbelow : ∀ e ∈ d.entries 0, e.Nests → ∀ s t,
      (if sector = 0 then readPartitionTable d fuel e.offset e.offset s
        else readPartitionTable d fuel ((e.offset + primary) % 2 ^ 32) primary s) = some t → Adds d s t (below e))
    (hrun : readPartitionTable d (fuel + 1) sector primary s = some t) : Adds d s t (d.listed sector below) := by
  rw [readPartitionTable, if_neg (by omega), if_neg (not_not.mpr hsig)] at hrun
  refine Adds.foldlM ?_ hrun
  intro e he s t hround
  by_cases hempty : e.IsEmpty
  · rw [readEntry, if_pos hempty] at hround
    obtain rfl := Option.some.inj hround
    rw [if_pos hempty]
    exact Adds.refl s
  · rw [if_neg hempty]
    by_cases hext : e.IsExtended
    · rw [readEntry_nests ⟨hempty, hext⟩] at hround
      rw [if_pos hext]
      exact (Adds.print s _).trans (hbelow e he ⟨hempty, hext⟩ _ t hround)
    · rw [readEntry, if_neg hempty, if_neg hext] at hround
      obtain rfl := Option.some.inj hround
      rw [if_neg hext]
      exact foundPartition_adds (Nat.mod_lt _ (by decide)) (Block.entries_lt he).2 e.type s

/-- Past the end of the device nothing is found. -/
lemma readPartitionTable_past_end_adds {primary : ℕ} (hend : d.size ≤ sector)
    (hrun : readPartitionTable d fuel sector primary s = some t) : Adds d s t [] := by
  cases fuel with
  | zero => cases hrun
  | succ fuel =>
    rw [readPartitionTable_past_end hend] at hrun
    obtain rfl := Option.some.inj hrun
    exact Adds.print s _

/-- The call for an extended entry of sector 0 lists sector 0 at its offset. -/
lemma Block.Stops.nested_adds (hstops : d.Stops) (hsize : 0 < d.size) (hsig : d.signature 0 = 0xaa55)
    {e : Entry} (he : e ∈ d.entries 0) (hnests : e.Nests)
    (hrun : readPartitionTable d fuel e.offset e.offset s = some t) :
    Adds d s t (if e.offset < d.size then d.listed e.offset fun _ => [] else []) := by
  by_cases hlt : e.offset < d.size
  · have hend : ∀ f ∈ d.entries 0, f.Nests → d.size ≤ (f.offset + e.offset) % 2 ^ 32 := by
      rcases hstops with hzero | hbad | hall
      · omega
      · exact absurd hsig hbad
      · exact hall e he hnests hlt
    have hself := hend e he hnests
    have hne : e.offset ≠ 0 := by
      intro hzero
      omega
    rw [if_pos hlt]
    cases fuel with
    | zero => cases hrun
    | succ fuel =>
      refine readPartitionTable_adds hlt hsig ?_ hrun
      intro f hf hnests' s t hcall
      rw [if_neg hne] at hcall
      exact readPartitionTable_past_end_adds (hend f hf hnests') hcall
  · rw [if_neg hlt]
    exact readPartitionTable_past_end_adds (by omega) hrun

/-- What a scan that returns has registered. -/
lemma Block.Stops.devices (hstops : d.Stops) (hsize : 0 < d.size) (hsig : d.signature 0 = 0xaa55)
    (hrun : partitionScan d fuel = some s) : s.devices = (numbered 0 d.reread).filter fun r => r.2.Fits d := by
  obtain ⟨t, ht, hlast⟩ := Option.bind_eq_some_iff.mp hrun
  have hdevices : s.devices = t.devices := by
    obtain rfl := Option.some.inj hlast
    split <;> rfl
  cases fuel with
  | zero => cases ht
  | succ fuel =>
    have hadds : Adds d ⟨0, [], []⟩ t d.reread := by
      refine readPartitionTable_adds hsize hsig ?_ ht
      intro e he hnests s t hcall
      exact hstops.nested_adds hsize hsig he hnests hcall
    rw [hdevices, hadds.devices]
    rfl

/-! ## Exactness -/

/-- The scan returns, it has registered the partitions that fit, with the numbers from 1 on, and a sector of a registered
partition is translated to one of the device. -/
def Block.FindsExactly (d : Block) (ps : List Partition) : Prop :=
  ∃ fuel s, partitionScan d fuel = some s ∧ s.devices = numbered 0 (ps.filter fun p => p.Fits d) ∧
    ∀ r ∈ s.devices, ∀ sector < r.2.size, r.2.start + sector < d.size ∧
      partitionRead d r.2 sector = d.read (r.2.start + sector) ∧
      ∀ buffer, partitionWrite d r.2 sector buffer = d.write (r.2.start + sector) buffer

/-- The condition under which reading sector 0 in the place of the nested tables makes no difference: the scan stops, the
partitions that fit are the same, and none that does not fit takes a number before one that does. -/
def Block.MbrSuffices (d : Block) (ps : List Partition) : Prop :=
  d.Stops ∧ (d.reread.filter fun p => p.Fits d) = (ps.filter fun p => p.Fits d) ∧
    d.reread.Pairwise fun p q => q.Fits d → p.Fits d

lemma lt_of_mem_numbered {n : ℕ} {r : ℕ × Partition} (h : r ∈ numbered n ps) : n < r.1 := by
  induction ps generalizing n with
  | nil => cases h
  | cons p ps ih =>
    rcases List.mem_cons.mp h with rfl | hmem
    · exact Nat.lt_succ_self n
    · exact Nat.lt_of_succ_lt (ih hmem)

lemma map_snd_filter_numbered (d : Block) (n : ℕ) (ps) :
    ((numbered n ps).filter fun r => r.2.Fits d).map Prod.snd = ps.filter fun p => p.Fits d := by
  induction ps generalizing n with
  | nil => rfl
  | cons p ps ih =>
    rw [numbered]
    by_cases hp : p.Fits d
    · rw [List.filter_cons_of_pos (by simpa using hp), List.filter_cons_of_pos (by simpa using hp), List.map_cons, ih]
    · rw [List.filter_cons_of_neg (by simpa using hp), List.filter_cons_of_neg (by simpa using hp), ih]

/-- The numbers of the partitions that fit follow each other when no number is spent before. -/
lemma filter_numbered_eq_iff (d : Block) (n : ℕ) (ps qs) :
    ((numbered n ps).filter fun r => r.2.Fits d) = numbered n qs ↔
      (ps.filter fun p => p.Fits d) = qs ∧ ps.Pairwise fun p q => q.Fits d → p.Fits d := by
  induction ps generalizing n qs with
  | nil => cases qs <;> simp [numbered]
  | cons p ps ih =>
    rw [numbered, List.pairwise_cons]
    by_cases hp : p.Fits d
    · rw [List.filter_cons_of_pos (by simpa using hp), List.filter_cons_of_pos (by simpa using hp)]
      cases qs with
      | nil => simp [numbered]
      | cons q qs =>
        rw [numbered, List.cons.injEq, List.cons.injEq, Prod.mk.injEq, ih]
        simp only [hp, implies_true, true_and, and_assoc]
    · -- the number of `p` is spent, so nothing may follow
      rw [List.filter_cons_of_neg (by simpa using hp), List.filter_cons_of_neg (by simpa using hp)]
      have hnone : (∀ q ∈ ps, q.Fits d → p.Fits d) ↔ (ps.filter fun p => p.Fits d) = [] := by
        simp [hp]
      rw [hnone]
      cases qs with
      | nil =>
        have hnil : ((numbered (n + 1) ps).filter fun r => r.2.Fits d) = [] ↔
            (ps.filter fun p => p.Fits d) = [] := by
          rw [← map_snd_filter_numbered d (n + 1) ps, List.map_eq_nil_iff]
        rw [show numbered n [] = [] from rfl, hnil]
        constructor
        · intro hfilter
          refine ⟨hfilter, hfilter, ?_⟩
          refine List.Pairwise.imp_of_mem ?_ (List.pairwise_of_forall fun _ _ => True.intro)
          intro x y _ hy _ hfits
          exact absurd hfits (by simpa using List.filter_eq_nil_iff.mp hfilter y hy)
        · intro h
          exact h.1
      | cons q qs =>
        constructor
        · intro h
          have hmem : (n + 1, q) ∈ (numbered (n + 1) ps).filter fun r => r.2.Fits d := by
            rw [h]
            exact List.mem_cons_self ..
          exact absurd (lt_of_mem_numbered (List.mem_filter.mp hmem).1) (Nat.lt_irrefl _)
        · intro h
          rw [h.1] at h
          cases h.2.1

/-- A sector of a partition that fits is one of the device. -/
lemma Partition.Fits.translates {p : Partition} (h : p.Fits d) (hlt : sector < p.size) :
    p.start + sector < d.size ∧ partitionRead d p sector = d.read (p.start + sector) ∧
      ∀ buffer, partitionWrite d p sector buffer = d.write (p.start + sector) buffer := by
  have hd := d.size_lt
  have hend := h.2
  have hmod : (p.start + sector) % 2 ^ 32 = p.start + sector := Nat.mod_eq_of_lt (by omega)
  refine ⟨by omega, ?_, fun buffer => ?_⟩
  · rw [partitionRead, hmod]
  · rw [partitionWrite, hmod]

/-- Without extended entries the tables describe what the scan lists. -/
lemma Describes.eq_flatMap {es : List Entry} (h : Describes d 0 0 es ps) (below : Entry → List Partition)
    (hlt : ∀ e ∈ es, e.offset < 2 ^ 32) (hno : ∀ e ∈ es, ¬e.Nests) :
    (es.flatMap fun e =>
      if e.IsEmpty then []
      else if e.IsExtended then below e
      else [⟨blockType e.type, (e.offset + 0) % 2 ^ 32, e.size⟩]) = ps := by
  induction es generalizing ps with
  | nil =>
    cases h
    rfl
  | cons e es ih =>
    have hrest {qs : List Partition} (hqs : Describes d 0 0 es qs) :=
      ih hqs (fun f hf => hlt f (List.mem_cons_of_mem e hf)) fun f hf => hno f (List.mem_cons_of_mem e hf)
    rw [List.flatMap_cons]
    cases h with
    | empty he hes => rw [if_pos he, hrest hes, List.nil_append]
    | partition he hext hes =>
      rw [if_neg he, if_neg hext, hrest hes, Nat.add_zero, Nat.mod_eq_of_lt (hlt e (List.mem_cons_self ..)), Nat.zero_add]
      rfl
    | extended he hext => exact absurd ⟨he, hext⟩ (hno e (List.mem_cons_self ..))

/-- A device without extended partitions meets the condition, unless numbers are spent on partitions that do not fit. -/
lemma Block.HasPartitions.mbrSuffices (h : d.HasPartitions ps) (hno : ∀ e ∈ d.entries 0, ¬e.Nests)
    (hfit : ps.Pairwise fun p q => q.Fits d → p.Fits d) : d.MbrSuffices ps := by
  have hreread : d.reread = ps := by
    unfold Block.reread Block.listed
    exact h.2.eq_flatMap _ (fun e he => (Block.entries_lt he).1) hno
  refine ⟨Or.inr (Or.inr fun e he hnests => absurd hnests (hno e he)), ?_, ?_⟩
  · rw [hreread]
  · rw [hreread]
    exact hfit

/-- The scan finds what the tables describe exactly when sector 0 may stand for all of them. -/
theorem partitionScan_exact (d : Block) (ps : List Partition) (h : d.HasPartitions ps) :
    d.FindsExactly ps ↔ d.MbrSuffices ps := by
  have hsize : 0 < d.size := h.1.1
  have hsig : d.signature 0 = 0xaa55 := h.1.2
  constructor
  · rintro ⟨fuel, s, hrun, hdevices, -⟩
    have hreturns : partitionScan d fuel ≠ none := by
      rw [hrun]
      exact Option.some_ne_none s
    have hstops := stops_of_returns hreturns
    rw [hstops.devices hsize hsig hrun, filter_numbered_eq_iff] at hdevices
    exact ⟨hstops, hdevices⟩
  · rintro ⟨hstops, hsame⟩
    obtain ⟨s, hrun⟩ := Option.ne_none_iff_exists'.mp (hstops.returns 0)
    have hdevices := hstops.devices hsize hsig hrun
    refine ⟨3, s, hrun, ?_, ?_⟩
    · rw [hdevices, filter_numbered_eq_iff]
      exact hsame
    · intro r hr sector hlt
      rw [hdevices] at hr
      have hfits : r.2.Fits d := by simpa using (List.mem_filter.mp hr).2
      exact hfits.translates hlt

/-- A disk with a kernel and a file system, and no extended partition. -/
def primaryDisk : Block where
  size := 8
  size_lt := by decide
  bytes := bytesOf [(450, 0x20), (454, 1), (458, 2), (466, 0x21), (470, 3), (474, 5), (510, 0x55), (511, 0xaa)]

lemma primaryDisk_hasPartitions : primaryDisk.HasPartitions [⟨.kernel, 1, 2⟩, ⟨.filesys, 3, 5⟩] := by
  refine ⟨⟨by decide, by decide⟩, ?_⟩
  apply Describes.partition (by decide) (by decide)
  apply Describes.partition (by decide) (by decide)
  apply Describes.empty (by decide)
  apply Describes.empty (by decide)
  exact Describes.nil 0 0

theorem partitionScan_exact_primaryDisk :
    primaryDisk.HasPartitions [⟨.kernel, 1, 2⟩, ⟨.filesys, 3, 5⟩] ∧
      primaryDisk.FindsExactly [⟨.kernel, 1, 2⟩, ⟨.filesys, 3, 5⟩] := by
  refine ⟨primaryDisk_hasPartitions, (partitionScan_exact _ _ primaryDisk_hasPartitions).mpr ?_⟩
  exact primaryDisk_hasPartitions.mbrSuffices (by decide) (by decide)

/-- A disk of four sectors: the extended partition at sector 2 has a table with one file system, in sector 3. -/
def logicalDisk : Block where
  size := 4
  size_lt := by decide
  bytes := bytesOf [(450, 0x05), (454, 2), (458, 2), (510, 0x55), (511, 0xaa),
    (1474, 0x21), (1478, 1), (1482, 1), (1534, 0x55), (1535, 0xaa)]

lemma logicalDisk_hasPartitions : logicalDisk.HasPartitions [⟨.filesys, 3, 1⟩] := by
  have hempties {sector primary : ℕ} :
      Describes logicalDisk sector primary [⟨0, 0, 0⟩, ⟨0, 0, 0⟩, ⟨0, 0, 0⟩] [] :=
    .empty (by decide) (.empty (by decide) (.empty (by decide) (.nil sector primary)))
  have hbelow : Describes logicalDisk 2 2 (logicalDisk.entries 2) [⟨.filesys, 3, 1⟩] := by
    exact .partition (by decide) (by decide) hempties
  refine ⟨⟨by decide, by decide⟩, ?_⟩
  show Describes logicalDisk 0 0 (⟨0x05, 2, 2⟩ :: _) ([⟨.filesys, 3, 1⟩] ++ [])
  exact .extended (by decide) (by decide) ⟨by decide, by decide⟩ hbelow hempties

/-- The logical partition is not registered: the scan looks for it in sector 0. -/
theorem partitionScan_misses_logical :
    logicalDisk.HasPartitions [⟨.filesys, 3, 1⟩] ∧ ¬logicalDisk.FindsExactly [⟨.filesys, 3, 1⟩] := by
  refine ⟨logicalDisk_hasPartitions, ?_⟩
  rintro ⟨fuel, s, hrun, hdevices, -⟩
  have hstops : logicalDisk.Stops := stops_of_returns (by rw [hrun]; exact Option.some_ne_none s)
  have hreread : logicalDisk.reread = [] := by decide
  rw [hstops.devices (by decide) (by decide) hrun, hreread] at hdevices
  revert hdevices
  decide

end OsLabs.Devices
