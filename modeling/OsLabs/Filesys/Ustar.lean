import OsLabs.Filesys.Directory
import OsLabs.Lib.Scan
import OsLabs.LibC.Stdio

/-!
# Headers of archives

`lib/ustar.c`, which `fsutil.c` uses. A header is 512 bytes; numbers in it are octal digits with zeros in front.

`ustar_header_roundtrip`: what `ustar_make_header` writes, `ustar_parse_header` reads back. `ustar_parse_safe`: what
`ustar_parse_header` accepts, from whatever bytes, is a header with a safe name, a correct checksum and a size that fits.
-/

namespace OsLabs.Filesys

open Lib LibC Function

/-! ## Names -/

/-- The test of the loop in `strip_antisocial_prefixes`: the name starts with `/`, `./` or `../`. -/
def antisocial (w : List UInt8) : Bool :=
  [47].isPrefixOf w || [46, 47].isPrefixOf w || [46, 46, 47].isPrefixOf w

/-- `strchr (file_name, '/') + 1`. -/
def afterSlash (w : List UInt8) : List UInt8 :=
  (w.dropWhile (· ≠ 47)).drop 1

/-- The loop of `strip_antisocial_prefixes`; each round drops a character. -/
def stripLoop : ℕ → List UInt8 → List UInt8
  | 0, w => w
  | fuel + 1, w => if antisocial w then stripLoop fuel (afterSlash w) else w

/-- `strip_antisocial_prefixes`. -/
def stripAntisocialPrefixes (fileName : List UInt8) : List UInt8 :=
  let fileName := stripLoop fileName.length fileName
  if fileName = [] ∨ fileName = [46, 46] then [46] else fileName

section Strip

variable {w : List UInt8}

lemma afterSlash_suffix (w) : afterSlash w <:+ w :=
  (List.drop_suffix 1 _).trans (List.dropWhile_suffix _)

lemma length_afterSlash_lt (h : antisocial w = true) : (afterSlash w).length < w.length := by
  have hne : w ≠ [] := by
    intro hnil
    rw [hnil] at h
    cases h
  have hle := (List.dropWhile_suffix (p := fun c : UInt8 => c ≠ 47) (l := w)).length_le
  have hpos := List.length_pos_of_ne_nil hne
  unfold afterSlash
  rw [List.length_drop]
  omega

lemma stripLoop_suffix (fuel : ℕ) (w) : stripLoop fuel w <:+ w := by
  induction fuel generalizing w with
  | zero => exact List.suffix_refl w
  | succ fuel ih =>
    rw [stripLoop]
    split
    · exact (ih _).trans (afterSlash_suffix w)
    · exact List.suffix_refl w

/-- The loop ends at a name without such a prefix. -/
lemma antisocial_stripLoop {fuel : ℕ} (h : w.length ≤ fuel) : antisocial (stripLoop fuel w) = false := by
  induction fuel generalizing w with
  | zero =>
    obtain rfl : w = [] := List.eq_nil_of_length_eq_zero (Nat.le_zero.mp h)
    rfl
  | succ fuel ih =>
    rw [stripLoop]
    by_cases hpre : antisocial w = true
    · have hlt := length_afterSlash_lt hpre
      rw [if_pos hpre]
      exact ih (by omega)
    · rw [if_neg hpre]
      exact Bool.eq_false_iff.mpr hpre

lemma stripLoop_of_not (h : antisocial w = false) (fuel : ℕ) : stripLoop fuel w = w := by
  cases fuel with
  | zero => rfl
  | succ fuel => rw [stripLoop, if_neg (Bool.eq_false_iff.mp h)]

/-- A stripped name is not stripped again. -/
lemma stripAntisocialPrefixes_idem (w) :
    stripAntisocialPrefixes (stripAntisocialPrefixes w) = stripAntisocialPrefixes w := by
  have hloop := antisocial_stripLoop (Nat.le_refl w.length)
  unfold stripAntisocialPrefixes
  generalize stripLoop w.length w = v at hloop ⊢
  by_cases hdot : v = [] ∨ v = [46, 46]
  · rw [if_pos hdot]
    rfl
  · rw [if_neg hdot, stripLoop_of_not hloop, if_neg hdot]

lemma stripAntisocialPrefixes_ne_zero (h : ∀ c ∈ w, c ≠ 0) : ∀ c ∈ stripAntisocialPrefixes w, c ≠ 0 := by
  unfold stripAntisocialPrefixes
  dsimp only
  split
  · intro c hc
    rw [List.mem_singleton] at hc
    rw [hc]
    decide
  · intro c hc
    exact h c ((stripLoop_suffix w.length w).subset hc)

end Strip

/-! ## Headers -/

/-- `enum ustar_type`. -/
inductive UstarType where
  | regular
  | directory
  | eof
deriving DecidableEq

/-- The byte for the type in a header. -/
def UstarType.flag : UstarType → UInt8
  | .regular => 48
  | .directory => 53
  | .eof => 255

/-- The texts that `ustar_parse_header` returns. -/
inductive UstarError where
  | notUstar
  | version
  | chksumField
  | chksumMismatch
  | nameTooLong
  | unimplementedType
  | sizeField
  | tooLarge
deriving DecidableEq

def UstarError.message : UstarError → String
  | .notUstar => "not a ustar archive"
  | .version => "invalid ustar version"
  | .chksumField => "corrupt chksum field"
  | .chksumMismatch => "checksum mismatch"
  | .nameTooLong => "file name too long"
  | .unimplementedType => "unimplemented file type"
  | .sizeField => "corrupt file size field"
  | .tooLarge => "file too large"

/-- `calculate_chksum`: the field for the checksum, at offset 148, counts as spaces. -/
def calculateChksum (h : ℕ → UInt8) : ℕ :=
  (List.range 512).foldl (fun sum i => (sum + if 148 ≤ i ∧ i < 156 then 32 else (h i).toNat) % 2 ^ 32) 0

/-- The text `%07o`. -/
def octal7 : List UInt8 := [37, 48, 55, 111]

/-- The text `%011o`. -/
def octal11 : List UInt8 := [37, 48, 49, 49, 111]

/-- The text `0000000`. -/
def zeros7 : List UInt8 := List.replicate 7 48

/-- The text `ustar`. -/
def ustarMagic : List UInt8 := [117, 115, 116, 97, 114]

/-- The text `root`. -/
def rootName : List UInt8 := [114, 111, 111, 116]

/-- `ustar_make_header`, on a buffer with the contents `header`: whether it succeeds, and what it writes. A failed assertion
is `none`. -/
def ustarMakeHeader (fileName : List UInt8) (type : UstarType) (size : ℤ) (header : ℕ → UInt8) :
    Option (Bool × (ℕ → UInt8)) :=
  if type = .eof then none
  else
    let fileName := stripAntisocialPrefixes fileName
    if fileName.length > 99 then some (false, header)
    else do
      let h := copy header 0 (fun _ => 0) 0 512
      let h := strlcpy h 0 fileName 100
      let h ← snprintf h 100 8 octal7 [if type = .regular then 0o644 else 0o755]
      let h := strlcpy h 108 zeros7 8
      let h := strlcpy h 116 zeros7 8
      let h ← snprintf h 124 12 octal11 [size]
      let h ← snprintf h 136 12 octal11 [1136102400]
      let h := update h 156 type.flag
      let h := strlcpy h 257 ustarMagic 6
      let h := update h 264 48
      let h := update h 263 48
      let h := strlcpy h 297 rootName 32
      let h := strlcpy h 265 rootName 32
      let h ← snprintf h 148 8 octal7 [calculateChksum h]
      return (true, h)

/-- `parse_octal_field`, from offset `ofs` of the field on. -/
def parseOctalFrom (h : ℕ → UInt8) (s ofs : ℕ) : ℕ → ℕ → Option ℕ
  | 0, _ => none
  | size + 1, value =>
    let c := h (s + ofs)
    if 48 ≤ c ∧ c ≤ 55 then
      if value > (2 ^ 32 - 1) / 8 then none else parseOctalFrom h s (ofs + 1) size (c.toNat - 48 + value * 8)
    else if c = 32 ∨ c = 0 then if ofs > 0 then some value else none
    else none

/-- `parse_octal_field`. -/
def parseOctalField (h : ℕ → UInt8) (s size : ℕ) : Option ℕ :=
  parseOctalFrom h s 0 size 0

/-- `is_all_zeros`. -/
def isAllZeros (block : ℕ → UInt8) (cnt : ℕ) : Bool :=
  (List.range cnt).all fun i => block i = 0

/-- What `ustar_parse_header` stores. -/
structure UstarEntry where
  fileName : Option (List UInt8)
  type : UstarType
  size : ℕ
deriving DecidableEq

/-- `ustar_parse_header`. -/
def ustarParseHeader (h : ℕ → UInt8) : Except UstarError UstarEntry :=
  if isAllZeros h 512 then .ok ⟨none, .eof, 0⟩
  else if (List.range 6).map (fun i => h (257 + i)) ≠ ustarMagic ++ [0] then .error .notUstar
  else if h 263 ≠ 48 ∨ h 264 ≠ 48 then .error .version
  else
    match parseOctalField h 148 8 with
    | none => .error .chksumField
    | some chksum =>
      if chksum ≠ calculateChksum h then .error .chksumMismatch
      else if h 99 ≠ 0 ∨ h 345 ≠ 0 then .error .nameTooLong
      else if h 156 = UstarType.regular.flag then
        match parseOctalField h 124 12 with
        | none => .error .sizeField
        | some size =>
          if size > 2 ^ 31 - 1 then .error .tooLarge
          else .ok ⟨some (stripAntisocialPrefixes (readString h 100 0)), .regular, size⟩
      else if h 156 = UstarType.directory.flag then
        .ok ⟨some (stripAntisocialPrefixes (readString h 100 0)), .directory, 0⟩
      else .error .unimplementedType

/-! ## Fields -/

section Fields

variable {m h h' : ℕ → UInt8} {i j size w value : ℕ} {src : List UInt8}

/-- `strlcpy` writes to its field only. -/
lemma strlcpy_of_not_mem (hsize : 0 < size) (hj : j < i ∨ i + size ≤ j) : strlcpy m i src size j = m j := by
  have hlen := List.length_take_le (size - 1) src
  apply putString_of_not_mem
  omega

lemma stringAt_strlcpy (hsrc : ∀ c ∈ src, c ≠ 0) (hlen : src.length < size) : StringAt (strlcpy m i src size) i src := by
  unfold strlcpy
  rw [List.take_of_length_le (by omega)]
  exact stringAt_putString hsrc

/-- The last byte of a field of zeros stays zero. -/
lemma strlcpy_last (hlen : src.length < size) (hm : m (i + (size - 1)) = 0) : strlcpy m i src size (i + (size - 1)) = 0 := by
  unfold strlcpy
  rw [List.take_of_length_le (by omega)]
  rcases Nat.lt_or_ge src.length (size - 1) with hlt | hge
  · rw [putString_of_not_mem (by omega)]
    exact hm
  · rw [show size - 1 = src.length by omega]
    exact putString_terminator m i src

/-- The text of a number in a field with `w` digits. -/
def octal (w value : ℕ) : List UInt8 :=
  (numeral 8 w value).map baseO.char

lemma baseO_char {d : ℕ} (hd : d < 8) : (baseO.char d).toNat = 48 + d ∧ 48 ≤ baseO.char d ∧ baseO.char d ≤ 55 := by
  have hall : ∀ d < 8, (baseO.char d).toNat = 48 + d ∧ 48 ≤ baseO.char d ∧ baseO.char d ≤ 55 := by decide
  exact hall d hd

@[simp] lemma length_octal (w value : ℕ) : (octal w value).length = w := by
  rw [octal, List.length_map, length_numeral]

lemma octal_ne_zero : ∀ c ∈ octal w value, c ≠ 0 := by
  intro c hc hzero
  obtain ⟨d, hd, rfl⟩ := List.mem_map.mp hc
  obtain ⟨hval, -⟩ := baseO_char (lt_of_mem_numeral (by omega) hd)
  rw [hzero] at hval
  have h0 : (0 : UInt8).toNat = 0 := rfl
  omega

lemma snprintf_octal7 (m) (i : ℕ) {value : ℕ} (hvalue : value < 8 ^ 7) :
    snprintf m i 8 octal7 [(value : ℤ)] = some (strlcpy m i (octal 7 value) 8) := by
  have hprint : vprintf octal7.length octal7 [(value : ℤ)] = some (octal 7 value) :=
    vprintf_octal (by omega) (by omega) (by decide) rfl hvalue (by omega)
  unfold snprintf
  rw [hprint]
  rfl

lemma snprintf_octal11 (m) (i : ℕ) {value : ℕ} (hvalue : value < 2 ^ 32) :
    snprintf m i 12 octal11 [(value : ℤ)] = some (strlcpy m i (octal 11 value) 12) := by
  have hprint : vprintf octal11.length octal11 [(value : ℤ)] = some (octal 11 value) :=
    vprintf_octal (by omega) (by omega) (by decide) rfl (by omega) hvalue
  unfold snprintf
  rw [hprint]
  rfl

/-- Digits with a terminator are read, as long as the number is one of 32 bits. -/
lemma parseOctalFrom_digits {s : ℕ} (ofs size value : ℕ) {ds : List ℕ} (hds : ∀ d ∈ ds, d < 8) (hlen : ds.length < size)
    (hpos : 0 < ofs + ds.length) (hvalue : ofNumeral 8 value ds < 2 ^ 32)
    (h : StringAt m (s + ofs) (ds.map baseO.char)) : parseOctalFrom m s ofs size value = some (ofNumeral 8 value ds) := by
  induction ds generalizing size ofs value with
  | nil =>
    obtain ⟨size, rfl⟩ : ∃ n, size = n + 1 := ⟨size - 1, by omega⟩
    have hzero : m (s + ofs) = 0 := h
    rw [parseOctalFrom, hzero, if_neg (by decide), if_pos (by decide), if_pos (by simpa using hpos)]
    rfl
  | cons d ds ih =>
    rw [List.length_cons] at hlen
    obtain ⟨size, rfl⟩ : ∃ n, size = n + 1 := ⟨size - 1, by omega⟩
    obtain ⟨hchar, -, hrest⟩ := h
    obtain ⟨hval, hlo, hhi⟩ := baseO_char (hds d (List.mem_cons_self ..))
    -- the number so far is a part of the whole
    have hstep : d + value * 8 ≤ ofNumeral 8 value (d :: ds) := le_ofNumeral (by omega) _ ds
    rw [parseOctalFrom, hchar, if_pos ⟨hlo, hhi⟩, if_neg (by omega), hval, Nat.add_sub_cancel_left]
    exact ih (ofs + 1) size (d + value * 8) (fun x hx => hds x (List.mem_cons_of_mem d hx)) (by omega) (by omega) hvalue hrest

lemma parseOctalField_octal {s : ℕ} (size : ℕ) (hw : 0 < w) (hsize : w < size) (hfit : value < 8 ^ w) (hvalue : value < 2 ^ 32)
    (h : StringAt m s (octal w value)) : parseOctalField m s size = some value := by
  have hnum : ofNumeral 8 0 (numeral 8 w value) = value := ofNumeral_numeral_of_lt hfit
  have hparse := parseOctalFrom_digits 0 size 0
    (fun d hd => lt_of_mem_numeral (by omega) hd) (by rw [length_numeral]; exact hsize)
    (by rw [length_numeral]; omega) (by rw [hnum]; exact hvalue) h
  rw [hnum] at hparse
  exact hparse

/-! ## The checksum -/

lemma calculateChksum_congr (heq : ∀ i, i < 148 ∨ 156 ≤ i → h' i = h i) : calculateChksum h' = calculateChksum h := by
  unfold calculateChksum
  apply List.foldl_ext
  intro sum i hi
  by_cases hin : 148 ≤ i ∧ i < 156
  · rw [if_pos hin, if_pos hin]
  · rw [if_neg hin, if_neg hin, heq i (by omega)]

/-- The bytes of a header, with those of the checksum as blanks. -/
def blankedBytes (h : ℕ → UInt8) (n : ℕ) : List ℕ :=
  (List.range n).map fun i => if 148 ≤ i ∧ i < 156 then 32 else (h i).toNat

lemma chksum_eq (h : ℕ → UInt8) {n : ℕ} (hn : n ≤ 2 ^ 24) :
    (List.range n).foldl (fun sum i => (sum + if 148 ≤ i ∧ i < 156 then 32 else (h i).toNat) % 2 ^ 32) 0 =
      (blankedBytes h n).sum ∧ (blankedBytes h n).sum ≤ 255 * n := by
  induction n with
  | zero => exact ⟨rfl, Nat.le_refl 0⟩
  | succ n ih =>
    obtain ⟨heq, hle⟩ := ih (by omega)
    have hbyte : (if 148 ≤ n ∧ n < 156 then 32 else (h n).toNat) ≤ 255 := by
      have hlt := (h n).toNat_lt
      split <;> omega
    have hsum : (blankedBytes h (n + 1)).sum =
        (blankedBytes h n).sum + if 148 ≤ n ∧ n < 156 then 32 else (h n).toNat := by
      simp [blankedBytes, List.range_succ]
    rw [List.range_succ, List.foldl_append, heq, hsum]
    exact ⟨Nat.mod_eq_of_lt (by omega), by omega⟩

lemma calculateChksum_eq (h : ℕ → UInt8) : calculateChksum h = (blankedBytes h 512).sum :=
  (chksum_eq h (by omega)).1

lemma calculateChksum_lt (h : ℕ → UInt8) : calculateChksum h < 8 ^ 7 := by
  have hle := (chksum_eq h (show 512 ≤ 2 ^ 24 by omega)).2
  rw [calculateChksum_eq]
  omega

end Fields

/-! ## Round trip -/

/-- The fields of a header that are read back, but for the checksum. -/
structure IsHeader (h : ℕ → UInt8) (name : List UInt8) (type : UstarType) (size : ℕ) : Prop where
  name : StringAt h 0 name
  nameEnd : h 99 = 0
  size : StringAt h 124 (octal 11 size)
  flag : h 156 = type.flag
  magic : StringAt h 257 ustarMagic
  version : h 263 = 48 ∧ h 264 = 48
  path : h 345 = 0

section Header

variable {h h' : ℕ → UInt8} {name : List UInt8} {type : UstarType} {size : ℕ}

lemma IsHeader.congr (hh : IsHeader h name type size) (hname : name.length ≤ 99)
    (heq : ∀ i, i < 148 ∨ 156 ≤ i → h' i = h i) : IsHeader h' name type size where
  name := hh.name.congr fun j _ hj => heq j (by omega)
  nameEnd := (heq 99 (by omega)).trans hh.nameEnd
  size := by
    refine hh.size.congr fun j hlo hhi => heq j ?_
    rw [length_octal] at hhi
    omega
  flag := (heq 156 (by omega)).trans hh.flag
  magic := hh.magic.congr fun j hlo hhi => heq j (by omega)
  version := ⟨(heq 263 (by omega)).trans hh.version.1, (heq 264 (by omega)).trans hh.version.2⟩
  path := (heq 345 (by omega)).trans hh.path

/-- The permissions in a header. -/
def UstarType.mode (type : UstarType) : ℕ :=
  if type = .regular then 0o644 else 0o755

/-- The header before its checksum is filled in. -/
def filledHeader (name : List UInt8) (type : UstarType) (size : ℕ) (header : ℕ → UInt8) : ℕ → UInt8 :=
  let h := strlcpy (copy header 0 (fun _ => 0) 0 512) 0 name 100
  let h := strlcpy (strlcpy (strlcpy h 100 (octal 7 type.mode) 8) 108 zeros7 8) 116 zeros7 8
  let h := strlcpy (strlcpy h 124 (octal 11 size) 12) 136 (octal 11 1136102400) 12
  let h := strlcpy (update h 156 type.flag) 257 ustarMagic 6
  strlcpy (strlcpy (update (update h 264 48) 263 48) 297 rootName 32) 265 rootName 32

lemma ustarMakeHeader_eq (fileName : List UInt8) (hlen : (stripAntisocialPrefixes fileName).length ≤ 99)
    (htype : type ≠ .eof) (hsize : size < 2 ^ 31) (header : ℕ → UInt8) :
    ustarMakeHeader fileName type size header =
      let h := filledHeader (stripAntisocialPrefixes fileName) type size header
      some (true, strlcpy h 148 (octal 7 (calculateChksum h)) 8) := by
  have hmode : ∀ m : ℕ → UInt8, snprintf m 100 8 octal7 [if type = .regular then 0o644 else 0o755] =
      some (strlcpy m 100 (octal 7 type.mode) 8) := by
    intro m
    unfold UstarType.mode
    split
    · exact snprintf_octal7 m 100 (by omega : 0o644 < 8 ^ 7)
    · exact snprintf_octal7 m 100 (by omega : 0o755 < 8 ^ 7)
  have hmtime : ∀ m : ℕ → UInt8, snprintf m 136 12 octal11 [1136102400] =
      some (strlcpy m 136 (octal 11 1136102400) 12) := by
    intro m
    exact snprintf_octal11 m 136 (by omega : 1136102400 < 2 ^ 32)
  unfold ustarMakeHeader
  dsimp only
  rw [if_neg htype, if_neg (by omega), hmode, Option.bind_eq_bind, Option.bind_some, snprintf_octal11 _ _ (by omega),
    Option.bind_some, hmtime, Option.bind_some, snprintf_octal7 _ _ (calculateChksum_lt _), Option.bind_some]
  rfl

lemma filledHeader_isHeader (hname : ∀ c ∈ name, c ≠ 0) (hlen : name.length ≤ 99) (header : ℕ → UInt8) :
    IsHeader (filledHeader name type size header) name type size := by
  -- each field is written once, so it is what the write to it leaves
  refine ⟨?_, ?_, ?_, ?_, ?_, ⟨?_, ?_⟩, ?_⟩
  · apply (stringAt_strlcpy hname (by omega : name.length < 100)).congr
    intro j _ hj
    simp (disch := omega) only [filledHeader, strlcpy_of_not_mem, update_of_ne]
    rfl
  · simp (disch := omega) only [filledHeader, strlcpy_of_not_mem, update_of_ne]
    exact strlcpy_last (by omega : name.length < 100) rfl
  · have hlen : (octal 11 size).length < 12 := by
      rw [length_octal]
      omega
    apply (stringAt_strlcpy octal_ne_zero hlen).congr
    intro j hlo hhi
    simp (disch := omega) only [filledHeader, strlcpy_of_not_mem, update_of_ne]
    rfl
  · simp (disch := omega) only [filledHeader, strlcpy_of_not_mem, update_of_ne]
    exact update_self ..
  · apply (stringAt_strlcpy (by decide) (by decide : ustarMagic.length < 6)).congr
    intro j hlo hhi
    have hhi : j ≤ 257 + 5 := hhi
    simp (disch := omega) only [filledHeader, strlcpy_of_not_mem, update_of_ne]
    rfl
  · simp (disch := omega) only [filledHeader, strlcpy_of_not_mem]
    exact update_self ..
  · simp (disch := omega) only [filledHeader, strlcpy_of_not_mem, update_of_ne]
    exact update_self ..
  · simp (disch := omega) only [filledHeader, strlcpy_of_not_mem, update_of_ne]
    rfl

/-- What is in a header is what is parsed. -/
lemma IsHeader.parse (hh : IsHeader h name type size) (hlen : name.length ≤ 99) (htype : type ≠ .eof)
    (hsize : size < 2 ^ 31) (hsum : StringAt h 148 (octal 7 (calculateChksum h))) :
    ustarParseHeader h = .ok ⟨some (stripAntisocialPrefixes name), type, if type = .regular then size else 0⟩ := by
  have hmagic : (List.range 6).map (fun i => h (257 + i)) = ustarMagic ++ [0] := by
    obtain ⟨h0, -, h1, -, h2, -, h3, -, h4, -, h5⟩ := hh.magic
    simp only [List.range, List.range.loop, List.map_cons]
    rw [h0, h1, h2, h3, h4, h5]
    rfl
  have hzeros : isAllZeros h 512 = false := by
    apply Bool.eq_false_iff.mpr
    intro hall
    have hzero := List.all_eq_true.mp hall 263 (List.mem_range.mpr (by omega))
    rw [hh.version.1] at hzero
    cases hzero
  have hname : readString h 100 0 = name := hh.name.readString_eq (by omega)
  have hchksum := parseOctalField_octal 8 (by omega) (by omega) (calculateChksum_lt h)
    ((calculateChksum_lt h).trans (by omega)) hsum
  have hfield := parseOctalField_octal 12 (by omega) (by omega) (by omega) (by omega) hh.size
  unfold ustarParseHeader
  rw [hzeros, if_neg Bool.false_ne_true, if_neg (not_not.mpr hmagic)]
  rw [if_neg (by rw [hh.version.1, hh.version.2]; simp), hchksum]
  dsimp only
  rw [if_neg (not_not.mpr rfl), if_neg (by rw [hh.nameEnd, hh.path]; simp), hh.flag, hname]
  cases type with
  | regular =>
    rw [if_pos rfl, hfield]
    dsimp only
    rw [if_neg (by omega), if_pos rfl]
  | directory =>
    rw [if_neg (by decide), if_pos rfl, if_neg (by decide)]
  | eof => exact absurd rfl htype

/-- `ustar_make_header` writes a header with a correct checksum. -/
lemma ustarMakeHeader_spec (fileName : CStr) (hlen : (stripAntisocialPrefixes fileName.chars).length ≤ 99)
    (htype : type ≠ .eof) (hsize : size < 2 ^ 31) (header : ℕ → UInt8) :
    ∃ h, ustarMakeHeader fileName.chars type size header = some (true, h) ∧
      IsHeader h (stripAntisocialPrefixes fileName.chars) type size ∧ StringAt h 148 (octal 7 (calculateChksum h)) := by
  have hname := stripAntisocialPrefixes_ne_zero fileName.nonzero
  rw [ustarMakeHeader_eq fileName.chars hlen htype hsize header]
  refine ⟨_, rfl, ?_⟩
  generalize hfilled : filledHeader (stripAntisocialPrefixes fileName.chars) type size header = h
  have hh : IsHeader h (stripAntisocialPrefixes fileName.chars) type size := by
    rw [← hfilled]
    exact filledHeader_isHeader hname hlen header
  have heq : ∀ i, i < 148 ∨ 156 ≤ i → strlcpy h 148 (octal 7 (calculateChksum h)) 8 i = h i := by
    intro i hi
    exact strlcpy_of_not_mem (by omega) (by omega)
  -- the checksum does not depend on its own field
  refine ⟨hh.congr hlen heq, ?_⟩
  rw [calculateChksum_congr heq]
  apply stringAt_strlcpy octal_ne_zero
  rw [length_octal]
  omega

/-- What `ustar_make_header` writes, `ustar_parse_header` reads back, with the stripped name. The size of a directory is
not read. -/
theorem ustar_header_roundtrip (fileName : CStr) (hlen : (stripAntisocialPrefixes fileName.chars).length ≤ 99)
    (htype : type ≠ .eof) (hsize : size < 2 ^ 31) (header : ℕ → UInt8) :
    ∃ h, ustarMakeHeader fileName.chars type size header = some (true, h) ∧
      ustarParseHeader h =
        .ok ⟨some (stripAntisocialPrefixes fileName.chars), type, if type = .regular then size else 0⟩ := by
  obtain ⟨h, hmake, hh, hsum⟩ := ustarMakeHeader_spec fileName hlen htype hsize header
  have hparse := hh.parse hlen htype hsize hsum
  rw [stripAntisocialPrefixes_idem] at hparse
  exact ⟨h, hmake, hparse⟩

/-- The name `../a`, for a file of 9 bytes. -/
theorem ustar_header_roundtrip_stripped :
    stripAntisocialPrefixes [46, 46, 47, 97] = [97] ∧
    ∃ h, ustarMakeHeader [46, 46, 47, 97] .regular (9 : ℕ) (fun _ => 0) = some (true, h) ∧
      ustarParseHeader h = .ok ⟨some (stripAntisocialPrefixes [46, 46, 47, 97]), .regular, 9⟩ :=
  ⟨by decide, ustar_header_roundtrip ⟨[46, 46, 47, 97], by decide⟩ (by decide) (by decide) (by omega) _⟩

end Header

/-! ## Hostile headers -/

/-- The field of `size` bytes at `s` has octal digits for `value`, and then a blank or a null byte. -/
def OctalField (h : ℕ → UInt8) (s size value : ℕ) : Prop :=
  ∃ ds : List ℕ, 0 < ds.length ∧ ds.length < size ∧ (∀ j d, ds[j]? = some d → d < 8 ∧ (h (s + j)).toNat = 48 + d) ∧
    (h (s + ds.length) = 32 ∨ h (s + ds.length) = 0) ∧ ofNumeral 8 0 ds = value

/-- A name that leads to no other directory, in the field for it or the literal `.`. -/
structure SafeName (h : ℕ → UInt8) (name : List UInt8) : Prop where
  ne_nil : name ≠ []
  ne_parent : name ≠ [46, 46]
  social : ¬[47] <+: name ∧ ¬[46, 47] <+: name ∧ ¬[46, 46, 47] <+: name
  place : name = [46] ∨ ∃ i, i + name.length < 100 ∧ StringAt h i name

section Hostile

variable {h : ℕ → UInt8} {e : UstarEntry}

/-- The digits from offset `ofs` on. -/
lemma parseOctalFrom_eq_some {s ofs size value v : ℕ} (hparse : parseOctalFrom h s ofs size value = some v) :
    ∃ ds : List ℕ, 0 < ofs + ds.length ∧ ds.length < size ∧
      (∀ j d, ds[j]? = some d → d < 8 ∧ (h (s + (ofs + j))).toNat = 48 + d) ∧
      (h (s + (ofs + ds.length)) = 32 ∨ h (s + (ofs + ds.length)) = 0) ∧ ofNumeral 8 value ds = v := by
  induction size generalizing ofs value with
  | zero => cases hparse
  | succ size ih =>
    rw [parseOctalFrom] at hparse
    split_ifs at hparse with hdigit _ hend hpos
    · obtain ⟨ds, -, hlen, hds, hend, rfl⟩ := ih hparse
      have hlo := UInt8.le_iff_toNat_le.mp hdigit.1
      have hhi := UInt8.le_iff_toNat_le.mp hdigit.2
      refine ⟨((h (s + ofs)).toNat - 48) :: ds, by simp, by simpa using hlen, fun j d hj => ?_, ?_, rfl⟩
      · cases j with
        | zero =>
          obtain rfl := Option.some.inj hj
          simp only [UInt8.reduceToNat] at hlo hhi
          exact ⟨by omega, by rw [Nat.add_zero]; omega⟩
        | succ j =>
          rw [Nat.add_comm j, ← Nat.add_assoc ofs]
          exact hds j d hj
      · rw [List.length_cons, Nat.add_comm ds.length, ← Nat.add_assoc ofs]
        exact hend
    · exact ⟨[], hpos, Nat.succ_pos size, by simp, hend, Option.some.inj hparse⟩

lemma parseOctalField_eq_some {s size v : ℕ} (hparse : parseOctalField h s size = some v) : OctalField h s size v := by
  obtain ⟨ds, hpos, hlen, hds, hend, hv⟩ := parseOctalFrom_eq_some hparse
  simp only [Nat.zero_add] at hpos hds hend
  exact ⟨ds, hpos, hlen, hds, hend, hv⟩

lemma octalField_chksum {v : ℕ} (hparse : parseOctalField h 148 8 = some v) (hv : v = calculateChksum h) :
    OctalField h 148 8 (blankedBytes h 512).sum := by
  rw [← calculateChksum_eq, ← hv]
  exact parseOctalField_eq_some hparse

/-- The stripped name is what is left of the field, or the literal. -/
lemma safeName_strip (hend : h 99 = 0) : SafeName h (stripAntisocialPrefixes (readString h 100 0)) := by
  have hzero : ∃ j, 0 ≤ j ∧ j < 0 + 100 ∧ h j = 0 := ⟨99, by omega, by omega, hend⟩
  have hlen := length_readString_lt hzero
  have hstring := stringAt_readString hzero
  have hsocial := antisocial_stripLoop (Nat.le_refl (readString h 100 0).length)
  obtain ⟨u, hu⟩ := stripLoop_suffix (readString h 100 0).length (readString h 100 0)
  unfold stripAntisocialPrefixes
  generalize stripLoop (readString h 100 0).length (readString h 100 0) = v at hsocial hu ⊢
  dsimp only
  split
  · exact ⟨by decide, by decide, by decide, Or.inl rfl⟩
  · rename_i hname
    rw [not_or] at hname
    simp only [antisocial, Bool.or_eq_false_iff, and_assoc] at hsocial
    simp only [← Bool.not_eq_true, List.isPrefixOf_iff_prefix] at hsocial
    refine ⟨hname.1, hname.2, hsocial, Or.inr ⟨0 + u.length, ?_, ?_⟩⟩
    · rw [← hu, List.length_append] at hlen
      omega
    · rw [← hu] at hstring
      exact hstring.append

/-- Whatever the block has in it: if it is taken for a file or a directory, then its name is safe, the checksum in it is
the sum of its bytes, and the size of a file is what its field says. -/
theorem ustar_parse_safe (hparse : ustarParseHeader h = .ok e) (htype : e.type ≠ .eof) :
    (∃ name, e.fileName = some name ∧ SafeName h name) ∧ OctalField h 148 8 (blankedBytes h 512).sum ∧
      (e.type = .regular → OctalField h 124 12 e.size ∧ e.size ≤ 2 ^ 31 - 1) := by
  unfold ustarParseHeader at hparse
  split at hparse
  · cases hparse
    exact absurd rfl htype
  · -- Every test that fails gives an error, so an entry comes from the last line of the regular file or of the directory.
    repeat' split at hparse
    all_goals cases hparse
    · rename_i hsum hmatch hname _ _ _ hsize hle
      exact ⟨⟨_, rfl, safeName_strip (not_not.mp (not_or.mp hname).1)⟩, octalField_chksum hsum (not_not.mp hmatch),
        fun _ => ⟨parseOctalField_eq_some hsize, Nat.le_of_not_lt hle⟩⟩
    · rename_i hsum hmatch hname _ _
      exact ⟨⟨_, rfl, safeName_strip (not_not.mp (not_or.mp hname).1)⟩, octalField_chksum hsum (not_not.mp hmatch),
        fun hregular => by cases hregular⟩

/-- The header of the file `b` of 9 bytes. -/
theorem ustar_parse_safe_regular :
    ∃ h, ustarParseHeader h = .ok ⟨some [98], .regular, 9⟩ ∧ SafeName h [98] ∧ OctalField h 124 12 9 := by
  obtain ⟨h, -, hh, hsum⟩ :=
    ustarMakeHeader_spec ⟨[98], by decide⟩ (by decide) (by decide : UstarType.regular ≠ .eof) (by omega : 9 < 2 ^ 31) fun _ => 0
  have hparse := hh.parse (by decide) (by decide) (by omega) hsum
  obtain ⟨⟨name, hname, hsafe⟩, -, hsize⟩ := ustar_parse_safe hparse (by decide)
  cases hname
  exact ⟨h, hparse, hsafe, (hsize rfl).1⟩

end Hostile

end OsLabs.Filesys
