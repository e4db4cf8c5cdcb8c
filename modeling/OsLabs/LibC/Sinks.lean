import Mathlib.Data.List.Induction
import OsLabs.LibC.Stdio

/-!
# The sinks of `printf`

`__vprintf` hands its text to an output function, one character at a time. `vsnprintf` stores the characters into a
buffer of its caller and counts them (`lib/stdio.c`); `vhprintf` of user programs collects them into blocks of up to 64
bytes for `write` (`lib/user/console.c`). Both count in an `int`, so they carry the texts of fewer than `2 ^ 31`
characters and no others.
-/

namespace OsLabs.LibC

open Lib Function

/-! ## The functions -/

/-- `struct vsnprintf_aux`, with the memory that `p` points into. -/
structure VsnprintfAux where
  mem : ℕ → UInt8
  p : ℕ
  length : ℤ
  maxLength : ℤ

/-- `vsnprintf_helper`. -/
def vsnprintfHelper (aux : VsnprintfAux) (ch : UInt8) : VsnprintfAux :=
  let length := Int.bmod (aux.length + 1) (2 ^ 32)
  if aux.length < aux.maxLength then
    { aux with mem := update aux.mem aux.p ch, p := aux.p + 1, length }
  else { aux with length }

/-- `vsnprintf`, for a format and arguments with which `__vprintf` sends `text`. -/
def vsnprintf (mem : ℕ → UInt8) (buffer bufSize : ℕ) (text : List UInt8) : (ℕ → UInt8) × ℤ :=
  let maxLength := if bufSize > 0 then Int.bmod (bufSize - 1) (2 ^ 32) else 0
  let aux := text.foldl vsnprintfHelper { mem, p := buffer, length := 0, maxLength }
  (if bufSize > 0 then update aux.mem aux.p 0 else aux.mem, aux.length)

/-- `struct vhprintf_aux`, with `p` as an index into `buf`, and the calls of `write` so far. -/
structure VhprintfAux where
  buf : ℕ → UInt8
  p : ℕ
  charCnt : ℤ
  handle : ℤ
  writes : List (ℤ × List UInt8)

/-- The characters in the buffer. -/
def VhprintfAux.pending (aux : VhprintfAux) : List UInt8 :=
  (List.range aux.p).map aux.buf

/-- `flush`. -/
def flush (aux : VhprintfAux) : VhprintfAux :=
  { aux with
    p := 0
    writes := if aux.p > 0 then aux.writes ++ [(aux.handle, aux.pending)] else aux.writes }

/-- `add_char`. `none` if the character would go behind the 64 bytes of the buffer. -/
def addChar (aux : VhprintfAux) (c : UInt8) : Option VhprintfAux :=
  if aux.p < 64 then
    let aux := { aux with buf := update aux.buf aux.p c, p := aux.p + 1 }
    let aux := if aux.p ≥ 64 then flush aux else aux
    some { aux with charCnt := Int.bmod (aux.charCnt + 1) (2 ^ 32) }
  else none

/-- `vhprintf`: its calls of `write` and its result. The bytes of `buf` are not set at first. -/
def vhprintf (buf : ℕ → UInt8) (handle : ℤ) (text : List UInt8) : Option (List (ℤ × List UInt8) × ℤ) := do
  let aux ← text.foldlM addChar { buf, p := 0, charCnt := 0, handle, writes := [] }
  let aux := flush aux
  return (aux.writes, aux.charCnt)

/-- Both sinks carry `text` whole, or as much of it as the caller has room for, and return its length. -/
structure Carries (text : List UInt8) : Prop where
  stored : ∀ (mem : ℕ → UInt8) (buffer size : ℕ), 0 < size → size ≤ 2 ^ 31 →
    vsnprintf mem buffer size text = (putString mem buffer (text.take (size - 1)), (text.length : ℤ))
  written : ∀ (buf : ℕ → UInt8) (handle : ℤ), ∃ writes, vhprintf buf handle text = some (writes, (text.length : ℤ)) ∧
    writes.flatMap Prod.snd = text ∧ ∀ w ∈ writes, w.1 = handle ∧ 1 ≤ w.2.length ∧ w.2.length ≤ 64

/-! ## A buffer of the caller -/

/-- `length` counts the characters, as an `int`. -/
lemma length_foldl_vsnprintfHelper {aux : VsnprintfAux} {n : ℕ} (text : List UInt8)
    (hlen : aux.length = Int.bmod n (2 ^ 32)) :
    (text.foldl vsnprintfHelper aux).length = Int.bmod (n + text.length : ℕ) (2 ^ 32) := by
  induction text generalizing aux n with
  | nil => exact hlen
  | cons ch text ih =>
    have hstep : (vsnprintfHelper aux ch).length = Int.bmod (n + 1 : ℕ) (2 ^ 32) := by
      have hnext : Int.bmod (aux.length + 1) (2 ^ 32) = Int.bmod (n + 1 : ℕ) (2 ^ 32) := by
        rw [hlen, Int.bmod_add_bmod]
        rfl
      unfold vsnprintfHelper
      split
      · exact hnext
      · exact hnext
    rw [List.foldl_cons, ih hstep, List.length_cons, Nat.add_right_comm, Nat.add_assoc]

/-- The characters go to the buffer while there is room. The count must not wrap: at `2 ^ 31` it would become negative,
and there would be room again. -/
lemma foldl_vsnprintfHelper {aux : VsnprintfAux} {k max : ℕ} (text : List UInt8) (hlen : aux.length = k)
    (hmax : aux.maxLength = max) (hfit : k + text.length < 2 ^ 31) :
    update (text.foldl vsnprintfHelper aux).mem (text.foldl vsnprintfHelper aux).p 0 =
      putString aux.mem aux.p (text.take (max - k)) := by
  induction text generalizing aux k with
  | nil => rw [List.take_nil, List.foldl_nil, putString]
  | cons ch text ih =>
    rw [List.length_cons] at hfit
    have hnext : Int.bmod (aux.length + 1) (2 ^ 32) = (k + 1 : ℕ) := by
      rw [hlen, Int.bmod_eq_of_le_mul_two (by omega) (by omega)]
      rfl
    rw [List.foldl_cons]
    by_cases hroom : k < max
    · have hstep : vsnprintfHelper aux ch =
          { aux with mem := update aux.mem aux.p ch, p := aux.p + 1, length := (k + 1 : ℕ) } := by
        rw [vsnprintfHelper, if_pos (by omega), hnext]
      have hleft : max - k = max - (k + 1) + 1 := by omega
      rw [hleft, hstep]
      exact ih rfl hmax (by omega)
    · have hstep : vsnprintfHelper aux ch = { aux with length := (k + 1 : ℕ) } := by
        rw [vsnprintfHelper, if_neg (by omega), hnext]
      have hrest := ih (congrArg VsnprintfAux.length hstep) (by rw [hstep, hmax]) (by omega)
      rw [hrest, hstep, Nat.sub_eq_zero_of_le (by omega), Nat.sub_eq_zero_of_le (by omega), List.take_zero,
        List.take_zero]

lemma vsnprintf_count (mem : ℕ → UInt8) (buffer size : ℕ) (text : List UInt8) :
    (vsnprintf mem buffer size text).2 = Int.bmod text.length (2 ^ 32) := by
  have hlen := length_foldl_vsnprintfHelper (n := 0) text
    (rfl : (VsnprintfAux.mk mem buffer 0 (if size > 0 then Int.bmod (size - 1) (2 ^ 32) else 0)).length = _)
  rw [Nat.zero_add] at hlen
  exact hlen

/-- An `int` holds exactly the lengths below `2 ^ 31`. -/
lemma bmod_length_eq_iff (n : ℕ) : Int.bmod n (2 ^ 32) = n ↔ n < 2 ^ 31 := by
  constructor
  · intro heq
    have hlt := Int.bmod_lt (x := n) (m := 2 ^ 32) (by decide)
    omega
  · intro hlt
    exact Int.bmod_eq_of_le_mul_two (by omega) (by omega)

/-! ## Blocks for `write` -/

/-- What `write` got and what is in the buffer make up the text. -/
structure Sends (handle : ℤ) (text : List UInt8) (aux : VhprintfAux) : Prop where
  fits : aux.p ≤ 64
  same : aux.handle = handle
  text_eq : aux.writes.flatMap Prod.snd ++ aux.pending = text
  sizes : ∀ w ∈ aux.writes, w.1 = handle ∧ 1 ≤ w.2.length ∧ w.2.length ≤ 64

section Blocks

variable {handle : ℤ} {text : List UInt8} {aux : VhprintfAux} (h : Sends handle text aux)
include h

lemma Sends.flush : Sends handle text (flush aux) := by
  by_cases hp : aux.p > 0
  · have hwrites : (LibC.flush aux).writes = aux.writes ++ [(aux.handle, aux.pending)] := if_pos hp
    have hlen : aux.pending.length = aux.p := by simp [VhprintfAux.pending]
    refine ⟨Nat.zero_le _, h.same, ?_, ?_⟩
    · rw [hwrites, ← h.text_eq]
      simp [VhprintfAux.pending, LibC.flush]
    · rw [hwrites]
      intro w hw
      rcases List.mem_append.mp hw with hold | hnew
      · exact h.sizes w hold
      · rw [List.mem_singleton.mp hnew]
        exact ⟨h.same, hlen ▸ hp, hlen ▸ h.fits⟩
  · have hzero : aux.p = 0 := by omega
    have hsame : LibC.flush aux = aux := by
      unfold LibC.flush
      rw [if_neg hp, ← hzero]
    rw [hsame]
    exact h

lemma Sends.push (c : UInt8) (hp : aux.p < 64) :
    Sends handle (text ++ [c]) { aux with buf := update aux.buf aux.p c, p := aux.p + 1 } := by
  refine ⟨hp, h.same, ?_, h.sizes⟩
  have hkeep : (List.range aux.p).map (update aux.buf aux.p c) = aux.pending := by
    apply List.map_congr_left
    intro i hi
    exact update_of_ne (List.mem_range.mp hi).ne c aux.buf
  rw [← h.text_eq, VhprintfAux.pending, List.range_succ, List.map_append, hkeep]
  simp

/-- The buffer is never full between two characters. -/
lemma Sends.addChar (c : UInt8) (hp : aux.p < 64) :
    ∃ aux', addChar aux c = some aux' ∧ Sends handle (text ++ [c]) aux' ∧ aux'.p < 64 ∧
      aux'.charCnt = Int.bmod (aux.charCnt + 1) (2 ^ 32) := by
  have hpush := h.push c hp
  unfold LibC.addChar
  rw [if_pos hp]
  refine ⟨_, rfl, ?_⟩
  by_cases hfull : aux.p + 1 ≥ 64
  · have hflush := hpush.flush
    rw [if_pos hfull]
    exact ⟨⟨hflush.fits, hflush.same, hflush.text_eq, hflush.sizes⟩, Nat.zero_lt_succ _, rfl⟩
  · rw [if_neg hfull]
    exact ⟨⟨hpush.fits, hpush.same, hpush.text_eq, hpush.sizes⟩, Nat.lt_of_not_le hfull, rfl⟩

end Blocks

lemma foldlM_addChar (buf : ℕ → UInt8) (handle : ℤ) (text : List UInt8) :
    ∃ aux, text.foldlM addChar { buf, p := 0, charCnt := 0, handle, writes := [] } = some aux ∧
      Sends handle text aux ∧ aux.p < 64 ∧ aux.charCnt = Int.bmod text.length (2 ^ 32) := by
  induction text using List.reverseRecOn with
  | nil => exact ⟨_, rfl, ⟨Nat.zero_le _, rfl, rfl, by simp⟩, Nat.zero_lt_succ _, rfl⟩
  | append_singleton text c ih =>
    obtain ⟨aux, hrun, hsends, hp, hcnt⟩ := ih
    obtain ⟨aux', hstep, hsends', hp', hcnt'⟩ := hsends.addChar c hp
    refine ⟨aux', ?_, hsends', hp', ?_⟩
    · rw [List.foldlM_append, hrun]
      simp [hstep]
    · rw [hcnt', hcnt, Int.bmod_add_bmod, List.length_append]
      rfl

lemma vhprintf_eq (buf : ℕ → UInt8) (handle : ℤ) (text : List UInt8) :
    ∃ writes, vhprintf buf handle text = some (writes, Int.bmod text.length (2 ^ 32)) ∧
      writes.flatMap Prod.snd = text ∧ ∀ w ∈ writes, w.1 = handle ∧ 1 ≤ w.2.length ∧ w.2.length ≤ 64 := by
  obtain ⟨aux, hrun, hsends, -, hcnt⟩ := foldlM_addChar buf handle text
  refine ⟨(flush aux).writes, ?_, ?_, hsends.flush.sizes⟩
  · rw [vhprintf, hrun, ← hcnt]
    rfl
  · have htext := hsends.flush.text_eq
    rwa [VhprintfAux.pending, show (flush aux).p = 0 from rfl, List.range_zero, List.map_nil, List.append_nil] at htext

/-! ## Both sinks -/

/-- The sinks of `printf` carry exactly the texts whose length is an `int`. -/
theorem carries_iff_length_lt (text : List UInt8) : Carries text ↔ text.length < 2 ^ 31 := by
  constructor
  · intro h
    rw [← bmod_length_eq_iff, ← vsnprintf_count (fun _ => 0) 0 1 text, h.stored _ _ _ (by decide) (by decide)]
  · intro hlt
    have hcount := (bmod_length_eq_iff _).mpr hlt
    refine ⟨?_, ?_⟩
    · intro mem buffer size hpos hsize
      have hmax : Int.bmod (size - 1) (2 ^ 32) = (size - 1 : ℕ) := by
        rw [Int.bmod_eq_of_le_mul_two (by omega) (by omega)]
        omega
      apply Prod.ext
      · simp only [vsnprintf, if_pos hpos, hmax]
        exact foldl_vsnprintfHelper (k := 0) text rfl rfl (by omega)
      · rw [vsnprintf_count, hcount]
    · intro buf handle
      obtain ⟨writes, hrun, htext, hsizes⟩ := vhprintf_eq buf handle text
      rw [hcount] at hrun
      exact ⟨writes, hrun, htext, hsizes⟩

/-- The format `"%*d "` with a width and a zero. -/
lemma vprintf_wide_zero {width : ℤ} (hwidth : 0 ≤ width) : vprintf 4 [37, 42, 100, 32] [width, 0] =
    some (List.replicate (Int.bmod (width - 1) (2 ^ 32)).toNat 32 ++ [48, 32]) := by
  have hconv : parseConversion [42, 100, 32] [width, 0] =
      some ({ width }, [100, 32], [0]) := by
    have hnum : parseNumber [width, 0] [42, 100, 32] = some (width, [100, 32], [0]) := rfl
    have hflags : parseFlags {} [42, 100, 32] = ({}, [42, 100, 32]) := rfl
    simp only [parseConversion, hflags, hnum, Option.bind_eq_bind, Option.bind_some, if_neg (not_lt.mpr hwidth)]
    rfl
  have hfield : formatArg { width } 100 0 =
      some (List.replicate (Int.bmod (width - 1) (2 ^ 32)).toNat 32 ++ [48]) := by
    have hbuf : accumulateDigits baseD false 64 0 0 = [] := rfl
    simp [formatArg, formatInteger, signChar, hbuf]
  rw [vprintf, hconv]
  · rw [Option.bind_eq_bind, Option.bind_some]
    dsimp only
    rw [hfield]
    show some (_ ++ [48] ++ [32]) = _
    rw [List.append_assoc]
    rfl
  · intro format heq
    simp at heq

/-- With the largest width both sinks count `2 ^ 31` characters, and return `-2 ^ 31`. -/
theorem wide_field_not_carried : ∃ text, vprintf 4 [37, 42, 100, 32] [2 ^ 31 - 1, 0] = some text ∧ ¬ Carries text ∧
    ∀ mem buffer size, (vsnprintf mem buffer size text).2 = -2 ^ 31 := by
  refine ⟨_, vprintf_wide_zero (by decide), ?_⟩
  have hcount : ∀ mem buffer size, (vsnprintf mem buffer size
      (List.replicate (Int.bmod (2 ^ 31 - 1 - 1) (2 ^ 32)).toNat 32 ++ [48, 32])).2 = -2 ^ 31 := by
    intro mem buffer size
    rw [vsnprintf_count, List.length_append, List.length_replicate]
    decide
  refine ⟨?_, hcount⟩
  intro h
  have hstored := congrArg Prod.snd (h.stored (fun _ => 0) 0 1 (by decide) (by decide))
  rw [hcount] at hstored
  omega

end OsLabs.LibC
