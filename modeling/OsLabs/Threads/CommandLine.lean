import Mathlib.Algebra.Group.Nat.Defs
import OsLabs.Lib.CString
import OsLabs.Lib.Memory
import OsLabs.Lib.Yields

/-!
# The kernel command line

The loader block has the number of arguments, and 128 bytes for the arguments with their terminators.
`make_kernel_command_line` of `utils/Pintos.pm` writes it, and `read_command_line` of `threads/init.c` reads it into an array
of 65 pointers. What `read_command_line` prints is left out.

`command_line_survives`: the arguments come back if, and only if, there are at most 64 of them.
-/

namespace OsLabs.Threads

open Lib Function

/-! ## The model -/

/-- The arguments, each with a terminator. -/
def packArgs (args : List CStr) : List UInt8 :=
  args.flatMap fun w => w.chars ++ [0]

/-- `make_kernel_command_line`; `none` if it dies. -/
def makeKernelCommandLine (args : List CStr) : Option (List UInt8) :=
  if (packArgs args).length > 128 then none
  else some ((List.range 4).map (leBytes args.length) ++ packArgs args ++ List.replicate (128 - (packArgs args).length) 0)

/-- `ptov (LOADER_ARG_CNT)`. -/
def loaderArgCnt : ℕ := 0xc0007d3a

/-- `ptov (LOADER_ARGS)`. -/
def loaderArgs : ℕ := 0xc0007d3e

/-- What can go wrong in `read_command_line`. -/
inductive CommandLineFault where
  /-- The panic. -/
  | overflow
  /-- A store outside of `argv`. -/
  | outside
deriving DecidableEq

/-- A store to `argv`, which has `LOADER_ARGS_LEN / 2 + 1` entries. -/
def storeArg (argv : ℕ → ℕ) (i p : ℕ) : Except CommandLineFault (ℕ → ℕ) :=
  if i < 128 / 2 + 1 then .ok (update argv i p) else .error .outside

/-- `strnlen`. -/
def strnlen (m : ℕ → UInt8) (s : ℕ) : ℕ → ℕ
  | 0 => 0
  | maxlen + 1 => if m s ≠ 0 then strnlen m (s + 1) maxlen + 1 else 0

/-- The first loop of `read_command_line`, with the number of arguments that are left. -/
def readArgs (m : ℕ → UInt8) : ℕ → ℕ → ℕ → (ℕ → ℕ) → Except CommandLineFault (ℕ → ℕ)
  | 0, _, _, argv => .ok argv
  | left + 1, i, p, argv =>
    if loaderArgs + 128 ≤ p then .error .overflow
    else do
      let argv ← storeArg argv i p
      readArgs m left (i + 1) (p + strnlen m p (loaderArgs + 128 - p) + 1) argv

/-- `read_command_line`: the array `argv`, 0 for NULL. -/
def readCommandLine (m : ℕ → UInt8) : Except CommandLineFault (ℕ → ℕ) := do
  let argc := Int.bmod (le32 m loaderArgCnt) (2 ^ 32)
  let argv ← readArgs m argc.toNat 0 loaderArgs fun _ => 0
  if argc < 0 then .error .outside else storeArg argv argc.toNat 0

/-! ## What is in memory -/

/-- The loader block is in memory. -/
def Loaded (m : ℕ → UInt8) (block : List UInt8) : Prop :=
  ∀ i < block.length, m (loaderArgCnt + i) = block.getD i 0

/-- The array has the arguments, and then NULL. -/
structure HoldsArgs (m : ℕ → UInt8) (argv : ℕ → ℕ) (args : List CStr) : Prop where
  arg : ∀ i w, args[i]? = some w → argv i ≠ 0 ∧ StringAt m (argv i) w.chars
  last : argv args.length = 0

/-- The arguments stand one after the other from `p` on. -/
def Packed (m : ℕ → UInt8) : ℕ → List CStr → Prop
  | _, [] => True
  | p, w :: args => StringAt m p w.chars ∧ Packed m (p + w.chars.length + 1) args

section Memory

variable {m : ℕ → UInt8} {p i : ℕ} {args : List CStr} {w : List UInt8} {argv : ℕ → ℕ}

@[simp] lemma packArgs_cons (w : CStr) (args : List CStr) : packArgs (w :: args) = w.chars ++ 0 :: packArgs args := by
  simp [packArgs]

lemma stringAt_of_getD (hw : ∀ c ∈ w, c ≠ 0) (h : ∀ i ≤ w.length, m (p + i) = (w ++ [0]).getD i 0) : StringAt m p w := by
  induction w generalizing p with
  | nil => exact h 0 (Nat.le_refl 0)
  | cons c w ih =>
    refine ⟨h 0 (Nat.zero_le _), hw c (List.mem_cons_self ..), ih (fun b hb => hw b (List.mem_cons_of_mem c hb)) ?_⟩
    intro i hi
    have hnext := h (i + 1) (Nat.succ_le_succ hi)
    rw [show p + 1 + i = p + (i + 1) by omega]
    exact hnext

lemma packed_of_getD (h : ∀ i < (packArgs args).length, m (p + i) = (packArgs args).getD i 0) : Packed m p args := by
  induction args generalizing p with
  | nil => exact True.intro
  | cons w args ih =>
    rw [packArgs_cons] at h
    have hlen : (w.chars ++ 0 :: packArgs args).length = w.chars.length + 1 + (packArgs args).length := by
      rw [List.length_append, List.length_cons]
      omega
    refine ⟨stringAt_of_getD w.nonzero fun i hi => ?_, ih fun i hi => ?_⟩
    · rw [h i (by omega)]
      simp only [List.getD_eq_getElem?_getD]
      rcases Nat.lt_or_eq_of_le hi with hlt | heq
      · rw [List.getElem?_append_left hlt, List.getElem?_append_left hlt]
      · rw [heq, List.getElem?_append_right (Nat.le_refl _), List.getElem?_append_right (Nat.le_refl _), Nat.sub_self]
        rfl
    · rw [show p + w.chars.length + 1 + i = p + (w.chars.length + 1 + i) by omega, h _ (by omega)]
      simp only [List.getD_eq_getElem?_getD]
      rw [List.getElem?_append_right (by omega), show w.chars.length + 1 + i - w.chars.length = i + 1 by omega]
      rfl

/-- `strnlen` of a string that ends in time. -/
lemma strnlen_eq (h : StringAt m p w) {maxlen : ℕ} (hlen : w.length < maxlen) : strnlen m p maxlen = w.length := by
  induction w generalizing p maxlen with
  | nil =>
    obtain ⟨maxlen, rfl⟩ : ∃ n, maxlen = n + 1 := ⟨maxlen - 1, by omega⟩
    have hzero : m p = 0 := h
    rw [strnlen, if_neg (not_not.mpr hzero)]
    rfl
  | cons c w ih =>
    obtain ⟨maxlen, rfl⟩ : ∃ n, maxlen = n + 1 := ⟨maxlen - 1, by omega⟩
    obtain ⟨hchar, hne, hrest⟩ := h
    rw [List.length_cons] at hlen
    rw [strnlen, if_pos (by rw [hchar]; exact hne), ih hrest (by omega), List.length_cons]

/-- The loop stores the arguments, unless there are too many. -/
lemma readArgs_spec (h : Packed m p args) (hlo : loaderArgs ≤ p) (hfit : p + (packArgs args).length ≤ loaderArgs + 128)
    (argv : ℕ → ℕ) :
    (args ≠ [] ∧ 65 < i + args.length ∧ readArgs m args.length i p argv = .error .outside) ∨
    ∃ argv', readArgs m args.length i p argv = .ok argv' ∧ (args = [] ∨ i + args.length ≤ 65) ∧
      (∀ j < i, argv' j = argv j) ∧
      ∀ j w, args[j]? = some w → argv' (i + j) ≠ 0 ∧ StringAt m (argv' (i + j)) w.chars := by
  induction args generalizing p i argv with
  | nil => exact Or.inr ⟨argv, rfl, Or.inl rfl, fun _ _ => rfl, fun j w hj => by cases hj⟩
  | cons w args ih =>
    obtain ⟨hstring, hrest⟩ := h
    rw [packArgs_cons, List.length_append, List.length_cons] at hfit
    have hlen : strnlen m p (loaderArgs + 128 - p) = w.chars.length := strnlen_eq hstring (by omega)
    rw [List.length_cons, readArgs, if_neg (by omega), hlen]
    unfold storeArg
    by_cases hi : i < 65
    · rw [if_pos hi]
      rcases ih hrest (by omega) (by omega) (update argv i p) with
        ⟨-, hmany, herror⟩ | ⟨argv', hok, hfew, hold, hnew⟩
      · exact Or.inl ⟨List.cons_ne_nil _ _, by omega, herror⟩
      · refine Or.inr ⟨argv', hok, Or.inr ?_, fun j hj => ?_, fun j w' hj => ?_⟩
        · rcases hfew with hnil | hfew
          · rw [hnil, List.length_nil]
            omega
          · omega
        · rw [hold j (by omega), update_of_ne (by omega)]
        · cases j with
          | zero =>
            obtain rfl : w = w' := Option.some.inj hj
            rw [Nat.add_zero, hold i (by omega), update_self]
            unfold loaderArgs at hlo
            exact ⟨by omega, hstring⟩
          | succ j =>
            rw [show i + (j + 1) = i + 1 + j by omega]
            exact hnew j w' hj
    · rw [if_neg hi]
      exact Or.inl ⟨List.cons_ne_nil _ _, by omega, rfl⟩

lemma length_le_packArgs (args : List CStr) : args.length ≤ (packArgs args).length := by
  induction args with
  | nil => exact Nat.le_refl 0
  | cons w args ih =>
    rw [packArgs_cons, List.length_append, List.length_cons, List.length_cons]
    omega

/-- What the kernel finds in a block that was accepted. -/
lemma loaded_spec {block : List UInt8} (hmake : makeKernelCommandLine args = some block) (h : Loaded m block) :
    Int.bmod (le32 m loaderArgCnt) (2 ^ 32) = args.length ∧ Packed m loaderArgs args ∧ (packArgs args).length ≤ 128 := by
  unfold makeKernelCommandLine at hmake
  split at hmake
  · cases hmake
  · obtain rfl := Option.some.inj hmake
    have hcnt := length_le_packArgs args
    have hfour : ((List.range 4).map (leBytes args.length)).length = 4 := by
      rw [List.length_map, List.length_range]
    have hlen : ((List.range 4).map (leBytes args.length) ++ packArgs args ++
        List.replicate (128 - (packArgs args).length) 0).length = 132 := by
      rw [List.length_append, List.length_append, List.length_replicate]
      omega
    unfold Loaded at h
    rw [hlen] at h
    simp only [List.append_assoc] at h
    refine ⟨?_, packed_of_getD fun i hi => ?_, by omega⟩
    · have hword : le32 m loaderArgCnt = le32 (leBytes args.length) 0 := by
        apply le32_congr
        intro k hk
        rw [h k (by omega), List.getD_eq_getElem?_getD, List.getElem?_append_left (by omega), List.getElem?_map,
          List.getElem?_range hk, Nat.zero_add]
        rfl
      rw [hword, le32_leBytes (by omega)]
      exact Int.bmod_eq_of_le (by omega) (by omega)
    · have hbyte := h (4 + i) (by omega)
      rw [List.getD_eq_getElem?_getD, List.getElem?_append_right (by omega), hfour, Nat.add_sub_cancel_left,
        List.getElem?_append_left hi, ← List.getD_eq_getElem?_getD] at hbyte
      have haddr : loaderArgs + i = loaderArgCnt + (4 + i) := by
        unfold loaderArgs loaderArgCnt
        omega
      rw [haddr]
      exact hbyte

/-- The arguments come back if, and only if, there is room for them in `argv`. -/
theorem command_line_survives {block : List UInt8} (hmake : makeKernelCommandLine args = some block) (h : Loaded m block) :
    (∃ argv, readCommandLine m = .ok argv ∧ HoldsArgs m argv args) ↔ args.length ≤ 64 := by
  obtain ⟨hargc, hpacked, hle⟩ := loaded_spec hmake h
  unfold readCommandLine
  dsimp only
  rw [hargc, Int.toNat_natCast]
  rcases readArgs_spec hpacked (Nat.le_refl _) (by omega) (fun _ => 0) (i := 0) with
    ⟨-, hmany, herror⟩ | ⟨argv, hok, hfew, -, hargs⟩
  · rw [herror]
    constructor
    · rintro ⟨argv, hrun, -⟩
      cases hrun
    · intro hlen
      omega
  · rw [hok, except_ok_bind, if_neg (by omega)]
    unfold storeArg
    by_cases hlen : args.length ≤ 64
    · rw [if_pos (by omega)]
      refine ⟨fun _ => hlen, fun _ => ⟨_, rfl, fun i w hi => ?_, update_self ..⟩⟩
      have hlt : i < args.length := (List.getElem?_eq_some_iff.mp hi).1
      have hi := hargs i w hi
      rw [Nat.zero_add] at hi
      rw [update_of_ne (by omega)]
      exact hi
    · rw [if_neg (by omega)]
      constructor
      · rintro ⟨argv, hrun, -⟩
        cases hrun
      · intro hlen'
        omega

end Memory

/-- Memory with a loader block. -/
def memoryOf (block : List UInt8) (a : ℕ) : UInt8 :=
  block.getD (a - loaderArgCnt) 0

lemma memoryOf_loaded (block : List UInt8) : Loaded (memoryOf block) block := by
  intro i _
  unfold memoryOf
  rw [Nat.add_sub_cancel_left]

/-- The arguments `-q` and the empty one. -/
theorem command_line_survives_two :
    ∃ argv, readCommandLine (memoryOf ((makeKernelCommandLine [⟨[45, 113], by decide⟩, ⟨[], by decide⟩]).getD [])) =
        .ok argv ∧ HoldsArgs (memoryOf ((makeKernelCommandLine [⟨[45, 113], by decide⟩, ⟨[], by decide⟩]).getD []))
        argv [⟨[45, 113], by decide⟩, ⟨[], by decide⟩] :=
  (command_line_survives rfl (memoryOf_loaded _)).mpr (by decide)

/-- 65 empty arguments take 65 bytes, and NULL is stored behind the array. -/
theorem command_line_overruns :
    ∃ block, makeKernelCommandLine (List.replicate 65 ⟨[], by decide⟩) = some block ∧
      readCommandLine (memoryOf block) = .error .outside := by
  refine ⟨_, rfl, ?_⟩
  have hrun : (match readCommandLine (memoryOf ((makeKernelCommandLine (List.replicate 65 ⟨[], by decide⟩)).getD [])) with
      | .error e => decide (e = .outside)
      | .ok _ => false) = true := by
    decide +kernel
  split at hrun
  · rename_i e herror
    rw [← of_decide_eq_true hrun]
    exact herror
  · cases hrun

end OsLabs.Threads
