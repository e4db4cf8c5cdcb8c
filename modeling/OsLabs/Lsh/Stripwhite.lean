import Mathlib.Algebra.Group.Nat.Defs
import Mathlib.Data.List.DropRight
import OsLabs.Lib.Memory
import OsLabs.Lib.Scan
import OsLabs.Lsh.Parse

/-!
# Stripping a line

`stripwhite` of `lsh.c`. The index of the last character is computed as `strlen(string) - 1`, a `size_t` of 64 bits: for a line
with nothing but white space it wraps around, and the scan from the end starts with the byte before the line
(`stripwhite_strips_iff`).
-/

namespace OsLabs.Lsh

open Lib Lsh.Parser Function

/-! ## The code -/

/-- `memmove` of the C library. -/
def memmove (r : Bounds) (m : ℕ → UInt8) (dst src n : ℕ) : Except StringFault (ℕ → UInt8) :=
  if r.first ≤ dst ∧ dst + n ≤ r.last + 1 ∧ r.first ≤ src ∧ src + n ≤ r.last + 1 then .ok (copy m dst m src n)
  else .error .outside

/-- The first part of `stripwhite`: the line is moved to the front. -/
def stripLeading (r : Bounds) (m : ℕ → UInt8) (fuel string : ℕ) : Except StringFault (ℕ → UInt8) := do
  let p ← skipWhile r m isspace fuel string
  if p = string then return m
  let n ← strlen r m fuel p
  memmove r m string p (n + 1)

/-- The loop `while (i > 0 && isspace(string[i])) i--;`. -/
def skipBack (r : Bounds) (m : ℕ → UInt8) (string : ℕ) : ℕ → ℕ → Except StringFault ℕ
  | 0, _ => .error .fuel
  | fuel + 1, i =>
    if 0 < i then do
      let c ← fetch r m ((string + i) % 2 ^ 64)
      if isspace c then skipBack r m string fuel (i - 1) else return i
    else return i

/-- `stripwhite`. -/
def stripwhite (r : Bounds) (m : ℕ → UInt8) (string fuel : ℕ) : Except StringFault (ℕ → UInt8) := do
  let m ← stripLeading r m fuel string
  let n ← strlen r m fuel string
  let i ← skipBack r m string fuel ((n + 2 ^ 64 - 1) % 2 ^ 64)
  store r m ((string + (i + 1) % 2 ^ 64) % 2 ^ 64) 0

/-- The string `w` at address `string` is stripped: only its bytes and its terminator are used, and then the string there is `w`
without white space at its ends. -/
def Strips (m : ℕ → UInt8) (string : ℕ) (w : List UInt8) : Prop :=
  ∃ m' n, (∀ fuel, n ≤ fuel → stripwhite ⟨string, string + w.length⟩ m string fuel = .ok m') ∧
    StringAt m' string ((w.dropWhile isspace).rdropWhile isspace) ∧
    ∀ x, x < string ∨ string + w.length < x → m' x = m x

/-! ## The steps -/

variable {m : ℕ → UInt8} {string fuel : ℕ} {w : List UInt8}

lemma stripLeading_spec (h : StringAt m string w) :
    ∃ m', (∀ fuel, w.length < fuel → stripLeading ⟨string, string + w.length⟩ m fuel string = .ok m') ∧
      StringAt m' string (w.dropWhile isspace) ∧ ∀ x, x < string ∨ string + w.length < x → m' x = m x := by
  have happend := List.takeWhile_append_dropWhile (p := isspace) (l := w)
  have hlen := congrArg List.length happend
  rw [List.length_append] at hlen
  by_cases hzero : (w.takeWhile isspace).length = 0
  · rw [List.eq_nil_of_length_eq_zero hzero, List.nil_append] at happend
    refine ⟨m, fun fuel hfuel => ?_, by rwa [happend], fun _ _ => rfl⟩
    rw [stripLeading, skipWhile_eq h rfl (Nat.le_refl string) (Nat.le_refl _) hfuel, except_ok_bind, if_pos (by omega)]
    rfl
  · have hrest : StringAt m (string + (w.takeWhile isspace).length) (w.dropWhile isspace) := by
      apply StringAt.append
      rwa [happend]
    refine ⟨_, fun fuel hfuel => ?_, hrest.move fun j hj => copy_add (Nat.lt_succ_of_le hj),
      fun x hx => copy_of_not_mem (by omega)⟩
    rw [stripLeading, skipWhile_eq h rfl (Nat.le_refl string) (Nat.le_refl _) hfuel, except_ok_bind, if_neg (by omega),
      strlen_eq hrest (Nat.le_add_right ..) (by dsimp only; omega) (by omega), except_ok_bind, memmove, if_pos]
    dsimp only
    omega

/-- The scan from the end stops at the last character that is no white space. -/
lemma skipBack_spec {r : Bounds} (hchars : ∀ j c, w[j]? = some c → m (string + j) = c)
    (hhead : ∀ c ∈ w.head?, isspace c = false) (hfirst : r.first ≤ string) (hlast : string + w.length ≤ r.last + 1)
    (hfit : string + w.length ≤ 2 ^ 64) (hfuel : w.length < fuel) :
    skipBack r m string fuel (w.length - 1) = .ok ((w.rdropWhile isspace).length - 1) := by
  induction w using List.reverseRecOn generalizing fuel with
  | nil =>
    obtain ⟨fuel, rfl⟩ : ∃ k, fuel = k + 1 := ⟨fuel - 1, by omega⟩
    rfl
  | append_singleton u c ih =>
    obtain ⟨fuel, rfl⟩ : ∃ k, fuel = k + 1 := ⟨fuel - 1, by omega⟩
    rw [List.length_append, List.length_singleton] at hlast hfit hfuel
    rw [List.length_append, List.length_singleton, Nat.add_sub_cancel, skipBack]
    rcases List.eq_nil_or_concat u with rfl | hu
    · rw [List.length_nil, if_neg (Nat.lt_irrefl 0), List.nil_append, List.rdropWhile_singleton, if_neg (by simpa using hhead)]
      rfl
    · have hpos : 0 < u.length := by
        obtain ⟨v, b, rfl⟩ := hu
        simp
      have hc : m (string + u.length) = c := hchars _ c (by simp)
      rw [if_pos hpos, Nat.mod_eq_of_lt (by omega), fetch_eq (by omega) (by omega), except_ok_bind, hc]
      by_cases hspace : isspace c = true
      · rw [if_pos hspace, List.rdropWhile_concat_pos _ _ _ hspace]
        apply ih
        · intro j b hj
          refine hchars j b ?_
          rw [List.getElem?_append_left (List.getElem?_eq_some_iff.mp hj).1, hj]
        · intro b hb
          refine hhead b ?_
          rw [List.head?_append_of_ne_nil _ (List.ne_nil_of_length_pos hpos)]
          exact hb
        · omega
        · omega
        · omega
      · rw [if_neg hspace, List.rdropWhile_concat_neg _ _ _ hspace, List.length_append]
        rfl

/-- The index of the last character of an empty string: the byte before the string is read. -/
lemma skipBack_outside {last : ℕ} (hfirst : string ≤ last) (hlast : last + 1 < 2 ^ 64) :
    skipBack ⟨string, last⟩ m string (fuel + 1) (2 ^ 64 - 1) = .error .outside := by
  rw [skipBack, if_pos (by decide), fetch, if_neg]
  · rfl
  · dsimp only
    omega

lemma Strips.exists_not_space (hstrips : Strips m string w) (h : StringAt m string w)
    (hfit : string + w.length + 1 < 2 ^ 64) : ∃ c ∈ w, isspace c = false := by
  obtain ⟨m', n, hrun, -⟩ := hstrips
  by_contra hall
  have hnil : w.dropWhile isspace = [] := by
    rw [List.dropWhile_eq_nil_iff]
    intro c hc
    by_contra hne
    exact hall ⟨c, hc, Bool.eq_false_iff.mpr hne⟩
  obtain ⟨m₁, hlead, hstring, -⟩ := stripLeading_spec h
  rw [hnil] at hstring
  have herror := hrun (n + w.length + 1) (by omega)
  rw [stripwhite, hlead _ (by omega), except_ok_bind, strlen_eq hstring (Nat.le_refl _) (Nat.le_add_right ..) (Nat.succ_pos _),
    except_ok_bind, show (([] : List UInt8).length + 2 ^ 64 - 1) % 2 ^ 64 = 2 ^ 64 - 1 from rfl,
    skipBack_outside (Nat.le_add_right ..) hfit] at herror
  cases herror

lemma strips_of_not_space (h : StringAt m string w) (hfit : string + w.length + 1 < 2 ^ 64) {c : UInt8} (hc : c ∈ w)
    (hspace : isspace c = false) : Strips m string w := by
  obtain ⟨b, v, hcons⟩ : ∃ b v, w.dropWhile isspace = b :: v := by
    apply List.exists_cons_of_ne_nil
    rw [Ne, List.dropWhile_eq_nil_iff]
    intro hall
    rw [hall c hc] at hspace
    cases hspace
  have hb : isspace b = false := by
    have hnot := List.head?_dropWhile_not isspace w
    simpa [hcons] using hnot
  have hle := (List.dropWhile_suffix isspace (l := w)).length_le
  -- the first character stays, so the result is not empty
  obtain ⟨rest, happend⟩ := List.rdropWhile_prefix isspace (w.dropWhile isspace)
  have hlen := congrArg List.length happend
  rw [List.length_append] at hlen
  have hpos : 0 < ((w.dropWhile isspace).rdropWhile isspace).length := by
    rw [List.length_pos_iff, Ne, List.rdropWhile_eq_nil_iff, hcons]
    intro hall
    rw [hall b List.mem_cons_self] at hb
    cases hb
  obtain ⟨m₁, hlead, hstring, hframe⟩ := stripLeading_spec h
  have hcut : StringAt m₁ string ((w.dropWhile isspace).rdropWhile isspace ++ rest) := by rwa [happend]
  refine ⟨_, w.length + 1, fun fuel hfuel => ?_, hcut.cut, fun x hx => ?_⟩
  · have hindex : ((w.dropWhile isspace).length + 2 ^ 64 - 1) % 2 ^ 64 = (w.dropWhile isspace).length - 1 := by
      omega
    rw [stripwhite, hlead fuel hfuel, except_ok_bind, strlen_eq hstring (Nat.le_refl _) (by dsimp only; omega) (by omega),
      except_ok_bind, hindex, skipBack_spec (fun j c => hstring.getElem?) (by simpa [hcons] using hb) (Nat.le_refl _)
      (by dsimp only; omega) (by omega) (by omega), except_ok_bind, Nat.sub_add_cancel hpos, Nat.mod_eq_of_lt (by omega),
      Nat.mod_eq_of_lt (by omega), store_eq (Nat.le_add_right ..) (by dsimp only; omega)]
  · rw [update_of_ne (by omega), hframe x hx]

/-- A line is stripped if and only if it has a character that is no white space. Otherwise the byte before it is read. -/
theorem stripwhite_strips_iff (h : StringAt m string w) (hfit : string + w.length + 1 < 2 ^ 64) :
    Strips m string w ↔ ∃ c ∈ w, isspace c = false := by
  constructor
  · exact fun hstrips => hstrips.exists_not_space h hfit
  · rintro ⟨c, hc, hspace⟩
    exact strips_of_not_space h hfit hc hspace

/-- The line ` a ` at address 8. -/
theorem stripwhite_strips_blanks : Strips (putString (fun _ => 0) 8 [32, 97, 32]) 8 [32, 97, 32] :=
  (stripwhite_strips_iff (stringAt_putString (by decide)) (by decide)).mpr ⟨97, by decide, by decide⟩

/-- An empty line at address 8, with a blank before it. The blank is overwritten. -/
theorem stripwhite_before_line :
    ¬Strips (fun x => if x = 7 then 32 else 0) 8 [] ∧
      ((stripwhite ⟨0, 8⟩ (fun x => if x = 7 then 32 else 0) 8 3).toOption.map fun m => m 7) = some 0 := by
  refine ⟨fun hstrips => ?_, by decide⟩
  obtain ⟨c, hc, -⟩ := hstrips.exists_not_space (show (0 : UInt8) = 0 from rfl) (by decide)
  cases hc

end OsLabs.Lsh
