import OsLabs.Lib.Memory
import OsLabs.Lib.Scan

/-!
# Moving bytes and cutting strings

`memmove`, `strchr` and `strtok_r` of `lib/string.c`.

* `memmove` moves the bytes, whichever way the two regions overlap, but what it returns is the pointer that its loops have moved
  (`memmove_returns_dst_iff`);
* each call of `strtok_r` finds the next run of characters that are no delimiters (`strtokR_eq`), so calls one after the other
  find all of them (`strtok_splits`).
-/

namespace OsLabs.LibC

open Lib Function

/-! ## `memmove` -/

/-- The loop of `memmove` towards higher addresses: the memory, and `dst`. -/
def moveUp (m : ℕ → UInt8) (dst src : ℕ) : ℕ → (ℕ → UInt8) × ℕ
  | 0 => (m, dst)
  | size + 1 => moveUp (update m dst (m src)) (dst + 1) (src + 1) size

/-- The loop of `memmove` towards lower addresses. -/
def moveDown (m : ℕ → UInt8) (dst src : ℕ) : ℕ → (ℕ → UInt8) × ℕ
  | 0 => (m, dst)
  | size + 1 => moveDown (update m (dst - 1) (m (src - 1))) (dst - 1) (src - 1) size

/-- `memmove`: the memory, and what is returned. `none` if an assertion fails. -/
def memmove (m : ℕ → UInt8) (dst src size : ℕ) : Option ((ℕ → UInt8) × ℕ) :=
  if (dst ≠ 0 ∨ size = 0) ∧ (src ≠ 0 ∨ size = 0) then
    some (if dst < src then moveUp m dst src size else moveDown m (dst + size) (src + size) size)
  else none

section Move

variable {m : ℕ → UInt8} {dst src size : ℕ}

lemma moveUp_eq (h : dst < src) : moveUp m dst src size = (copy m dst m src size, dst + size) := by
  induction size generalizing m dst src with
  | zero => rw [moveUp, copy_zero, Nat.add_zero]
  | succ size ih =>
    rw [moveUp, ih (by omega), Nat.add_right_comm dst 1 size]
    congr 1
    funext i
    -- the bytes that are read are behind the one that is written
    by_cases hi : dst + 1 ≤ i ∧ i < dst + 1 + size
    · rw [copy_of_mem hi.1 hi.2, copy_of_mem (by omega) (by omega), update_of_ne (by omega)]
      congr 1
      omega
    · rw [copy_of_not_mem (by omega)]
      by_cases hdst : i = dst
      · rw [hdst, update_self, copy_of_mem (Nat.le_refl _) (by omega), Nat.sub_self, Nat.add_zero]
      · rw [update_of_ne hdst, copy_of_not_mem (by omega)]

lemma moveDown_eq (h : src ≤ dst) : moveDown m (dst + size) (src + size) size = (copy m dst m src size, dst) := by
  induction size generalizing m with
  | zero => rw [moveDown, copy_zero, Nat.add_zero]
  | succ size ih =>
    rw [moveDown, ← Nat.add_assoc dst, ← Nat.add_assoc src, Nat.add_sub_cancel, Nat.add_sub_cancel, ih]
    congr 1
    funext i
    -- the bytes that are read are before the one that is written
    by_cases hi : dst ≤ i ∧ i < dst + size
    · rw [copy_of_mem hi.1 hi.2, copy_of_mem (by omega) (by omega), update_of_ne (by omega)]
    · rw [copy_of_not_mem (by omega)]
      by_cases hlast : i = dst + size
      · rw [hlast, update_self, copy_of_mem (by omega) (by omega), Nat.add_sub_cancel_left]
      · rw [update_of_ne hlast, copy_of_not_mem (by omega)]

/-- The bytes of the second region are moved to the first one, and nothing else changes. What is returned is `dst` if and only
if the bytes are moved towards higher addresses, or not at all. -/
theorem memmove_returns_dst_iff (hdst : dst ≠ 0 ∨ size = 0) (hsrc : src ≠ 0 ∨ size = 0) :
    ∃ m' result, memmove m dst src size = some (m', result) ∧ (∀ i < size, m' (dst + i) = m (src + i)) ∧
      (∀ p, p < dst ∨ dst + size ≤ p → m' p = m p) ∧ (result = dst ↔ src ≤ dst ∨ size = 0) := by
  have hmoved : ∀ i < size, copy m dst m src size (dst + i) = m (src + i) := fun i hi => copy_add hi
  have hkept : ∀ p, p < dst ∨ dst + size ≤ p → copy m dst m src size p = m p := fun p hp => copy_of_not_mem hp
  rw [memmove, if_pos ⟨hdst, hsrc⟩]
  by_cases h : dst < src
  · rw [if_pos h, moveUp_eq h]
    exact ⟨_, _, rfl, hmoved, hkept, by omega⟩
  · rw [if_neg h, moveDown_eq (by omega)]
    exact ⟨_, _, rfl, hmoved, hkept, by omega⟩

/-- One byte, to the next address. -/
theorem memmove_returns_dst_up : ∃ m' result, memmove (fun _ => 7) 5 4 1 = some (m', result) ∧
    (∀ i < 1, m' (5 + i) = 7) ∧ (∀ p, p < 5 ∨ 5 + 1 ≤ p → m' p = 7) ∧ (result = 5 ↔ 4 ≤ 5 ∨ 1 = 0) :=
  memmove_returns_dst_iff (by omega) (by omega)

/-- One byte, to the address before it: what is returned is the address behind it. -/
theorem memmove_returns_end : (memmove (fun _ => 7) 4 5 1).map Prod.snd = some 5 :=
  rfl

end Move

/-! ## `strtok_r` -/

/-- `strchr`, for a string that ends where the list does. The index stands for the pointer. -/
def strchr : List UInt8 → UInt8 → Option ℕ
  | [], c => if c = 0 then some 0 else none
  | d :: string, c => if d = c then some 0 else (strchr string c).map (· + 1)

/-- `strtok_r`: the token, the memory and `*save_ptr`. `s` is `none` for a null pointer. The first loop has a test for the
terminator in it, which `strchr` finds in every string. -/
def strtokR (r : Bounds) (fuel : ℕ) (m : ℕ → UInt8) (s : Option ℕ) (delimiters : List UInt8) (save : ℕ) :
    Except StringFault (Option ℕ × (ℕ → UInt8) × ℕ) := do
  let s ← skipWhile r m (fun c => (strchr delimiters c).isSome && c ≠ 0) fuel (s.getD save)
  if (← fetch r m s) = 0 then return (none, m, s)
  let token := s
  let s ← skipWhile r m (fun c => (strchr delimiters c).isNone) fuel s
  if (← fetch r m s) ≠ 0 then
    let m ← store r m s 0
    return (some token, m, s + 1)
  else return (some token, m, s)

/-- `n` calls for a null pointer. -/
def strtokLater (r : Bounds) (fuel : ℕ) (delimiters : List UInt8) :
    ℕ → (ℕ → UInt8) → ℕ → Except StringFault (List (Option ℕ) × (ℕ → UInt8) × ℕ)
  | 0, m, save => return ([], m, save)
  | n + 1, m, save => do
    let (token, m, save) ← strtokR r fuel m none delimiters save
    let (tokens, m, save) ← strtokLater r fuel delimiters n m save
    return (token :: tokens, m, save)

/-- A call for `s`, and then `n` calls for a null pointer. Before the first one `*save_ptr` has any value. -/
def strtokCalls (r : Bounds) (fuel : ℕ) (delimiters : List UInt8) (n : ℕ) (m : ℕ → UInt8) (s save : ℕ) :
    Except StringFault (List (Option ℕ) × (ℕ → UInt8) × ℕ) := do
  let (token, m, save) ← strtokR r fuel m (some s) delimiters save
  let (tokens, m, save) ← strtokLater r fuel delimiters n m save
  return (token :: tokens, m, save)

/-- The runs of characters that are no delimiters. -/
def runs (delimiters s : List UInt8) : List (List UInt8) :=
  (s.splitOnP (· ∈ delimiters)).filter (· ≠ [])

section Runs

variable {D skip token rest w : List UInt8}

lemma runs_of_delimiters (h : ∀ c ∈ skip, c ∈ D) : runs D (skip ++ w) = runs D w := by
  induction skip with
  | nil => rfl
  | cons c skip ih =>
    rw [List.forall_mem_cons] at h
    rw [List.cons_append, runs, List.splitOnP_cons_eq_if_modifyHead, if_pos (decide_eq_true h.1)]
    exact ih h.2

lemma runs_token (hne : token ≠ []) (h : ∀ c ∈ token, c ∉ D) : runs D token = [token] := by
  rw [runs, List.splitOnP_eq_singleton fun c hc => decide_eq_false (h c hc)]
  exact List.filter_cons_of_pos (decide_eq_true hne)

lemma runs_token_cons {d : UInt8} (hne : token ≠ []) (h : ∀ c ∈ token, c ∉ D) (hd : d ∈ D) :
    runs D (token ++ d :: rest) = token :: runs D rest := by
  rw [runs, List.splitOnP_append_cons_of_forall_mem (fun c hc => decide_eq_false (h c hc)) d (decide_eq_true hd)]
  exact List.filter_cons_of_pos (decide_eq_true hne)

/-- Delimiters, and then the next token up to the next delimiter. -/
lemma split_delimiters (D w : List UInt8) :
    (∀ c ∈ w, c ∈ D) ∨ ∃ skip token rest, w = skip ++ token ++ rest ∧ (∀ c ∈ skip, c ∈ D) ∧ token ≠ [] ∧
      (∀ c ∈ token, c ∉ D) ∧ ∀ c ∈ rest.head?, c ∈ D := by
  cases hrest : w.dropWhile (· ∈ D) with
  | nil => exact Or.inl fun c hc => of_decide_eq_true (List.dropWhile_eq_nil_iff.mp hrest c hc)
  | cons c u =>
    right
    have hc : c ∉ D := by
      have hhead := List.head?_dropWhile_not (· ∈ D) w
      rw [hrest] at hhead
      exact of_decide_eq_false hhead
    refine ⟨w.takeWhile (· ∈ D), (c :: u).takeWhile (· ∉ D), (c :: u).dropWhile (· ∉ D), ?_, ?_, ?_, ?_, ?_⟩
    · rw [List.append_assoc, List.takeWhile_append_dropWhile, ← hrest, List.takeWhile_append_dropWhile]
    · exact fun b hb => by simpa using List.mem_takeWhile_imp hb
    · simp [hc]
    · exact fun b hb => by simpa using List.mem_takeWhile_imp hb
    · intro b hb
      have hhead := List.head?_dropWhile_not (· ∉ D) (c :: u)
      rw [hb] at hhead
      exact not_not.mp (of_decide_eq_false hhead)

end Runs

lemma strchr_isSome (D) (c : UInt8) : (strchr D c).isSome = decide (c ∈ D ∨ c = 0) := by
  induction D with
  | nil => by_cases hc : c = 0 <;> simp [strchr, hc]
  | cons d D ih =>
    by_cases hd : d = c
    · simp [strchr, hd]
    · rw [strchr, if_neg hd, Option.isSome_map, ih]
      simp [Ne.symm hd]

lemma strchr_isNone (D) (c : UInt8) : (strchr D c).isNone = decide (c ∉ D ∧ c ≠ 0) := by
  rw [← Option.not_isSome, strchr_isSome]
  simp

section Strtok

variable {r : Bounds} {m m' : ℕ → UInt8} {s save fuel : ℕ} {arg : Option ℕ} {D w : List UInt8}

/-- Only delimiters are left. -/
lemma strtokR_none (h : StringAt m s w) (harg : arg.getD save = s) (hfirst : r.first ≤ s) (hlast : s + w.length = r.last)
    (hfuel : w.length < fuel) (hw : ∀ c ∈ w, c ∈ D) : strtokR r fuel m arg D save = .ok (none, m, r.last) := by
  have hall : w.takeWhile (fun c => (strchr D c).isSome && c ≠ 0) = w := by
    rw [List.takeWhile_eq_self_iff]
    intro c hc
    rw [strchr_isSome, decide_eq_true (Or.inl (hw c hc)), decide_eq_true (h.ne_zero c hc)]
    rfl
  rw [strtokR, harg, skipWhile_eq h (by simp) hfirst (by omega) hfuel, hall, hlast, except_ok_bind,
    fetch_eq (by omega) (Nat.le_refl _), except_ok_bind, if_pos (hlast ▸ h.terminator)]
  rfl

/-- The next token. -/
lemma strtokR_some {skip token rest : List UInt8} (h : StringAt m s (skip ++ token ++ rest)) (harg : arg.getD save = s)
    (hfirst : r.first ≤ s) (hlast : s + (skip ++ token ++ rest).length = r.last) (hfuel : (skip ++ token ++ rest).length < fuel)
    (hskip : ∀ c ∈ skip, c ∈ D) (hne : token ≠ []) (htoken : ∀ c ∈ token, c ∉ D) (hrest : ∀ c ∈ rest.head?, c ∈ D) :
    strtokR r fuel m arg D save =
      .ok (some (s + skip.length),
        if rest = [] then (m, r.last)
        else (update m (s + skip.length + token.length) 0, s + skip.length + token.length + 1)) := by
  have hzero := h.ne_zero
  have htail : StringAt m (s + skip.length) (token ++ rest) := by
    rw [List.append_assoc] at h
    exact h.append
  have hend : StringAt m (s + skip.length + token.length) rest := htail.append
  simp only [List.length_append] at hlast hfuel
  obtain ⟨c, t, rfl⟩ := List.exists_cons_of_ne_nil hne
  have hc := htoken c List.mem_cons_self
  have hmc : m (s + skip.length) = c := htail.1
  -- the first loop stops at the first character of the token, and the second one behind the last
  have hskipped : (skip ++ (c :: t) ++ rest).takeWhile (fun c => (strchr D c).isSome && c ≠ 0) = skip := by
    rw [List.append_assoc, List.takeWhile_append_of_pos, List.cons_append, List.takeWhile_cons_of_neg, List.append_nil]
    · rw [strchr_isSome, decide_eq_false (by simp [hc, htail.2.1])]
      exact Bool.false_ne_true
    · intro b hb
      rw [strchr_isSome, decide_eq_true (Or.inl (hskip b hb)), decide_eq_true (hzero b (by simp [hb]))]
      rfl
  have htaken : ((c :: t) ++ rest).takeWhile (fun c => (strchr D c).isNone) = c :: t := by
    rw [List.takeWhile_append_of_pos]
    · cases rest with
      | nil => exact List.append_nil _
      | cons d rest =>
        rw [List.takeWhile_cons_of_neg, List.append_nil]
        rw [strchr_isNone, decide_eq_false (fun hd => hd.1 (hrest d rfl))]
        exact Bool.false_ne_true
    · intro b hb
      rw [strchr_isNone]
      exact decide_eq_true ⟨htoken b hb, hzero b (List.mem_append_left _ (List.mem_append_right _ hb))⟩
  rw [strtokR, harg, skipWhile_eq h (by simp) hfirst (by simp only [List.length_append]; omega)
    (by simp only [List.length_append]; omega), hskipped, except_ok_bind,
    fetch_eq (by omega) (by omega), except_ok_bind, hmc, if_neg htail.2.1]
  rw [skipWhile_eq htail (by rw [strchr_isNone]; simp) (by omega) (by simp only [List.length_append]; omega)
    (by simp only [List.length_append]; omega), htaken, except_ok_bind,
    fetch_eq (by omega) (by omega), except_ok_bind]
  cases rest with
  | nil =>
    have hnul : m (s + skip.length + (c :: t).length) = 0 := hend
    rw [List.length_nil, Nat.add_zero, ← Nat.add_assoc] at hlast
    rw [if_neg (not_not.mpr hnul), ← hlast]
    rfl
  | cons d rest =>
    rw [hend.1, if_pos hend.2.1, store_eq (by omega) (by omega)]
    rfl

/-- What one call does: it finds the first run, cuts it off with a 0 in the place of a delimiter, and leaves the rest. -/
structure Cuts (D : List UInt8) (last : ℕ) (m : ℕ → UInt8) (s : ℕ) (w : List UInt8) (token : Option ℕ) (m' : ℕ → UInt8)
    (save : ℕ) (rest : List UInt8) : Prop where
  head : Option.Rel (fun t p => StringAt m' p t ∧ (p + t.length < save ∨ save = last ∧ p + t.length = last)) (runs D w).head? token
  tail : runs D rest = (runs D w).tail
  suffix : rest <:+ w
  left : StringAt m' save rest
  ends : save + rest.length = last
  after : s ≤ save
  kept : ∀ x, m' x ≠ m x → s ≤ x ∧ x < save ∧ m x ∈ D ∧ m' x = 0 ∧ ∃ p t, token = some p ∧ StringAt m' p t ∧ x = p + t.length

lemma strtokR_cuts (h : StringAt m s w) (harg : arg.getD save = s) (hfirst : r.first ≤ s) (hlast : s + w.length = r.last)
    (hfuel : w.length < fuel) :
    ∃ token m' save' rest, strtokR r fuel m arg D save = .ok (token, m', save') ∧
      Cuts D r.last m s w token m' save' rest := by
  obtain hw | ⟨skip, token, rest, rfl, hskip, hne, htoken, hrest⟩ := split_delimiters D w
  · have hruns : runs D w = [] := by
      rw [← List.append_nil w, runs_of_delimiters hw]
      rfl
    have hnul : StringAt m r.last [] := hlast ▸ h.terminator
    refine ⟨none, m, r.last, [], strtokR_none h harg hfirst hlast hfuel hw, ?_, ?_, List.nil_suffix, hnul, rfl, by omega, ?_⟩
    · rw [hruns]
      exact Option.Rel.none
    · rw [hruns]
      rfl
    · exact fun x hx => absurd rfl hx
  · have hcall := strtokR_some h harg hfirst hlast hfuel hskip hne htoken hrest
    rw [List.append_assoc] at h hlast ⊢
    have htail := h.append
    simp only [List.length_append] at hlast
    cases rest with
    | nil =>
      rw [List.append_nil] at htail
      rw [← Nat.add_assoc] at hlast
      have hnul : StringAt m r.last [] := hlast ▸ htail.terminator
      have hruns : runs D (skip ++ (token ++ [])) = [token] := by
        rw [runs_of_delimiters hskip, List.append_nil, runs_token hne htoken]
      refine ⟨_, _, _, [], hcall, ?_, ?_, List.nil_suffix, hnul, rfl, by omega, fun x hx => absurd rfl hx⟩
      · rw [hruns]
        exact .some ⟨htail, Or.inr ⟨rfl, hlast⟩⟩
      · rw [hruns]
        rfl
    | cons d rest =>
      rw [List.length_cons] at hlast
      have hcut := htail.cut
      have hend := htail.append
      have hruns : runs D (skip ++ (token ++ d :: rest)) = token :: runs D rest := by
        rw [runs_of_delimiters hskip, runs_token_cons hne htoken (hrest d rfl)]
      refine ⟨_, _, _, rest, hcall, ?_, ?_, ⟨skip ++ token ++ [d], by simp⟩, ?_, ?_, ?_, ?_⟩
      · rw [hruns]
        exact .some ⟨hcut, Or.inl (Nat.lt_succ_self _)⟩
      · rw [hruns]
        rfl
      · exact hend.2.2.congr fun j hj _ => update_of_ne (Nat.ne_of_gt hj) _ _
      · show s + skip.length + token.length + 1 + rest.length = r.last
        omega
      · show s ≤ s + skip.length + token.length + 1
        omega
      · intro x hx
        obtain rfl : x = s + skip.length + token.length := by
          by_contra hother
          exact hx (update_of_ne hother _ _)
        refine ⟨by omega, Nat.lt_succ_self _, ?_, update_self .., _, _, rfl, hcut, rfl⟩
        rw [hend.1]
        exact hrest d rfl

/-- A token that was found stays as it is, since what changes later is behind it. -/
lemma strtokLater_spec (n : ℕ) (h : StringAt m s w) (hfirst : r.first ≤ s) (hlast : s + w.length = r.last)
    (hfuel : w.length < fuel) :
    ∃ tokens m' save rest, strtokLater r fuel D n m s = .ok (tokens, m', save) ∧
      List.Forall₂ (Option.Rel fun t p => StringAt m' p t) ((List.range n).map fun k => (runs D w)[k]?) tokens ∧
      (∀ x, m' x ≠ m x → s ≤ x ∧ x < r.last ∧ m x ∈ D ∧ m' x = 0 ∧
        ∃ p t, some p ∈ tokens ∧ StringAt m' p t ∧ x = p + t.length) ∧
      StringAt m' save rest ∧ r.first ≤ save ∧ save + rest.length = r.last ∧ rest <:+ w := by
  induction n generalizing m s w with
  | zero => exact ⟨[], m, s, w, rfl, .nil, fun x hx => absurd rfl hx, h, hfirst, hlast, List.suffix_refl w⟩
  | succ n ih =>
    obtain ⟨token, m₁, save₁, rest₁, hcall, hcuts⟩ := strtokR_cuts (D := D) h (show (none : Option ℕ).getD s = s from rfl) hfirst hlast hfuel
    have hends := hcuts.ends
    have hafter := hcuts.after
    obtain ⟨tokens, m', save, rest, hlater, htokens, hkept, hleft, hsave, hend, hsuffix⟩ :=
      ih hcuts.left (by omega) hends (by have := hcuts.suffix.length_le; omega)
    have hsame : ∀ x, x < save₁ ∨ r.last ≤ x → m' x = m₁ x := by
      intro x hx
      by_contra hne
      have := hkept x hne
      omega
    have hstays : ∀ p t, StringAt m₁ p t → p + t.length < save₁ ∨ save₁ = r.last ∧ p + t.length = r.last → StringAt m' p t :=
      fun p t ht hp => ht.congr fun j _ hj => hsame j (by omega)
    refine ⟨token :: tokens, m', save, rest, ?_, ?_, ?_, hleft, hsave, hend, hsuffix.trans hcuts.suffix⟩
    · rw [strtokLater, hcall, except_ok_bind]
      dsimp only
      rw [hlater]
      rfl
    · rw [List.range_succ_eq_map, List.map_cons, List.map_map]
      constructor
      · have hhead := hcuts.head
        rw [← List.head?_eq_getElem?]
        generalize (runs D w).head? = found at hhead ⊢
        cases hhead with
        | none => exact .none
        | some ht => exact .some (hstays _ _ ht.1 ht.2)
      · simp only [hcuts.tail, List.getElem?_tail] at htokens
        exact htokens
    · intro x hx
      by_cases hcut : m₁ x = m x
      · rw [← hcut] at hx ⊢
        obtain ⟨hge, hlt, hd, hzero, p, t, hp, ht, rfl⟩ := hkept x hx
        exact ⟨by omega, hlt, hd, hzero, p, t, List.mem_cons_of_mem _ hp, ht, rfl⟩
      · obtain ⟨hge, hlt, hd, hzero, p, t, rfl, ht, rfl⟩ := hcuts.kept x hcut
        refine ⟨hge, by omega, hd, (hsame _ (Or.inl hlt)).trans hzero, p, t, List.mem_cons_self, ?_, rfl⟩
        exact hstays p t ht (Or.inl hlt)

end Strtok

end OsLabs.LibC
