import OsLabs.Lsh.Tokens
import OsLabs.Lib.Yields

/-!
# The parser and its memory

What the functions of the parser do to the static arrays, in terms of tokens. `nexttoken` stores the text of the next
token at `cp` and nothing else (`nexttoken_cons`), so what was stored before stays readable: `Holds` says that the
pointers of a command lead to the strings of a `Parsed`, and it is kept by everything that only grows the used
parts of the arrays (`Grows`).
-/

namespace OsLabs.Lsh.Parser

open Lib Function

/-! ## Reading tokens -/

/-- Store a string with its terminator at `cp`. -/
def Static.store (st : Static) (w : List UInt8) : Static :=
  { st with cbuf := putString st.cbuf st.cp w, cp := st.cp + w.length + 1 }

/-- The state after `*cp++ = c`. -/
def Static.push (st : Static) (c : UInt8) : Static :=
  { st with cbuf := update st.cbuf st.cp c, cp := st.cp + 1 }

lemma putChar_of_lt {st : Static} (h : st.cp < 256) (c : UInt8) : st.putChar c = .ok (st.push c) :=
  if_pos h

lemma putChar_of_not_lt {st : Static} (h : ¬st.cp < 256) (c : UInt8) : st.putChar c = .error .cbuf :=
  if_neg h

@[simp] lemma push_cp (st : Static) (c : UInt8) : (st.push c).cp = st.cp + 1 := rfl

lemma store_push (st : Static) (c : UInt8) (w : List UInt8) : (st.push c).store w = st.store (c :: w) := by
  simp only [Static.store, Static.push, putString, List.length_cons]
  rw [show st.cp + 1 + w.length + 1 = st.cp + (w.length + 1) + 1 by omega]

/-- The character that ends a word is overwritten by the terminator. -/
lemma push_back (st : Static) (c : UInt8) : (st.push c).back.push 0 = st.store [] := by
  simp [Static.push, Static.back, Static.store, putString]

/-- The word is copied up to the character that ends it. -/
lemma copyWord_eq (s : List UInt8) (st : Static) :
    copyWord s st = if st.cp + (s.takeWhile isWordChar).length < 256 then
      .ok (s.dropWhile isWordChar, st.store (s.takeWhile isWordChar)) else .error .cbuf := by
  induction s generalizing st with
  | nil =>
    rw [copyWord, List.takeWhile_nil, List.length_nil, Nat.add_zero]
    by_cases h : st.cp < 256
    · have hback : (st.push 0).back.cp < 256 := h
      rw [if_pos h, putChar_of_lt h, except_ok_bind, putChar_of_lt hback, push_back]
      rfl
    · rw [if_neg h, putChar_of_not_lt h, except_error_bind]
  | cons c s ih =>
    rw [copyWord]
    by_cases hc : isWordChar c = true
    · have hend : ¬(isspace c || isspec c) = true := by
        simpa [isWordChar] using hc
      rw [List.takeWhile_cons_of_pos hc, List.dropWhile_cons_of_pos hc, List.length_cons]
      by_cases h : st.cp < 256
      · rw [putChar_of_lt h, except_ok_bind, if_neg hend, ih, push_cp, store_push]
        simp only [Nat.add_assoc, Nat.add_comm 1]
      · rw [putChar_of_not_lt h, except_error_bind, if_neg (by omega)]
    · have hend : (isspace c || isspec c) = true := by
        by_contra hne
        apply hc
        simpa [isWordChar] using hne
      rw [List.takeWhile_cons_of_neg hc, List.dropWhile_cons_of_neg hc, List.length_nil, Nat.add_zero]
      by_cases h : st.cp < 256
      · have hback : (st.push c).back.cp < 256 := h
        rw [if_pos h, putChar_of_lt h, except_ok_bind, if_pos hend, putChar_of_lt hback, push_back]
        rfl
      · rw [if_neg h, putChar_of_not_lt h, except_error_bind]

/-- At the end of the line nothing is stored. -/
lemma nexttoken_nil {s : List UInt8} (h : tokens s = []) (st : Static) :
    nexttoken s st = .ok (0, st.cp, st) := by
  rw [← tokens_dropWhile] at h
  unfold nexttoken
  cases hs : s.dropWhile isspace with
  | nil => rfl
  | cons c rest =>
    rw [hs] at h
    have hspace : isspace c = false := by
      have hhead := List.head?_dropWhile_not isspace s
      simpa [hs] using hhead
    cases hspec : special? c with
    | some x =>
      rw [tokens_special hspace hspec] at h
      cases h
    | none =>
      rw [tokens_word (isWordChar_iff.mpr ⟨hspace, hspec⟩)] at h
      cases h

/-- The next token is stored at `cp`, if there is room. -/
lemma nexttoken_cons {s : List UInt8} {tok : Token} {ts : List Token} (h : tokens s = tok :: ts) :
    ∃ n, 0 < n ∧ n ≤ s.length ∧ tokens (s.drop n) = ts ∧
      ∀ st : Static, nexttoken s st =
        if st.cp + tok.size ≤ 256 then .ok (n, st.cp, st.store tok.text) else .error .cbuf := by
  rw [← tokens_dropWhile] at h
  have hsuffix : s.dropWhile isspace <:+ s := List.dropWhile_suffix _
  cases hs : s.dropWhile isspace with
  | nil =>
    rw [hs] at h
    cases h
  | cons c rest =>
    rw [hs] at h hsuffix
    have hspace : isspace c = false := by
      have hhead := List.head?_dropWhile_not isspace s
      simpa [hs] using hhead
    -- a suffix of the line is what is left after its other characters
    have hdrop : ∀ r : List UInt8, r <:+ s → s.drop (s.length - r.length) = r := by
      intro r hr
      exact (List.suffix_iff_eq_drop.mp hr).symm
    have hlen : rest.length < s.length := by
      have := hsuffix.length_le
      rw [List.length_cons] at this
      omega
    cases hspec : special? c with
    | some x =>
      rw [tokens_special hspace hspec] at h
      obtain ⟨rfl, rfl⟩ := List.cons.inj h
      have hrest : rest <:+ s := (List.suffix_cons c rest).trans hsuffix
      refine ⟨s.length - rest.length, by omega, by omega, by rw [hdrop rest hrest], fun st => ?_⟩
      obtain rfl := char_of_special? hspec
      have hisspec : isspec x.char = true := by simp [isspec]
      have hsize : (Token.special x).size = 2 := rfl
      rw [nexttoken, hs]
      dsimp only
      by_cases hfirst : st.cp < 256
      · rw [putChar_of_lt hfirst, except_ok_bind, if_pos hisspec]
        by_cases hroom : (st.push x.char).cp < 256
        · rw [putChar_of_lt hroom, if_pos (by rw [push_cp] at hroom; omega)]
          rfl
        · rw [putChar_of_not_lt hroom, except_error_bind, if_neg (by rw [push_cp] at hroom; omega)]
      · rw [putChar_of_not_lt hfirst, except_error_bind, if_neg (by omega)]
    | none =>
      have hc := isWordChar_iff.mpr ⟨hspace, hspec⟩
      rw [tokens_word hc] at h
      obtain ⟨rfl, rfl⟩ := List.cons.inj h
      have hrest : rest.dropWhile isWordChar <:+ s :=
        (List.dropWhile_suffix _).trans ((List.suffix_cons c rest).trans hsuffix)
      have hle := List.length_dropWhile_le (p := isWordChar) rest
      refine ⟨s.length - (rest.dropWhile isWordChar).length, by omega, by omega, by rw [hdrop _ hrest], fun st => ?_⟩
      have hisspec : ¬isspec c = true := by simp [isspec, hspec]
      have hsize : (Token.word (c :: rest.takeWhile isWordChar)).size =
          (rest.takeWhile isWordChar).length + 2 := rfl
      rw [nexttoken, hs]
      dsimp only
      by_cases hfirst : st.cp < 256
      · rw [putChar_of_lt hfirst, except_ok_bind, if_neg hisspec, copyWord_eq, push_cp, store_push]
        by_cases hroom : st.cp + 1 + (rest.takeWhile isWordChar).length < 256
        · rw [if_pos hroom, if_pos (by omega)]
          rfl
        · rw [if_neg hroom, if_neg (by omega), except_error_bind]
      · rw [putChar_of_not_lt hfirst, except_error_bind, if_neg (by omega)]

/-! ## The used parts of the arrays -/

/-- The cursors are inside of the arrays, the cells from `u` on are the ones left, and `cbuf` holds what was there before
the line, `m`, from `cp` on. -/
structure Laid (m : ℕ → UInt8) (u : ℕ) (st : Static) : Prop where
  cp_le : st.cp ≤ 256
  pp_le : st.pp ≤ 50
  cells_le : u ≤ 20
  cmds : st.cmds = if u < 20 then some u else none
  chain : ∀ k, u ≤ k → (st.cmdbuf k).next = if k < 19 then some (k + 1) else none
  rest : ∀ j, st.cp ≤ j → st.cbuf j = m j
  terminated : 0 < st.cp → st.cbuf (st.cp - 1) = 0

/-- The used parts of the arrays, with the first `u` cells, stay as they are. -/
structure Grows (u : ℕ) (st st' : Static) : Prop where
  cbuf : ∀ j < st.cp, st'.cbuf j = st.cbuf j
  pbuf : ∀ j < st.pp, st'.pbuf j = st.pbuf j
  cmdbuf : ∀ k < u, st'.cmdbuf k = st.cmdbuf k
  cp : st.cp ≤ st'.cp
  pp : st.pp ≤ st'.pp

variable {m : ℕ → UInt8} {u : ℕ} {st st' st'' : Static}

lemma Grows.refl (u : ℕ) (st) : Grows u st st :=
  ⟨fun _ _ => rfl, fun _ _ => rfl, fun _ _ => rfl, Nat.le_refl _, Nat.le_refl _⟩

lemma Grows.trans (h : Grows u st st') (h' : Grows u st' st'') : Grows u st st'' :=
  ⟨fun j hj => (h'.cbuf j (Nat.lt_of_lt_of_le hj h.cp)).trans (h.cbuf j hj),
    fun j hj => (h'.pbuf j (Nat.lt_of_lt_of_le hj h.pp)).trans (h.pbuf j hj),
    fun k hk => (h'.cmdbuf k hk).trans (h.cmdbuf k hk), Nat.le_trans h.cp h'.cp, Nat.le_trans h.pp h'.pp⟩

lemma Grows.mono {v : ℕ} (h : Grows u st st') (hv : v ≤ u) : Grows v st st' :=
  ⟨h.cbuf, h.pbuf, fun k hk => h.cmdbuf k (Nat.lt_of_lt_of_le hk hv), h.cp, h.pp⟩

lemma laid_init (st : Static) : Laid st.cbuf 0 st.init where
  cp_le := Nat.zero_le _
  pp_le := Nat.zero_le _
  cells_le := Nat.zero_le _
  cmds := rfl
  chain _ _ := rfl
  rest _ _ := rfl
  terminated h := absurd h (Nat.lt_irrefl 0)

variable {w : List UInt8} {i j : ℕ} {ws : List (List UInt8)} {f : Option (List UInt8)} {p : Parsed}

lemma Laid.store (h : Laid m u st) (hroom : st.cp + w.length + 1 ≤ 256) : Laid m u (st.store w) where
  cp_le := hroom
  pp_le := h.pp_le
  cells_le := h.cells_le
  cmds := h.cmds
  chain := h.chain
  rest j hj := by
    have hj' : st.cp + w.length + 1 ≤ j := hj
    have hsame : (st.store w).cbuf j = st.cbuf j := putString_of_not_mem (Or.inr (by omega))
    rw [hsame]
    exact h.rest j (by omega)
  terminated _ := putString_terminator st.cbuf st.cp w

lemma grows_store (u : ℕ) (st) (w) : Grows u st (st.store w) where
  cbuf _ hj := putString_of_not_mem (Or.inl hj)
  pbuf _ _ := rfl
  cmdbuf _ _ := rfl
  cp := by
    have hcp : (st.store w).cp = st.cp + w.length + 1 := rfl
    omega
  pp := Nat.le_refl _

/-- The state after `*pp++ = arg`. -/
def Static.pushArg (st : Static) (arg : Option ℕ) : Static :=
  { st with pbuf := update st.pbuf st.pp arg, pp := st.pp + 1 }

lemma putArg_of_lt (h : st.pp < 50) (arg : Option ℕ) : st.putArg arg = .ok (st.pushArg arg) :=
  if_pos h

lemma putArg_of_not_lt (h : ¬st.pp < 50) (arg : Option ℕ) : st.putArg arg = .error .pbuf :=
  if_neg h

lemma Laid.pushArg (h : Laid m u st) (hroom : st.pp < 50) (arg : Option ℕ) : Laid m u (st.pushArg arg) :=
  ⟨h.cp_le, hroom, h.cells_le, h.cmds, h.chain, h.rest, h.terminated⟩

lemma grows_pushArg (u : ℕ) (st) (arg : Option ℕ) : Grows u st (st.pushArg arg) where
  cbuf _ _ := rfl
  pbuf j hj := by
    have hne : j ≠ st.pp := by omega
    exact update_of_ne hne _ _
  cmdbuf _ _ := rfl
  cp := Nat.le_refl _
  pp := Nat.le_succ _

/-! ## What the pointers lead to -/

/-- The string `w` is at index `i`, in the used part of `cbuf`. -/
def Stored (st : Static) (i : ℕ) (w : List UInt8) : Prop :=
  StringAt st.cbuf i w ∧ i + w.length < st.cp

lemma Stored.grows (h : Stored st i w) (hg : Grows u st st') : Stored st' i w := by
  refine ⟨h.1.congr fun j _ hj => hg.cbuf j ?_, Nat.lt_of_lt_of_le h.2 hg.cp⟩
  have := h.2
  omega

lemma stored_store (st : Static) (hw : ∀ c ∈ w, c ≠ 0) : Stored (st.store w) st.cp w := by
  refine ⟨stringAt_putString hw, ?_⟩
  have hcp : (st.store w).cp = st.cp + w.length + 1 := rfl
  omega

lemma Stored.string_eq (h : Stored st i w) (hcp : st.cp ≤ 256) : st.string i = w := by
  apply h.1.readString_eq
  have := h.2
  omega

/-- The words `ws` are pointed to from slot `j` of `pbuf` on. -/
def Slots (st : Static) : ℕ → List (List UInt8) → Prop
  | _, [] => True
  | j, w :: ws => (∃ i, st.pbuf j = some i ∧ Stored st i w) ∧ Slots st (j + 1) ws

lemma Slots.grows (h : Slots st j ws) (hg : Grows u st st') (hpp : j + ws.length ≤ st.pp) :
    Slots st' j ws := by
  induction ws generalizing j with
  | nil => trivial
  | cons w ws ih =>
    rw [List.length_cons] at hpp
    obtain ⟨⟨i, hi, hw⟩, hrest⟩ := h
    exact ⟨⟨i, (hg.pbuf j (by omega)).trans hi, hw.grows hg⟩, ih hrest (by omega)⟩

lemma Slots.snoc (h : Slots st j ws) (hi : st.pbuf (j + ws.length) = some i) (hw : Stored st i w) :
    Slots st j (ws ++ [w]) := by
  induction ws generalizing j with
  | nil => exact ⟨⟨i, hi, hw⟩, trivial⟩
  | cons v ws ih =>
    obtain ⟨hv, hrest⟩ := h
    refine ⟨hv, ih hrest ?_⟩
    rw [← hi, List.length_cons]
    congr 1
    omega

/-- The argument vector at slot `j` holds the words `ws`, followed by a NULL. -/
def ArgsAt (st : Static) (j : ℕ) (ws : List (List UInt8)) : Prop :=
  Slots st j ws ∧ st.pbuf (j + ws.length) = none ∧ j + ws.length < st.pp

lemma ArgsAt.grows (h : ArgsAt st j ws) (hg : Grows u st st') : ArgsAt st' j ws :=
  ⟨h.1.grows hg (Nat.le_of_lt h.2.2), (hg.pbuf _ h.2.2).trans h.2.1, Nat.lt_of_lt_of_le h.2.2 hg.pp⟩

lemma Slots.args_eq {n : ℕ} (h : Slots st j ws) (hnull : st.pbuf (j + ws.length) = none) (hcp : st.cp ≤ 256)
    (hn : ws.length ≤ n) : st.args n j = ws := by
  induction ws generalizing j n with
  | nil =>
    rw [List.length_nil, Nat.add_zero] at hnull
    cases n with
    | zero => rfl
    | succ n => simp [Static.args, hnull]
  | cons w ws ih =>
    rw [List.length_cons] at hnull hn
    obtain ⟨⟨i, hi, hw⟩, hrest⟩ := h
    cases n with
    | zero => omega
    | succ n =>
      have htail := ih hrest (by rw [show j + 1 + ws.length = j + (ws.length + 1) by omega]; exact hnull)
        (Nat.le_of_succ_le_succ hn)
      simp [Static.args, hi, hw.string_eq hcp, htail]

/-- The list of cells at `k` holds the programs; each cell is one of the first `u`, and the next cells were taken
before it. -/
def PgmsAt (st : Static) : ℕ → Option ℕ → List (List (List UInt8)) → Prop
  | _, none, [] => True
  | u, some k, ws :: rest =>
    k < u ∧ ArgsAt st (st.cmdbuf k).pgmlist ws ∧ PgmsAt st k (st.cmdbuf k).next rest
  | _, _, _ => False

lemma PgmsAt.grows {k : Option ℕ} {pgms : List (List (List UInt8))} (h : PgmsAt st u k pgms)
    (hg : Grows u st st') : PgmsAt st' u k pgms := by
  induction pgms generalizing u k with
  | nil =>
    cases k with
    | none => trivial
    | some k => exact h.elim
  | cons ws rest ih =>
    cases k with
    | none => exact h.elim
    | some k =>
      obtain ⟨hk, hargs, hrest⟩ := h
      have hcell := hg.cmdbuf k hk
      refine ⟨hk, ?_, ?_⟩
      · rw [hcell]
        exact hargs.grows hg
      · rw [hcell]
        exact ih hrest (hg.mono (Nat.le_of_lt hk))

lemma PgmsAt.pgms_eq {k : Option ℕ} {pgms : List (List (List UInt8))} (h : PgmsAt st u k pgms)
    (hcp : st.cp ≤ 256) (hpp : st.pp ≤ 50) {n : ℕ} (hn : u ≤ n) : st.pgms n k = pgms := by
  induction pgms generalizing u k n with
  | nil =>
    cases k with
    | none => cases n <;> rfl
    | some k => exact h.elim
  | cons ws rest ih =>
    cases k with
    | none => exact h.elim
    | some k =>
      obtain ⟨hk, ⟨hslots, hnull, hlt⟩, hrest⟩ := h
      cases n with
      | zero => omega
      | succ n =>
        rw [Static.pgms, hslots.args_eq hnull hcp (by omega), ih hrest (by omega)]

/-- The pointer to a file name, if there is one, leads to it. -/
def FileAt (st : Static) : Option ℕ → Option (List UInt8) → Prop
  | none, none => True
  | some i, some f => Stored st i f
  | _, _ => False

lemma FileAt.grows {i : Option ℕ} (h : FileAt st i f) (hg : Grows u st st') : FileAt st' i f := by
  cases i with
  | none =>
    cases f with
    | none => trivial
    | some f => exact h.elim
  | some i =>
    cases f with
    | none => exact h.elim
    | some f => exact Stored.grows h hg

lemma FileAt.isSome_eq {i : Option ℕ} (h : FileAt st i f) : i.isSome = f.isSome := by
  cases i <;> cases f <;> first | rfl | exact h.elim

lemma FileAt.map_eq {i : Option ℕ} (h : FileAt st i f) (hcp : st.cp ≤ 256) : i.map st.string = f := by
  cases i with
  | none =>
    cases f with
    | none => rfl
    | some f => exact h.elim
  | some i =>
    cases f with
    | none => exact h.elim
    | some f => exact congrArg some (Stored.string_eq h hcp)

/-- The pointers of the command `c` lead to the strings of `p`. -/
structure Holds (st : Static) (u : ℕ) (c : Command) (p : Parsed) : Prop where
  pgm : PgmsAt st u c.pgm p.pgm
  file : ∀ d, FileAt st (c.file d) (p.file d)
  background : c.background = p.background

lemma Holds.grows {c : Command} (h : Holds st u c p) (hg : Grows u st st') : Holds st' u c p :=
  ⟨h.pgm.grows hg, fun d => (h.file d).grows hg, h.background⟩

/-- What is read through the pointers of a result. -/
lemma Holds.parsed_eq {r : Return} (h : Holds r.static u r.command p) (hlaid : Laid m u r.static) :
    r.parsed = p := by
  refine Parsed.ext_file (h.pgm.pgms_eq hlaid.cp_le hlaid.pp_le hlaid.cells_le) (fun d => ?_) h.background
  have hfile := (h.file d).map_eq hlaid.cp_le
  cases d <;> exact hfile

@[simp] lemma Command.file_setFile (c : Command) (d e : Dir) (tok : ℕ) :
    (c.setFile d tok).file e = if e = d then some tok else c.file e := by
  cases d <;> cases e <;> rfl

@[simp] lemma Command.setFile_pgm (c : Command) (d : Dir) (tok : ℕ) : (c.setFile d tok).pgm = c.pgm := by
  cases d <;> rfl

@[simp] lemma Command.setFile_background (c : Command) (d : Dir) (tok : ℕ) :
    (c.setFile d tok).background = c.background := by
  cases d <;> rfl

lemma Holds.setFile {c : Command} (h : Holds st u c p) (d : Dir) {f : List UInt8} (hf : Stored st i f) :
    Holds st u (c.setFile d i) (p.setFile d f) := by
  refine ⟨by simpa using h.pgm, fun e => ?_, by simpa using h.background⟩
  rw [Command.file_setFile, Parsed.file_setFile]
  by_cases he : e = d
  · rw [if_pos he, if_pos he]
    exact hf
  · rw [if_neg he, if_neg he]
    exact h.file e

end OsLabs.Lsh.Parser
