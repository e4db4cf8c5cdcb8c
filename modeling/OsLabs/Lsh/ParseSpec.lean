import OsLabs.Lsh.ParseMemory

/-!
# The parser follows the automaton

If the arrays have room for what the automaton counts, then `parse` returns what the automaton says, with the pointers
of the command leading to its strings; if not, then it stores outside of one of them (`parse_answers`).
-/

namespace OsLabs.Lsh.Parser

open Lib Function

variable {m : ℕ → UInt8} {u : ℕ} {st : Static} {c : Command} {p : Parsed}

/-! ## What the code is compared with -/

/-- There is room for `use` more. -/
def Room (u : ℕ) (st : Static) (use : Usage) : Prop :=
  u + use.cells ≤ 20 ∧ st.pp + use.slots ≤ 50 ∧ st.cp + use.bytes ≤ 256

/-- Something was stored outside of the arrays, or `cmds` was followed at the end of the cells. -/
def Overflows {α : Type} (r : Except Fault α) : Prop :=
  ∃ f, r = .error f ∧ f ≠ .overread

/-- The result is the one the automaton asks for. When a file name is missing, then the bytes that are left in `cbuf`
from index `cp` on are taken for it. -/
def Meets (m : ℕ → UInt8) (cp : ℕ) (v : Verdict) (r : Except Fault Return) : Prop :=
  match v with
  | .accept p => ∃ ret u, r = .ok ret ∧ ret.code = 1 ∧ ret.parsed = p ∧ Laid m u ret.static
  | .reject => ∃ ret u, r = .ok ret ∧ ret.code = -1 ∧ Laid m u ret.static
  | .missing p d =>
    match isidentifier m cp with
    | .error f => r = .error f
    | .ok true => ∃ ret u, r = .ok ret ∧ ret.code = 1 ∧ Laid m u ret.static ∧
        ret.parsed = p.setFile d (readString m (256 - cp) cp)
    | .ok false => ∃ ret u, r = .ok ret ∧ ret.code = -1 ∧ Laid m u ret.static

/-- The code answers as the automaton does from state `q` on the tokens `ts`, which take `use`. -/
structure Answers (m : ℕ → UInt8) (u : ℕ) (st : Static) (q : Scan) (ts : List Token) (use : Usage)
    (r : Except Fault Return) : Prop where
  meets : Room u st use → Meets m (st.cp + use.bytes) (ts.foldl Scan.advance q).verdict r
  overflows : ¬Room u st use → Overflows r

/-! ## The words of a program -/

/-- What the words take in `cbuf`. -/
def wordsSize : List (List UInt8) → ℕ
  | [] => 0
  | v :: vs => v.length + 1 + wordsSize vs

/-- What the token that ends the words takes. -/
def endSize : List Token → ℕ
  | [] => 0
  | tok :: _ => tok.size

/-- The tokens up to the first that is not a word. -/
lemma exists_words (ts : List Token) :
    ∃ (vs : List (List UInt8)) (rest : List Token), ts = vs.map .word ++ rest ∧ ∀ w r, rest ≠ .word w :: r := by
  induction ts with
  | nil => exact ⟨[], [], rfl, by simp⟩
  | cons tok ts ih =>
    cases tok with
    | word w =>
      obtain ⟨vs, rest, rfl, hrest⟩ := ih
      exact ⟨w :: vs, rest, rfl, hrest⟩
    | special x => exact ⟨[], .special x :: ts, rfl, by simp⟩

variable {rest : List Token} {st₁ : Static} {ws vs : List (List UInt8)} {cnt j fuel k i : ℕ} {s t : List UInt8}

section Words

variable (hrest : ∀ w r, rest ≠ .word w :: r)
include hrest

lemma nil_or_special : rest = [] ∨ ∃ x r, rest = .special x :: r := by
  cases rest with
  | nil => exact Or.inl rfl
  | cons tok rest =>
    cases tok with
    | word w => exact absurd rfl (hrest w rest)
    | special x => exact Or.inr ⟨x, rest, rfl⟩

lemma usage_words (p) (ws vs) :
    (Scan.words p ws).usage (vs.map .word ++ rest) =
      ⟨0, vs.length + 1, wordsSize vs + endSize rest⟩ + (Scan.tail (p.addPgm (ws ++ vs))).usage rest := by
  induction vs generalizing ws with
  | nil =>
    rw [List.append_nil]
    rcases nil_or_special hrest with rfl | ⟨x, rest, rfl⟩
    · rfl
    · ext
      · simp [Scan.usage, Scan.cost, Scan.advance]
      · simp [Scan.usage, Scan.cost, Scan.advance]
      · simp only [List.map_nil, List.nil_append, Scan.usage, Scan.cost, Scan.advance, Usage.add_bytes, wordsSize,
          endSize]
        omega
  | cons v vs ih =>
    rw [List.map_cons, List.cons_append, Scan.usage, show Scan.advance (.words p ws) (.word v) =
      .words p (ws ++ [v]) from rfl, ih, List.append_assoc]
    ext
    · simp [Scan.cost]
    · simp only [Scan.cost, Usage.add_slots, List.length_cons, List.cons_append, List.nil_append]
      omega
    · simp only [Scan.cost, Usage.add_bytes, wordsSize, Token.size, Token.text,
        List.cons_append, List.nil_append]
      omega

lemma verdict_words (p) (ws vs) :
    ((vs.map Token.word ++ rest).foldl Scan.advance (.words p ws)).verdict =
      (rest.foldl Scan.advance (.tail (p.addPgm (ws ++ vs)))).verdict := by
  rw [List.foldl_append, foldl_words]
  rcases nil_or_special hrest with rfl | ⟨x, rest, rfl⟩ <;> rfl

/-- Where the automaton is once the words of a program are read, if there are any. -/
def afterWords (p : Parsed) (vs : List (List UInt8)) : Scan :=
  if vs = [] then .failed else .tail (p.addPgm vs)

lemma usage_start (p) (vs) :
    (Scan.start p).usage (vs.map .word ++ rest) =
      ⟨0, vs.length + 1, wordsSize vs + endSize rest⟩ + (afterWords p vs).usage rest := by
  cases vs with
  | nil =>
    rcases nil_or_special hrest with rfl | ⟨x, rest, rfl⟩
    · rfl
    · rw [afterWords, if_pos rfl, Scan.usage_failed, List.map_nil, List.nil_append, Scan.usage,
        show (Scan.start p).advance (.special x) = .failed from rfl, Scan.usage_failed]
      rfl
  | cons v vs =>
    -- the first word is read as the further ones are
    exact usage_words hrest p [] (v :: vs)

lemma verdict_start (p) (vs) :
    ((vs.map Token.word ++ rest).foldl Scan.advance (.start p)).verdict =
      (rest.foldl Scan.advance (afterWords p vs)).verdict := by
  cases vs with
  | nil =>
    rcases nil_or_special hrest with rfl | ⟨x, rest, rfl⟩ <;> rfl
  | cons v vs =>
    exact verdict_words hrest p [v] vs

end Words

/-- The loop of `acmd` stores the words `vs` after the words `ws`, which are in the slots from `j` on, and a NULL; `rest`
is left of the line `s`. -/
structure ReadsWords (m : ℕ → UInt8) (u : ℕ) (st : Static) (j : ℕ) (ws vs : List (List UInt8)) (rest : List Token)
    (s : List UInt8) (cnt : ℕ) (r : Except Fault (ℕ × Static)) : Prop where
  fits : st.pp + (vs.length + 1) ≤ 50 ∧ st.cp + (wordsSize vs + endSize rest) ≤ 256 →
    ∃ n st', r = .ok (cnt + n, st') ∧ tokens (s.drop n) = rest ∧ (n = 0 ↔ vs = []) ∧ Laid m u st' ∧ Grows u st st' ∧
      ArgsAt st' j (ws ++ vs) ∧ st'.pp = st.pp + (vs.length + 1) ∧
      st'.cp = st.cp + (wordsSize vs + endSize rest)
  overflows : ¬(st.pp + (vs.length + 1) ≤ 50 ∧ st.cp + (wordsSize vs + endSize rest) ≤ 256) → Overflows r

/-- The end of the loop: the token that is not a word has been read, the NULL is stored. -/
lemma acmdEnd_spec (htokens : tokens s = rest) (hslots : Slots st j ws) (hpp : st.pp = j + ws.length)
    (hlaid : Laid m u st₁) (hgrows : Grows u st st₁) (hpp₁ : st₁.pp = st.pp)
    (hcp : st₁.cp = st.cp + endSize rest) :
    ReadsWords m u st j ws [] rest s cnt (do
      let st ← st₁.putArg none
      return (cnt, st)) := by
  have hgrows' := hgrows.trans (grows_pushArg u st₁ none)
  have hslot : st₁.pp = j + ws.length := hpp₁.trans hpp
  have hsize : wordsSize [] = 0 := rfl
  constructor
  · rintro ⟨hroom, _⟩
    rw [← hpp₁] at hroom
    refine ⟨0, st₁.pushArg none, ?_, htokens, by simp, hlaid.pushArg hroom none, hgrows', ?_, ?_, ?_⟩
    · rw [putArg_of_lt hroom]
      rfl
    · rw [List.append_nil]
      refine ⟨hslots.grows hgrows' (by omega), ?_, ?_⟩
      · simp [Static.pushArg, hslot]
      · simp [Static.pushArg, hslot]
    · simp [Static.pushArg, hpp₁]
    · rw [show (st₁.pushArg none).cp = st₁.cp from rfl, hcp, hsize, Nat.zero_add]
  · intro hroom
    have hfull : ¬st₁.pp < 50 := by
      intro hlt
      have hbound := hlaid.cp_le
      exact hroom ⟨by rw [List.length_nil]; omega, by omega⟩
    exact ⟨.pbuf, by rw [putArg_of_not_lt hfull, except_error_bind], by decide⟩

/-- A round of the loop: the word `v` has been stored, in `st₁`. -/
lemma ReadsWords.cons {v : List UInt8} {n : ℕ} {r : Except Fault (ℕ × Static)} (hgrows : Grows u st st₁)
    (hpp : st₁.pp = st.pp + 1) (hcp : st₁.cp = st.cp + (v.length + 1)) (hn : 0 < n)
    (h : ReadsWords m u st₁ j (ws ++ [v]) vs rest (s.drop n) (cnt + n) r) :
    ReadsWords m u st j ws (v :: vs) rest s cnt r := by
  obtain ⟨hfits, hoverflows⟩ := h
  have hwords : wordsSize (v :: vs) = v.length + 1 + wordsSize vs := rfl
  constructor
  · intro hroom
    rw [List.length_cons] at hroom ⊢
    obtain ⟨k, st', hrun, hdrop, _, hlaid, hgrows', hargs, hpp', hcp'⟩ := hfits (by omega)
    refine ⟨n + k, st', ?_, ?_, ?_, hlaid, hgrows.trans hgrows', ?_, by omega, by omega⟩
    · rw [hrun, Nat.add_assoc]
    · rw [← hdrop, List.drop_drop]
    · constructor
      · intro hzero
        omega
      · intro hnil
        cases hnil
    · rw [List.append_assoc] at hargs
      exact hargs
  · intro hroom
    rw [List.length_cons] at hroom
    exact hoverflows fun hroom' => hroom (by omega)

/-- The words of a program are stored, and a NULL after them. -/
lemma acmdLoop_spec (htokens : tokens s = vs.map .word ++ rest) (hrest : ∀ w r, rest ≠ .word w :: r)
    (hfuel : s.length ≤ fuel) (hnul : ∀ b ∈ s, b ≠ 0) (hlaid : Laid m u st) (hslots : Slots st j ws)
    (hpp : st.pp = j + ws.length) : ReadsWords m u st j ws vs rest s cnt (acmdLoop fuel s cnt st) := by
  induction vs generalizing st ws fuel cnt s with
  | nil =>
    cases fuel with
    | zero =>
      have hs : s = [] := List.eq_nil_of_length_eq_zero (by omega)
      subst hs
      obtain rfl : rest = [] := htokens.symm
      exact acmdEnd_spec htokens hslots hpp hlaid (.refl u st) rfl rfl
    | succ fuel =>
      rw [acmdLoop]
      cases rest with
      | nil =>
        rw [nexttoken_nil htokens]
        exact acmdEnd_spec htokens hslots hpp hlaid (.refl u st) rfl rfl
      | cons tok rest =>
        cases tok with
        | word w => exact absurd rfl (hrest w rest)
        | special x =>
          obtain ⟨n, _, _, _, hnext⟩ := nexttoken_cons htokens
          have hchar : (st.store (Token.special x).text).cbuf st.cp = x.char :=
            (stored_store st (w := [x.char]) (by simp [char_ne_zero])).1.1
          rw [hnext]
          by_cases hcp : st.cp + (Token.special x).size ≤ 256
          · have hgo : (n = 0 || isspec ((st.store (Token.special x).text).cbuf st.cp)) = true := by
              simp [hchar, isspec]
            rw [if_pos hcp, except_ok_bind]
            dsimp only
            rw [if_pos hgo]
            exact acmdEnd_spec htokens hslots hpp (hlaid.store hcp) (grows_store u st _) rfl rfl
          · rw [if_neg hcp]
            refine ⟨fun hroom => absurd hroom.2 ?_, fun _ => ⟨.cbuf, rfl, by decide⟩⟩
            exact hcp
  | cons v vs ih =>
    obtain ⟨n, hn, hle, hdrop, hnext⟩ := nexttoken_cons htokens
    have hv : .word v ∈ tokens s := by
      rw [htokens]
      exact List.mem_cons_self
    obtain ⟨hne, hchars⟩ := word_of_mem_tokens hv
    have hsize : (Token.word v).size = v.length + 1 := rfl
    have hwords : wordsSize (v :: vs) = v.length + 1 + wordsSize vs := rfl
    have hstored : Stored (st.store v) st.cp v := stored_store st fun b hb => hnul b (hchars b hb).2
    cases fuel with
    | zero => omega
    | succ fuel =>
      rw [acmdLoop, hnext, hsize]
      by_cases hcp : st.cp + (v.length + 1) ≤ 256
      · have hgo : ¬(n = 0 || isspec ((st.store v).cbuf st.cp)) = true := by
          obtain ⟨b, v, rfl⟩ := List.exists_cons_of_ne_nil hne
          have hb : isspec b = false := by
            simp [isspec, (isWordChar_iff.mp (hchars b List.mem_cons_self).1).2]
          have hb' : (st.store (b :: v)).cbuf st.cp = b := hstored.1.1
          simp [hb', hb]
          omega
        rw [if_pos hcp, except_ok_bind]
        dsimp only [Token.text]
        rw [if_neg hgo]
        have hpp₁ : (st.store v).pp = st.pp := rfl
        by_cases hslot : st.pp < 50
        · rw [putArg_of_lt (show (st.store v).pp < 50 from hslot)]
          -- the next round starts with one more word
          have hlaid' : Laid m u ((st.store v).pushArg (some st.cp)) := (hlaid.store hcp).pushArg hslot _
          have hgrows : Grows u st ((st.store v).pushArg (some st.cp)) :=
            (grows_store u st v).trans (grows_pushArg u _ _)
          have hslots' : Slots ((st.store v).pushArg (some st.cp)) j (ws ++ [v]) := by
            refine (hslots.grows hgrows (by omega)).snoc ?_ (hstored.grows (grows_pushArg u _ _))
            simp [Static.pushArg, hpp₁, hpp]
          have hpp' : ((st.store v).pushArg (some st.cp)).pp = j + (ws ++ [v]).length := by
            simp [Static.pushArg, hpp₁, hpp, Nat.add_assoc]
          refine (ih hdrop ?_ ?_ hlaid' hslots' hpp').cons hgrows rfl rfl hn
          · rw [List.length_drop]
            omega
          · exact fun b hb => hnul b (List.mem_of_mem_drop hb)
        · rw [putArg_of_not_lt (show ¬(st.store v).pp < 50 from hslot)]
          refine ⟨fun hroom => absurd hroom.1 (by rw [List.length_cons]; omega), fun _ => ⟨.pbuf, rfl, by decide⟩⟩
      · rw [if_neg hcp]
        refine ⟨fun hroom => absurd hroom.2 (by rw [hwords]; omega), fun _ => ⟨.cbuf, rfl, by decide⟩⟩

/-! ## A program -/

/-- The statements at `newcmd` take a cell and read the words `vs`; `rest` is left of the line `t`. -/
structure TakesCommand (m : ℕ → UInt8) (u : ℕ) (st : Static) (p : Parsed) (vs : List (List UInt8))
    (rest : List Token) (t : List UInt8) (r : Except Fault (ℕ × Command × Static)) : Prop where
  fits : Room u st ⟨1, vs.length + 1, wordsSize vs + endSize rest⟩ →
    ∃ n c' st', r = .ok (n, c', st') ∧ tokens (t.drop n) = rest ∧ (n = 0 ↔ vs = []) ∧ Laid m (u + 1) st' ∧
      (vs ≠ [] → Holds st' (u + 1) c' (p.addPgm vs)) ∧ st'.pp = st.pp + (vs.length + 1) ∧
      st'.cp = st.cp + (wordsSize vs + endSize rest)
  overflows : ¬Room u st ⟨1, vs.length + 1, wordsSize vs + endSize rest⟩ → Overflows r

/-- The state after the cell `k` is written. -/
def Static.setCell (st : Static) (k : ℕ) (cell : Pgm) : Static :=
  { st with cmdbuf := update st.cmdbuf k cell }

lemma putCell_of_lt (h : k < 20) (cell : Pgm) : st.putCell k cell = .ok (st.setCell k cell) :=
  if_pos h

@[simp] lemma setCell_cmdbuf (st : Static) (k : ℕ) (cell : Pgm) : (st.setCell k cell).cmdbuf k = cell :=
  update_self ..

lemma setCell_cmdbuf_of_ne (st : Static) (cell : Pgm) (h : j ≠ k) :
    (st.setCell k cell).cmdbuf j = st.cmdbuf j :=
  update_of_ne h ..

lemma grows_setCell (st) (k : ℕ) (cell : Pgm) : Grows k st (st.setCell k cell) where
  cbuf _ _ := rfl
  pbuf _ _ := rfl
  cmdbuf _ hj := setCell_cmdbuf_of_ne st cell (Nat.ne_of_lt hj)
  cp := Nat.le_refl _
  pp := Nat.le_refl _

lemma Laid.setCell (h : Laid m u st) (hk : k < u) (cell : Pgm) : Laid m u (st.setCell k cell) where
  cp_le := h.cp_le
  pp_le := h.pp_le
  cells_le := h.cells_le
  cmds := h.cmds
  chain j hj := by
    rw [setCell_cmdbuf_of_ne st cell (by omega)]
    exact h.chain j hj
  rest := h.rest
  terminated := h.terminated

/-- The state after the first of the cells that are left, `k`, is taken. -/
def Static.takeCell (st : Static) (k : ℕ) : Static :=
  { st with cmds := (st.cmdbuf k).next }.setCell k ⟨st.pp, none⟩

lemma Laid.takeCell (h : Laid m u st) (hu : u < 20) : Laid m (u + 1) (st.takeCell u) where
  cp_le := h.cp_le
  pp_le := h.pp_le
  cells_le := hu
  cmds := by
    have hnext := h.chain u (Nat.le_refl u)
    rw [show (st.takeCell u).cmds = (st.cmdbuf u).next from rfl, hnext]
    by_cases hlast : u < 19
    · rw [if_pos hlast, if_pos (by omega)]
    · rw [if_neg hlast, if_neg (by omega)]
  chain j hj := by
    rw [Static.takeCell, setCell_cmdbuf_of_ne _ _ (by omega)]
    exact h.chain j (by omega)
  rest := h.rest
  terminated := h.terminated

lemma grows_takeCell (st) (k : ℕ) : Grows k st (st.takeCell k) where
  cbuf _ _ := rfl
  pbuf _ _ := rfl
  cmdbuf _ hj := setCell_cmdbuf_of_ne _ _ (Nat.ne_of_lt hj)
  cp := Nat.le_refl _
  pp := Nat.le_refl _

/-- The command with a program more, once its words are stored and its cell points to the programs before it. -/
lemma Holds.addPgm (h : Holds st u c p) (hgrows : Grows u st st₁)
    (hargs : ArgsAt st₁ (st₁.cmdbuf u).pgmlist vs) :
    Holds (st₁.setCell u { st₁.cmdbuf u with next := c.pgm }) (u + 1) { c with pgm := some u } (p.addPgm vs) := by
  have hset := grows_setCell st₁ u { st₁.cmdbuf u with next := c.pgm }
  have hgrows' := hgrows.trans hset
  refine ⟨⟨Nat.lt_succ_self u, ?_, ?_⟩, fun d => ?_, h.background⟩
  · rw [setCell_cmdbuf]
    exact hargs.grows hset
  · rw [setCell_cmdbuf]
    exact h.pgm.grows hgrows'
  · have hfile := (h.file d).grows hgrows'
    cases d <;> exact hfile

lemma newcmd_spec (htokens : tokens t = vs.map .word ++ rest) (hrest : ∀ w r, rest ≠ .word w :: r)
    (hnul : ∀ b ∈ t, b ≠ 0) (hlaid : Laid m u st) (hholds : Holds st u c p) :
    TakesCommand m u st p vs rest t (newcmd t c st) := by
  have hcmds := hlaid.cmds
  by_cases hu : u < 20
  · rw [if_pos hu] at hcmds
    have hrun : newcmd t c st = acmdLoop t.length t 0 (st.takeCell u) >>= fun r =>
        if r.1 = 0 then return (0, c, r.2)
        else do
          let st ← r.2.putCell u { r.2.cmdbuf u with next := c.pgm }
          return (r.1, { c with pgm := some u }, st) := by
      simp only [newcmd, acmd, hcmds, putCell_of_lt hu, bind_assoc, pure_bind]
      rfl
    have hpgmlist : ((st.takeCell u).cmdbuf u).pgmlist = st.pp := by
      rw [Static.takeCell, setCell_cmdbuf]
    have hloop : ReadsWords m (u + 1) (st.takeCell u) st.pp [] vs rest t 0 (acmdLoop t.length t 0 (st.takeCell u)) :=
      acmdLoop_spec htokens hrest (Nat.le_refl _) hnul (hlaid.takeCell hu) trivial rfl
    rw [hrun]
    constructor
    · rintro ⟨_, hslots, hbytes⟩
      obtain ⟨n, st₁, hloop, hdrop, hzero, hlaid₁, hgrows, hargs, hpp, hcp⟩ := hloop.fits ⟨hslots, hbytes⟩
      rw [Nat.zero_add] at hloop
      rw [hloop, except_ok_bind]
      by_cases hn : n = 0
      · rw [if_pos hn]
        exact ⟨0, c, st₁, rfl, by rw [hn] at hdrop; exact hdrop, by simpa [hn] using hzero, hlaid₁,
          fun hne => absurd (hzero.mp hn) hne, hpp, hcp⟩
      · rw [if_neg hn, putCell_of_lt hu]
        have hcell := hgrows.cmdbuf u (Nat.lt_succ_self u)
        have hgrows' := (grows_takeCell st u).trans (hgrows.mono (Nat.le_succ u))
        refine ⟨n, _, _, rfl, hdrop, hzero, hlaid₁.setCell (Nat.lt_succ_self u) _, fun _ => ?_, hpp, hcp⟩
        apply hholds.addPgm hgrows'
        rw [hcell, hpgmlist]
        exact hargs
    · intro hroom
      obtain ⟨f, hf, hne⟩ := hloop.overflows fun hroom' => hroom ⟨hu, hroom'⟩
      exact ⟨f, by rw [hf, except_error_bind], hne⟩
  · rw [if_neg hu] at hcmds
    refine ⟨fun hroom => absurd hroom.1 hu, fun _ => ⟨.cmds, ?_, by decide⟩⟩
    rw [newcmd, acmd, hcmds]
    rfl

/-! ## File names -/

lemma isidentifierLoop_of_stringAt {cbuf : ℕ → UInt8} {n : ℕ} {w : List UInt8} (h : StringAt cbuf i w)
    (hn : w.length < n) : isidentifierLoop cbuf n i = .ok (w.all isIdChar) := by
  induction w generalizing i n with
  | nil =>
    have hzero : cbuf i = 0 := h
    cases n with
    | zero => omega
    | succ n => rw [isidentifierLoop, if_pos hzero]; rfl
  | cons b w ih =>
    obtain ⟨hb, hne, hrest⟩ := h
    rw [List.length_cons] at hn
    cases n with
    | zero => omega
    | succ n =>
      rw [isidentifierLoop, hb, if_neg hne, List.all_cons]
      cases hid : isIdChar b with
      | true => rw [if_pos rfl, ih hrest (by omega), Bool.true_and]
      | false => rw [if_neg (by simp), Bool.false_and]

lemma Stored.isidentifier_eq {w : List UInt8} (h : Stored st i w) (hcp : st.cp ≤ 256) :
    isidentifier st.cbuf i = .ok (w.all isIdChar) := by
  have hlt := h.2
  exact isidentifierLoop_of_stringAt h.1 (by omega)

lemma isidentifierLoop_congr {cbuf cbuf' : ℕ → UInt8} (heq : ∀ j, i ≤ j → cbuf' j = cbuf j) (n : ℕ) :
    isidentifierLoop cbuf' n i = isidentifierLoop cbuf n i := by
  induction n generalizing i with
  | zero => rfl
  | succ n ih =>
    rw [isidentifierLoop, isidentifierLoop, heq i (Nat.le_refl i), ih fun j hj => heq j (by omega)]

lemma isIdChar_char (x : Special) : isIdChar x.char = false := by
  cases x with
  | pipe => decide
  | bg => decide
  | redir d => cases d <;> decide

/-! ## The rest of the line -/

namespace Answers

variable {q q' : Scan} {ts ts' : List Token} {a use' : Usage} {u' : ℕ} {st' : Static} {r : Except Fault Return}

/-- What follows after `a` has been used. -/
lemma after (h : Answers m u' st' q' ts' use' r) (hu : u' = u + a.cells) (hpp : st'.pp = st.pp + a.slots)
    (hcp : st'.cp = st.cp + a.bytes)
    (hverdict : (ts.foldl Scan.advance q).verdict = (ts'.foldl Scan.advance q').verdict) :
    Answers m u st q ts (a + use') r := by
  have hroom : Room u st (a + use') ↔ Room u' st' use' := by
    simp only [Room, Usage.add_cells, Usage.add_slots, Usage.add_bytes, hu, hpp, hcp, Nat.add_assoc]
  constructor
  · intro h'
    have hmeets := h.meets (hroom.mp h')
    rw [hcp, Nat.add_assoc] at hmeets
    rw [hverdict]
    exact hmeets
  · intro h'
    exact h.overflows fun hr => h' (hroom.mpr hr)

/-- There is no room for the first part of what is used. -/
lemma overflow (hroom : ¬Room u st a) (h : Overflows r) : Answers m u st q ts (a + use') r := by
  refine ⟨fun hr => absurd ?_ hroom, fun _ => h⟩
  obtain ⟨hcells, hslots, hbytes⟩ := hr
  rw [Usage.add_cells] at hcells
  rw [Usage.add_slots] at hslots
  rw [Usage.add_bytes] at hbytes
  exact ⟨by omega, by omega, by omega⟩

/-- Nothing more is used. -/
lemma of_meets (hlaid : Laid m u st) (h : Meets m st.cp (ts.foldl Scan.advance q).verdict r) :
    Answers m u st q ts ⟨0, 0, 0⟩ r :=
  ⟨fun _ => h, fun hroom => absurd ⟨hlaid.cells_le, hlaid.pp_le, hlaid.cp_le⟩ hroom⟩

lemma reject (hlaid : Laid m u st) (message : Option Message) :
    Answers m u st .failed ts (Scan.failed.usage ts) (.ok ⟨-1, c, st, message⟩) := by
  rw [Scan.usage_failed]
  apply of_meets hlaid
  rw [Scan.foldl_failed]
  exact ⟨_, u, rfl, rfl, hlaid⟩

lemma accept (hlaid : Laid m u st) (hholds : Holds st u c p) (hq : q.verdict = .accept p) :
    Answers m u st q [] ⟨0, 0, 0⟩ (.ok ⟨1, c, st, none⟩) := by
  apply of_meets hlaid
  rw [List.foldl_nil, hq]
  exact ⟨_, u, rfl, rfl, hholds.parsed_eq hlaid, hlaid⟩

end Answers

/-- A program is read, and the rest of the line by `next`. -/
lemma newcmd_answers {next : ℕ → Command → Static → Except Fault Return}
    (hnul : ∀ b ∈ t, b ≠ 0) (hlaid : Laid m u st) (hholds : Holds st u c p)
    (hnext : ∀ n c' st' p' u', Laid m u' st' → Holds st' u' c' p' →
      Answers m u' st' (.tail p') (tokens (t.drop n)) ((Scan.tail p').usage (tokens (t.drop n))) (next n c' st')) :
    Answers m u st (.start p) (tokens t) (⟨1, 0, 0⟩ + (Scan.start p).usage (tokens t)) (do
      let (n, c, st) ← newcmd t c st
      if n = 0 then return ⟨-1, c, st, none⟩
      else next n c st) := by
  obtain ⟨vs, rest, htokens, hrest⟩ := exists_words (tokens t)
  have hspec : TakesCommand m u st p vs rest t (newcmd t c st) := newcmd_spec htokens hrest hnul hlaid hholds
  have husage : ⟨1, 0, 0⟩ + (Scan.start p).usage (tokens t) =
      ⟨1, vs.length + 1, wordsSize vs + endSize rest⟩ + (afterWords p vs).usage rest := by
    rw [htokens, usage_start hrest p vs]
    ext <;> simp [Nat.add_assoc]
  have hverdict : ((tokens t).foldl Scan.advance (.start p)).verdict =
      (rest.foldl Scan.advance (afterWords p vs)).verdict := by
    rw [htokens]
    exact verdict_start hrest p vs
  rw [husage]
  by_cases hroom : Room u st ⟨1, vs.length + 1, wordsSize vs + endSize rest⟩
  · obtain ⟨n, c', st', hrun, hdrop, hzero, hlaid', hholds', hpp, hcp⟩ := hspec.fits hroom
    rw [hrun, except_ok_bind]
    dsimp only
    by_cases hn : n = 0
    · rw [if_pos hn]
      rw [afterWords, if_pos (hzero.mp hn)] at hverdict ⊢
      exact (Answers.reject hlaid' none).after rfl hpp hcp hverdict
    · have hne : vs ≠ [] := fun hvs => hn (hzero.mpr hvs)
      rw [if_neg hn]
      rw [afterWords, if_neg hne] at hverdict ⊢
      have hrestAnswers := hnext n c' st' (p.addPgm vs) (u + 1) hlaid' (hholds' hne)
      rw [hdrop] at hrestAnswers
      exact hrestAnswers.after rfl hpp hcp hverdict
  · obtain ⟨f, hf, hne⟩ := hspec.overflows hroom
    exact .overflow hroom ⟨f, by rw [hf, except_error_bind], hne⟩

lemma newtoken_nil (ht : tokens t = []) (c) (st) :
    newtoken fuel t c st = .ok ⟨1, c, st, none⟩ := by
  cases fuel with
  | zero => rfl
  | succ fuel =>
    rw [newtoken, nexttoken_nil ht]
    rfl

/-- The line ends after a `<` or `>`: the name is what is left in `cbuf`. -/
lemma missing_answers {d : Dir} (ht : tokens t = []) (hlaid : Laid m u st) (hholds : Holds st u c p) :
    Answers m u st (.file p d) [] ⟨0, 0, 0⟩ (do
      let (n, tok, st) ← nexttoken t st
      let c := c.setFile d tok
      if ← isidentifier st.cbuf tok then newtoken fuel (t.drop n) c st
      else return ⟨-1, c, st, some (.illegalFilename (st.string tok))⟩) := by
  apply Answers.of_meets hlaid
  have hid : isidentifier st.cbuf st.cp = isidentifier m st.cp := isidentifierLoop_congr hlaid.rest _
  have hstring : st.string st.cp = readString m (256 - st.cp) st.cp :=
    readString_congr fun j hj _ => hlaid.rest j hj
  rw [nexttoken_nil ht, except_ok_bind]
  dsimp only
  rw [hid, List.drop_zero, newtoken_nil ht]
  simp only [Meets]
  cases isidentifier m st.cp with
  | error f => rfl
  | ok legal =>
    cases legal with
    | false => exact ⟨_, u, rfl, rfl, hlaid⟩
    | true =>
      refine ⟨_, u, rfl, rfl, hlaid, ?_⟩
      have hparsed : Return.parsed ⟨1, c, st, none⟩ = p := hholds.parsed_eq hlaid
      rw [← hparsed, ← hstring]
      cases d <;> rfl

/-- A token is stored, and the rest of the line read by `next`. -/
lemma nexttoken_answers {tok : Token} {ts : List Token} {q : Scan} {use : Usage}
    {next : ℕ × ℕ × Static → Except Fault Return} (htokens : tokens t = tok :: ts)
    (hnext : ∀ n, 0 < n → n ≤ t.length → tokens (t.drop n) = ts → st.cp + tok.size ≤ 256 →
      Answers m u (st.store tok.text) (q.advance tok) ts use (next (n, st.cp, st.store tok.text))) :
    Answers m u st q (tok :: ts) (⟨0, 0, tok.size⟩ + use) (nexttoken t st >>= next) := by
  obtain ⟨n, hn, hle, hdrop, hrun⟩ := nexttoken_cons htokens
  rw [hrun]
  by_cases hcp : st.cp + tok.size ≤ 256
  · rw [if_pos hcp]
    exact (hnext n hn hle hdrop hcp).after rfl rfl rfl rfl
  · rw [if_neg hcp]
    exact .overflow (fun hroom => hcp hroom.2.2) ⟨.cbuf, rfl, by decide⟩

/-- What a token of the line is read back as. -/
lemma stored_token (st : Static) {tok : Token} {ts : List Token} (htokens : tokens t = tok :: ts)
    (hnul : ∀ b ∈ t, b ≠ 0) : Stored (st.store tok.text) st.cp tok.text := by
  apply stored_store
  cases tok with
  | word w =>
    have hw : .word w ∈ tokens t := by
      rw [htokens]
      exact List.mem_cons_self
    exact fun b hb => hnul b ((word_of_mem_tokens hw).2 b hb).2
  | special x => simp [Token.text, char_ne_zero]

/-- The file name of a redirection. -/
lemma redir_answers {d : Dir} (hnul : ∀ b ∈ t, b ≠ 0) (hlaid : Laid m u st)
    (hholds : Holds st u c p)
    (hnext : ∀ n c' st' p' u', Laid m u' st' → Holds st' u' c' p' →
      Answers m u' st' (.tail p') (tokens (t.drop n)) ((Scan.tail p').usage (tokens (t.drop n)))
        (newtoken fuel (t.drop n) c' st')) :
    Answers m u st (.file p d) (tokens t) ((Scan.file p d).usage (tokens t)) (do
      let (n, tok, st) ← nexttoken t st
      let c := c.setFile d tok
      if ← isidentifier st.cbuf tok then newtoken fuel (t.drop n) c st
      else return ⟨-1, c, st, some (.illegalFilename (st.string tok))⟩) := by
  cases htokens : tokens t with
  | nil => exact missing_answers htokens hlaid hholds
  | cons tok ts =>
    refine nexttoken_answers htokens fun n _ _ hdrop hcp => ?_
    dsimp only
    have hstored := stored_token st htokens hnul
    have hlaid' : Laid m u (st.store tok.text) := hlaid.store hcp
    rw [hstored.isidentifier_eq hlaid'.cp_le, except_ok_bind]
    cases tok with
    | word f =>
      have htext : (Token.word f).text = f := rfl
      simp only [Scan.advance, htext] at hstored hlaid' ⊢
      by_cases hf : f.all isIdChar = true
      · have hholds' := (hholds.grows (grows_store u st f)).setFile d hstored
        rw [if_pos hf, if_pos hf, ← hdrop]
        exact hnext n _ _ _ u hlaid' hholds'
      · rw [if_neg hf, if_neg hf]
        exact .reject hlaid' _
    | special x =>
      have hf : ¬(Token.special x).text.all isIdChar = true := by simp [Token.text, isIdChar_char]
      rw [if_neg hf]
      exact .reject hlaid' _

/-- The end of a line with a `&`. -/
lemma bg_answers (hlaid : Laid m u st) (hholds : Holds st u c p) :
    Answers m u st (.done p) (tokens t) ((Scan.done p).usage (tokens t)) (do
      let (n, _, st) ← nexttoken t st
      if n = 0 then return ⟨1, { c with background := true }, st, none⟩
      else return ⟨-1, c, st, some .illegalBackgrounding⟩) := by
  cases htokens : tokens t with
  | nil =>
    have hholds' : Holds st u { c with background := true } { p with background := true } := by
      refine ⟨hholds.pgm, fun d => ?_, rfl⟩
      have hfile := hholds.file d
      cases d <;> exact hfile
    rw [nexttoken_nil htokens]
    exact .accept hlaid hholds' rfl
  | cons tok ts =>
    refine nexttoken_answers htokens fun n hn _ _ hcp => ?_
    dsimp only
    rw [if_neg (Nat.ne_of_gt hn)]
    exact .reject (hlaid.store hcp) _

/-- The statements at `newtoken` follow the automaton. -/
lemma newtoken_answers (hfuel : t.length ≤ fuel) (hnul : ∀ b ∈ t, b ≠ 0) (hlaid : Laid m u st)
    (hholds : Holds st u c p) :
    Answers m u st (.tail p) (tokens t) ((Scan.tail p).usage (tokens t)) (newtoken fuel t c st) := by
  induction fuel generalizing t c st p u with
  | zero =>
    obtain rfl : t = [] := List.eq_nil_of_length_eq_zero (by omega)
    exact .accept hlaid hholds rfl
  | succ fuel ih =>
    cases htokens : tokens t with
    | nil =>
      rw [newtoken_nil htokens]
      exact .accept hlaid hholds rfl
    | cons tok ts =>
      have hstored := stored_token st htokens hnul
      -- every token costs its size, a `|` a cell besides
      have hcost : (Scan.tail p).usage (tok :: ts) = ⟨0, 0, tok.size⟩ +
          (⟨if tok = .special .pipe then 1 else 0, 0, 0⟩ + ((Scan.tail p).advance tok).usage ts) := by
        cases tok with
        | word w => ext <;> simp [Scan.usage, Scan.cost]
        | special x => ext <;> simp [Scan.usage, Scan.cost]
      rw [hcost]
      refine nexttoken_answers htokens fun n hn hle hdrop hcp => ?_
      dsimp only
      have hlaid' : Laid m u (st.store tok.text) := hlaid.store hcp
      have hholds' := hholds.grows (grows_store u st tok.text)
      have hnul' : ∀ b ∈ t.drop n, b ≠ 0 := fun b hb => hnul b (List.mem_of_mem_drop hb)
      have hnext : ∀ k c' st' p' u', Laid m u' st' → Holds st' u' c' p' →
          Answers m u' st' (.tail p') (tokens ((t.drop n).drop k)) ((Scan.tail p').usage (tokens ((t.drop n).drop k)))
            (newtoken fuel ((t.drop n).drop k) c' st') := by
        intro k c' st' p' u' hl hh
        refine ih ?_ (fun b hb => hnul' b (List.mem_of_mem_drop hb)) hl hh
        rw [List.length_drop, List.length_drop]
        omega
      rw [if_neg (Nat.ne_of_gt hn), ← hdrop]
      cases tok with
      | word w =>
        have hnone : special? ((st.store w).cbuf st.cp) = none := by
          have hw : .word w ∈ tokens t := by
            rw [htokens]
            exact List.mem_cons_self
          obtain ⟨hne, hchars⟩ := word_of_mem_tokens hw
          obtain ⟨b, w, rfl⟩ := List.exists_cons_of_ne_nil hne
          rw [show (st.store (b :: w)).cbuf st.cp = b from hstored.1.1]
          exact (isWordChar_iff.mp (hchars b List.mem_cons_self).1).2
        dsimp only [Token.text]
        rw [hnone]
        exact (Answers.reject hlaid' _).after rfl rfl rfl rfl
      | special x =>
        have hsome : special? ((st.store [x.char]).cbuf st.cp) = some x := by
          rw [show (st.store [x.char]).cbuf st.cp = x.char from hstored.1.1, special?_char]
        dsimp only [Token.text] at hlaid' hholds' ⊢
        rw [hsome]
        cases x with
        | pipe =>
          exact newcmd_answers hnul' hlaid' hholds' hnext
        | bg =>
          exact (bg_answers hlaid' hholds').after rfl rfl rfl rfl
        | redir d =>
          have hisSome := (hholds.file d).isSome_eq
          dsimp only [Scan.advance, Scan.special]
          rw [hisSome]
          by_cases hd : (p.file d).isSome = true
          · rw [if_pos hd, if_pos hd]
            exact (Answers.reject hlaid' _).after rfl rfl rfl rfl
          · rw [if_neg hd, if_neg hd]
            exact (redir_answers hnul' hlaid' hholds' hnext).after rfl rfl rfl rfl

lemma holds_init (st : Static) : Holds st.init 0 ⟨none, none, none, false⟩ .empty := by
  refine ⟨trivial, fun d => ?_, rfl⟩
  cases d <;> trivial

/-- `parse` follows the automaton, in the memory it finds. -/
lemma parse_answers (st) (line : CStr) :
    Answers st.cbuf 0 st.init (.start .empty) (tokens line.chars) (usage (tokens line.chars)) (parse st line) := by
  let next n c st := newtoken (line.chars.drop n).length (line.chars.drop n) c st
  have hnext : ∀ n c' st' p' u', Laid st.cbuf u' st' → Holds st' u' c' p' →
      Answers st.cbuf u' st' (.tail p') (tokens (line.chars.drop n))
        ((Scan.tail p').usage (tokens (line.chars.drop n))) (next n c' st') := by
    intro n c' st' p' u' hlaid hholds
    exact newtoken_answers (Nat.le_refl _) (fun b hb => line.nonzero b (List.mem_of_mem_drop hb)) hlaid hholds
  exact newcmd_answers line.nonzero (laid_init st) (holds_init st) hnext

end OsLabs.Lsh.Parser
