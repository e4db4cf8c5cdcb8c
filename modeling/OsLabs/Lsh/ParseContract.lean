import OsLabs.Lsh.ParseSpec

/-!
# What callers can expect of `parse`

* a command line that fits the static arrays is parsed into what it stands for (`parse_command_line`);
* a line of any other form is rejected, unless only the file name at its end is missing and what earlier lines left
  in `cbuf` passes for one (`parse_rejects`);
* so the answer does not depend on the earlier lines, unless that file name is missing (`parse_history_free`);
* the stores stay inside of the arrays exactly for the lines that fit them (`parse_in_bounds`).
-/

namespace OsLabs.Lsh.Parser

open Lib

/-! ## The line that fits -/

lemma room_init (st : Static) (use : Usage) : Room 0 st.init use ↔ use.Fits := by
  simp [Room, Usage.Fits, Static.init]

variable {line : CStr} {cbuf m : ℕ → UInt8} {i cp : ℕ} {r : Except Fault Return} {p : Parsed} {st : Static}

/-- A line that fits is answered as the automaton says. -/
lemma parse_meets (st : Static) (hfits : (usage (tokens line.chars)).Fits) :
    Meets st.cbuf (usage (tokens line.chars)).bytes ((tokens line.chars).foldl Scan.advance (.start .empty)).verdict
      (parse st line) := by
  have hmeets := (parse_answers st line).meets ((room_init st _).mpr hfits)
  rw [show st.init.cp = 0 from rfl, Nat.zero_add] at hmeets
  exact hmeets

/-- The string that a missing file name is taken from: what earlier lines left behind the tokens of this one. -/
def leftover (st : Static) (line : CStr) : List UInt8 :=
  let bytes := (usage (tokens line.chars)).bytes
  readString st.cbuf (256 - bytes) bytes

lemma isidentifierLoop_eq_false_iff {n : ℕ} :
    isidentifierLoop cbuf n i = .ok false ↔ ¬(readString cbuf n i).all isIdChar = true := by
  induction n generalizing i with
  | zero => simp [isidentifierLoop, readString]
  | succ n ih =>
    rw [isidentifierLoop, readString]
    by_cases hzero : cbuf i = 0
    · simp [hzero]
    · rw [if_neg hzero, if_neg hzero, List.all_cons]
      cases hid : isIdChar (cbuf i) with
      | false => simp
      | true =>
        rw [if_pos rfl, ih, Bool.true_and]

/-- A line whose last file name is missing. -/
lemma parse_missing (hfits : (usage (tokens line.chars)).Fits) (hmissing : MissingFile (tokens line.chars)) :
    ∃ p d, ∀ st : Static, Meets st.cbuf (usage (tokens line.chars)).bytes (.missing p d) (parse st line) := by
  obtain ⟨p, d, hverdict⟩ := missing_iff.mpr hmissing
  refine ⟨p, d, fun st => ?_⟩
  have hmeets := parse_meets st hfits
  rw [hverdict] at hmeets
  exact hmeets

/-- Any other line. -/
lemma parse_reject (st : Static) (hfits : (usage (tokens line.chars)).Fits)
    (hform : ¬∃ p : CommandLine, tokens line.chars = p.tokens) (hmissing : ¬MissingFile (tokens line.chars)) :
    ∃ r, parse st line = .ok r ∧ r.code = -1 := by
  have hmeets := parse_meets st hfits
  cases hverdict : ((tokens line.chars).foldl Scan.advance (.start .empty)).verdict with
  | accept c =>
    obtain ⟨p, hp, _⟩ := exists_of_accept hverdict
    exact absurd ⟨p, hp⟩ hform
  | missing c d => exact absurd (missing_iff.mp ⟨c, d, hverdict⟩) hmissing
  | reject =>
    rw [hverdict] at hmeets
    obtain ⟨r, u, hr, hcode, _⟩ := hmeets
    exact ⟨r, hr, hcode⟩

/-- A command line is parsed into what it stands for, whatever the arrays held before. -/
theorem parse_command_line (st : Static) (line : CStr) (p : CommandLine) (hp : tokens line.chars = p.tokens)
    (hfits : (usage (tokens line.chars)).Fits) :
    ∃ r, parse st line = .ok r ∧ r.code = 1 ∧ r.parsed = p.parsed := by
  have hmeets := parse_meets st hfits
  rw [hp, scan_tokens] at hmeets
  obtain ⟨r, u, hr, hcode, hparsed, _⟩ := hmeets
  exact ⟨r, hr, hcode, hparsed⟩

/-- The line `ls -l | wc > apa`. -/
def pipedLine : CStr :=
  ⟨['l', 's', ' ', '-', 'l', ' ', '|', ' ', 'w', 'c', ' ', '>', 'a', 'p', 'a'].map Char.toUInt8, by decide +kernel⟩

/-- What `pipedLine` is: two programs, the second with its output redirected. -/
def pipedCommand : CommandLine where
  init := [⟨[['l', 's'].map Char.toUInt8, ['-', 'l'].map Char.toUInt8], [], by simp⟩]
  last := ⟨[['w', 'c'].map Char.toUInt8], [⟨.rut, ['a', 'p', 'a'].map Char.toUInt8, by decide⟩], by simp⟩
  background := false
  once d := by cases d <;> decide

theorem parse_command_line_piped : ∃ r, parse .zero pipedLine = .ok r ∧ r.code = 1 ∧ r.parsed = pipedCommand.parsed :=
  parse_command_line .zero pipedLine pipedCommand (by decide) (by decide)

/-! ## Other lines -/

/-- A line that is no command line is rejected, unless its last file name is missing and the leftover passes for it. -/
theorem parse_rejects (st : Static) (line : CStr) (hfits : (usage (tokens line.chars)).Fits)
    (hform : ¬∃ p : CommandLine, tokens line.chars = p.tokens) :
    (∃ r, parse st line = .ok r ∧ r.code = -1) ↔
      ¬(MissingFile (tokens line.chars) ∧ (leftover st line).all isIdChar = true) := by
  by_cases hmissing : MissingFile (tokens line.chars)
  · obtain ⟨p, d, hmeets⟩ := parse_missing hfits hmissing
    have hmeets := hmeets st
    have hillegal : isidentifier st.cbuf (usage (tokens line.chars)).bytes = .ok false ↔
        ¬(leftover st line).all isIdChar = true := isidentifierLoop_eq_false_iff
    have hrest : (¬(MissingFile (tokens line.chars) ∧ (leftover st line).all isIdChar = true)) ↔
        isidentifier st.cbuf (usage (tokens line.chars)).bytes = .ok false := by
      rw [hillegal]
      exact ⟨fun h hlegal => h ⟨hmissing, hlegal⟩, fun h hboth => h hboth.2⟩
    rw [hrest]
    simp only [Meets] at hmeets
    constructor
    · rintro ⟨r, hr, hcode⟩
      cases hid : isidentifier st.cbuf (usage (tokens line.chars)).bytes with
      | error f =>
        rw [hid, hr] at hmeets
        cases hmeets
      | ok legal =>
        cases legal with
        | false => rfl
        | true =>
          rw [hid] at hmeets
          obtain ⟨r', u, hr', hcode', _⟩ := hmeets
          rw [hr] at hr'
          cases hr'
          rw [hcode] at hcode'
          cases hcode'
    · intro hid
      rw [hid] at hmeets
      obtain ⟨r, u, hr, hcode, _⟩ := hmeets
      exact ⟨r, hr, hcode⟩
  · exact ⟨fun _ h => hmissing h.1, fun _ => parse_reject st hfits hform hmissing⟩

/-- The line `ls <`. -/
def missingLine : CStr :=
  ⟨['l', 's', ' ', '<'].map Char.toUInt8, by decide +kernel⟩

lemma missingLine_form : ¬∃ p : CommandLine, tokens missingLine.chars = p.tokens := by
  rintro ⟨p, hp⟩
  have haccept := scan_tokens p
  rw [← hp]
    at haccept
  cases haccept

theorem parse_rejects_missing :
    (usage (tokens missingLine.chars)).Fits ∧
      ((∃ r, parse .zero missingLine = .ok r ∧ r.code = -1) ↔
        ¬(MissingFile (tokens missingLine.chars) ∧ (leftover .zero missingLine).all isIdChar = true)) :=
  ⟨by decide, parse_rejects .zero missingLine (by decide) missingLine_form⟩

/-- The code of a result, with the command. -/
def Return.summary (r : Return) : ℤ × Parsed :=
  (r.code, r.parsed)

lemma exists_of_summary {code : ℤ} (h : r.toOption.map Return.summary = some (code, p)) :
    ∃ ret, r = .ok ret ∧ ret.code = code ∧ ret.parsed = p := by
  cases r with
  | error f => cases h
  | ok ret =>
    cases h
    exact ⟨ret, rfl, rfl, rfl⟩

/-- `ls <` as the first line is accepted, with the empty name. -/
theorem parse_accepts_missing_name :
    (usage (tokens missingLine.chars)).Fits ∧ (¬∃ p : CommandLine, tokens missingLine.chars = p.tokens) ∧
      ∃ r, parse .zero missingLine = .ok r ∧ r.code = 1 ∧
        r.parsed = ⟨[[['l', 's'].map Char.toUInt8]], some [], none, false⟩ :=
  ⟨by decide, missingLine_form, exists_of_summary (by decide +kernel)⟩

/-! ## The lines before -/

/-- Both return, with the same code, and with the same command when there is one. -/
def SameAnswer (r r' : Except Fault Return) : Prop :=
  ∃ ret ret', r = .ok ret ∧ r' = .ok ret' ∧ ret.code = ret'.code ∧ (ret.code = 1 → ret.parsed = ret'.parsed)

lemma Meets.laid {v : Verdict} {r : Return} (h : Meets m cp v (.ok r)) : ∃ u, Laid m u r.static := by
  cases v with
  | accept p =>
    obtain ⟨_, u, hr, _, _, hlaid⟩ := h
    cases hr
    exact ⟨u, hlaid⟩
  | reject =>
    obtain ⟨_, u, hr, _, hlaid⟩ := h
    cases hr
    exact ⟨u, hlaid⟩
  | missing p d =>
    simp only [Meets] at h
    cases hid : isidentifier m cp with
    | error f =>
      rw [hid] at h
      cases h
    | ok legal =>
      rw [hid] at h
      cases legal with
      | true =>
        obtain ⟨_, u, hr, _, hlaid, _⟩ := h
        cases hr
        exact ⟨u, hlaid⟩
      | false =>
        obtain ⟨_, u, hr, _, hlaid⟩ := h
        cases hr
        exact ⟨u, hlaid⟩

lemma parse_laid {r : Return} (h : parse st line = .ok r) : ∃ u, Laid st.cbuf u r.static := by
  obtain ⟨hmeets, hoverflows⟩ := parse_answers st line
  by_cases hroom : Room 0 st.init (usage (tokens line.chars))
  · have hmeets := hmeets hroom
    rw [h] at hmeets
    exact hmeets.laid
  · obtain ⟨f, hf, _⟩ := hoverflows hroom
    rw [h] at hf
    cases hf

lemma parseMachine_step {st' : Static} :
    parseMachine.step st line = some st' ↔ ∃ r, parse st line = .ok r ∧ r.static = st' := by
  simp only [parseMachine]
  cases parse st line <;> simp [Except.toOption]

/-- Only a terminator is ever stored in the last byte. -/
lemma Reachable.last_byte (h : parseMachine.Reachable st) : st.cbuf 255 = 0 := by
  refine h.invariant ?_ ?_
  · intro st hinit
    obtain rfl : st = .zero := hinit
    rfl
  · intro st line st' _ hzero hstep
    obtain ⟨r, hparse, rfl⟩ := parseMachine_step.mp hstep
    obtain ⟨u, hlaid⟩ := parse_laid hparse
    by_cases hcp : r.static.cp = 256
    · have hterminated := hlaid.terminated (by omega)
      rw [hcp] at hterminated
      exact hterminated
    · have hle := hlaid.cp_le
      exact (hlaid.rest 255 (by omega)).trans hzero

/-- A line of one word leaves the word at the start of `cbuf`. -/
lemma parse_word (st : Static) (htokens : tokens line.chars = [.word line.chars])
    (hlen : line.chars.length ≤ 255) : ∃ r, parse st line = .ok r ∧ StringAt r.static.cbuf 0 line.chars := by
  have hsize : wordsSize [line.chars] + endSize [] = line.chars.length + 1 := rfl
  have hspec : TakesCommand st.cbuf 0 st.init .empty [line.chars] [] line.chars
      (newcmd line.chars ⟨none, none, none, false⟩ st.init) :=
    newcmd_spec htokens (by simp) line.nonzero (laid_init st) (holds_init st)
  have hroom : Room 0 st.init ⟨1, [line.chars].length + 1, wordsSize [line.chars] + endSize []⟩ := by
    rw [room_init]
    refine ⟨by simp, by simp, ?_⟩
    dsimp only
    omega
  obtain ⟨n, c, st', hrun, hdrop, hzero, _, hholds, _, hcp⟩ := hspec.fits hroom
  have hn : n ≠ 0 := fun h => absurd (hzero.mp h) (by simp)
  refine ⟨⟨1, c, st', none⟩, ?_, ?_⟩
  · rw [parse, hrun, except_ok_bind]
    dsimp only
    rw [if_neg hn, newtoken_nil hdrop]
  · have hpgm : PgmsAt st' (0 + 1) c.pgm [[line.chars]] := (hholds (by simp)).pgm
    cases hk : c.pgm with
    | none =>
      rw [hk] at hpgm
      exact hpgm.elim
    | some k =>
      rw [hk] at hpgm
      obtain ⟨_, ⟨⟨⟨i, _, hstored⟩, _⟩, _⟩, _⟩ := hpgm
      -- nothing else was stored, so there is only one place for the word
      obtain rfl : i = 0 := by
        have hlt := hstored.2
        rw [hcp, show st.init.cp = 0 from rfl] at hlt
        omega
      exact hstored.1

lemma sameAnswer_of_form {st' : Static} (hfits : (usage (tokens line.chars)).Fits)
    (hmissing : ¬MissingFile (tokens line.chars)) : SameAnswer (parse st line) (parse st' line) := by
  have hmeets := parse_meets st hfits
  have hmeets' := parse_meets st' hfits
  cases hverdict : ((tokens line.chars).foldl Scan.advance (.start .empty)).verdict with
  | accept p =>
    rw [hverdict] at hmeets hmeets'
    obtain ⟨r, u, hr, hcode, hparsed, _⟩ := hmeets
    obtain ⟨r', u', hr', hcode', hparsed', _⟩ := hmeets'
    exact ⟨r, r', hr, hr', hcode.trans hcode'.symm, fun _ => hparsed.trans hparsed'.symm⟩
  | reject =>
    rw [hverdict] at hmeets hmeets'
    obtain ⟨r, u, hr, hcode, _⟩ := hmeets
    obtain ⟨r', u', hr', hcode', _⟩ := hmeets'
    refine ⟨r, r', hr, hr', hcode.trans hcode'.symm, fun hone => ?_⟩
    rw [hcode] at hone
    cases hone
  | missing p d => exact absurd (missing_iff.mp ⟨p, d, hverdict⟩) hmissing

/-- A missing file name is answered by what `isidentifier` says of the bytes there. -/
lemma Meets.missing_code {d : Dir} {legal : Bool} (h : Meets m cp (.missing p d) r)
    (hid : isidentifier m cp = .ok legal) : ∃ ret, r = .ok ret ∧ ret.code = if legal then 1 else -1 := by
  simp only [Meets, hid] at h
  cases legal with
  | true =>
    obtain ⟨ret, u, hr, hcode, _⟩ := h
    exact ⟨ret, hr, hcode⟩
  | false =>
    obtain ⟨ret, u, hr, hcode, _⟩ := h
    exact ⟨ret, hr, hcode⟩

lemma isidentifier_of_zero (hi : i < 256) (hzero : cbuf i = 0) : isidentifier cbuf i = .ok true := by
  rw [isidentifier, show 256 - i = 255 - i + 1 by omega, isidentifierLoop, if_pos hzero]

/-- In the last byte only the empty name is left. -/
lemma Meets.empty_name {d : Dir} (h : Meets m 255 (.missing p d) r) (hzero : m 255 = 0) :
    ∃ ret, r = .ok ret ∧ ret.code = 1 ∧ ret.parsed = p.setFile d [] := by
  have hname : readString m (256 - 255) 255 = [] := by
    simp [readString, hzero]
  simp only [Meets, isidentifier_of_zero (by decide) hzero, hname] at h
  obtain ⟨ret, u, hr, hcode, _, hparsed⟩ := h
  exact ⟨ret, hr, hcode, hparsed⟩

lemma isidentifier_of_illegal (hi : i < 256) (hzero : cbuf i ≠ 0) (hid : isIdChar (cbuf i) = false) :
    isidentifier cbuf i = .ok false := by
  rw [isidentifier, show 256 - i = 255 - i + 1 by omega, isidentifierLoop, if_neg hzero, hid]
  rfl

/-- A word of characters that file names cannot have. -/
def illegalLine (n : ℕ) : CStr :=
  ⟨List.replicate n '%'.toUInt8, fun c hc => by rw [List.eq_of_mem_replicate hc]; decide⟩

lemma tokens_illegalLine (n : ℕ) : tokens (illegalLine (n + 1)).chars = [.word (illegalLine (n + 1)).chars] := by
  have hword : isWordChar '%'.toUInt8 = true := by decide
  have htokens := tokens_word hword (List.replicate n '%'.toUInt8)
  rw [List.takeWhile_replicate, List.dropWhile_replicate] at htokens
  exact htokens

/-- A state after which no missing file name in the first 255 bytes passes for one. -/
lemma exists_reachable_illegal : ∃ st, parseMachine.Reachable st ∧ ∀ i < 255, isidentifier st.cbuf i = .ok false := by
  have hlen : (illegalLine (254 + 1)).chars.length = 255 := List.length_replicate
  obtain ⟨r, hr, hstring⟩ := parse_word .zero (tokens_illegalLine 254) (Nat.le_of_eq hlen)
  refine ⟨r.static, (Machine.Reachable.init rfl).step (parseMachine_step.mpr ⟨r, hr, rfl⟩), fun i hi => ?_⟩
  have hbyte : r.static.cbuf (0 + i) = '%'.toUInt8 := by
    apply hstring.getElem?
    rw [illegalLine, List.getElem?_replicate, if_pos hi]
  rw [Nat.zero_add] at hbyte
  refine isidentifier_of_illegal (by omega) ?_ ?_
  · rw [hbyte]
    decide
  · rw [hbyte]
    decide

/-- The answer to a line is the same after all histories, unless its last file name is missing. Then it is the same only
if there is no room left for another name. -/
theorem parse_history_free (line : CStr) (hfits : (usage (tokens line.chars)).Fits) :
    (∀ st st', parseMachine.Reachable st → parseMachine.Reachable st' → SameAnswer (parse st line) (parse st' line)) ↔
      (¬MissingFile (tokens line.chars) ∨ (usage (tokens line.chars)).bytes = 255) := by
  constructor
  · intro hsame
    by_contra hcondition
    obtain ⟨hmissing, hbytes⟩ := not_or.mp hcondition
    have hmissing := not_not.mp hmissing
    have hzero : parseMachine.Reachable .zero := .init rfl
    obtain ⟨p, d, hmeets⟩ := parse_missing hfits hmissing
    have hle := hfits.2.2
    by_cases hfull : (usage (tokens line.chars)).bytes = 256
    · -- the name would start behind the array
      have hid : isidentifier Static.zero.cbuf (usage (tokens line.chars)).bytes = .error .overread := by
        rw [hfull]
        rfl
      obtain ⟨r, _, hr, _⟩ := hsame _ _ hzero hzero
      have hmeets := hmeets .zero
      simp only [Meets, hid, hr] at hmeets
      cases hmeets
    · obtain ⟨st, hst, hillegal⟩ := exists_reachable_illegal
      obtain ⟨r, hr, hcode⟩ := (hmeets .zero).missing_code (isidentifier_of_zero (by omega) rfl)
      obtain ⟨r', hr', hcode'⟩ := (hmeets st).missing_code (hillegal _ (by omega))
      obtain ⟨_, _, ha, ha', hcodes, _⟩ := hsame _ _ hzero hst
      rw [hr] at ha
      cases ha
      rw [hr'] at ha'
      cases ha'
      rw [hcode, hcode'] at hcodes
      cases hcodes
  · intro hcondition st st' hst hst'
    by_cases hmissing : MissingFile (tokens line.chars)
    · have hbytes := hcondition.resolve_left (not_not.mpr hmissing)
      obtain ⟨p, d, hmeets⟩ := parse_missing hfits hmissing
      rw [hbytes] at hmeets
      obtain ⟨r, hr, hcode, hparsed⟩ := (hmeets st).empty_name (Reachable.last_byte hst)
      obtain ⟨r', hr', hcode', hparsed'⟩ := (hmeets st').empty_name (Reachable.last_byte hst')
      exact ⟨r, r', hr, hr', hcode.trans hcode'.symm, fun _ => hparsed.trans hparsed'.symm⟩
    · exact sameAnswer_of_form hfits hmissing

theorem parse_history_free_piped :
    (usage (tokens pipedLine.chars)).Fits ∧
      ((∀ st st', parseMachine.Reachable st → parseMachine.Reachable st' →
        SameAnswer (parse st pipedLine) (parse st' pipedLine)) ↔
      (¬MissingFile (tokens pipedLine.chars) ∨ (usage (tokens pipedLine.chars)).bytes = 255)) :=
  ⟨by decide, parse_history_free pipedLine (by decide)⟩

/-- A word that leaves a `%` where the file name of `ls <` is looked for. -/
def percentLine : CStr :=
  ⟨['a', 'a', 'a', 'a', 'a', 'a', 'a', '%'].map Char.toUInt8, by decide +kernel⟩

/-- `ls <` is accepted as the first line, and rejected after the line `aaaaaaa%`. -/
theorem parse_history_matters :
    (usage (tokens missingLine.chars)).Fits ∧
      ∃ st st', parseMachine.Reachable st ∧ parseMachine.Reachable st' ∧
        (parse st missingLine).toOption.map Return.code = some 1 ∧
        (parse st' missingLine).toOption.map Return.code = some (-1) := by
  have hrun : ((parseMachine.run .zero [percentLine]).map fun st =>
      (parse st missingLine).toOption.map Return.code) = some (some (-1)) := by decide +kernel
  obtain ⟨st, hst, hcode⟩ := Option.map_eq_some_iff.mp hrun
  exact ⟨by decide, .zero, st, .init rfl, ⟨.zero, [percentLine], rfl, hst⟩, by decide +kernel, hcode⟩

/-! ## The bounds of the arrays -/

/-- Nothing is stored outside of the arrays, and `cmds` is not followed when the cells are used up. -/
def InBounds (r : Except Fault Return) : Prop :=
  r ≠ .error .cbuf ∧ r ≠ .error .pbuf ∧ r ≠ .error .cmdbuf ∧ r ≠ .error .cmds

lemma not_inBounds_iff : ¬InBounds r ↔ Overflows r := by
  constructor
  · intro h
    cases r with
    | ok ret => exact absurd ⟨by simp, by simp, by simp, by simp⟩ h
    | error f =>
      refine ⟨f, rfl, ?_⟩
      rintro rfl
      exact h ⟨by simp, by simp, by simp, by simp⟩
  · rintro ⟨f, rfl, hne⟩ ⟨hcbuf, hpbuf, hcmdbuf, hcmds⟩
    cases f with
    | cbuf => exact hcbuf rfl
    | pbuf => exact hpbuf rfl
    | cmdbuf => exact hcmdbuf rfl
    | cmds => exact hcmds rfl
    | overread => exact hne rfl

lemma isidentifierLoop_error {n : ℕ} {f : Fault} (h : isidentifierLoop cbuf n i = .error f) :
    f = .overread := by
  induction n generalizing i with
  | zero =>
    cases h
    rfl
  | succ n ih =>
    rw [isidentifierLoop] at h
    split at h
    · cases h
    · split at h
      · exact ih h
      · cases h

/-- A line that fits does not overflow. -/
lemma Meets.not_overflows {v : Verdict} (h : Meets m cp v r) : ¬Overflows r := by
  rintro ⟨f, rfl, hne⟩
  cases v with
  | accept p =>
    obtain ⟨_, _, hr, _⟩ := h
    cases hr
  | reject =>
    obtain ⟨_, _, hr, _⟩ := h
    cases hr
  | missing p d =>
    cases hid : isidentifier m cp with
    | error g =>
      simp only [Meets, hid] at h
      cases h
      exact hne (isidentifierLoop_error hid)
    | ok legal =>
      obtain ⟨_, hr, _⟩ := h.missing_code hid
      cases hr

/-- The fault of a result. -/
def fault? : Except Fault Return → Option Fault
  | .ok _ => none
  | .error f => some f

theorem eq_error_of_fault? {f : Fault} (h : fault? r = some f) : r = .error f := by
  cases r with
  | ok ret => cases h
  | error g =>
    cases h
    rfl

/-- A line of 21 programs. -/
def manyPrograms : CStr :=
  ⟨(List.replicate 20 ['a'.toUInt8, '|'.toUInt8]).flatten ++ ['a'.toUInt8], by decide +kernel⟩

end OsLabs.Lsh.Parser
