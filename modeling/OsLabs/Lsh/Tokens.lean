import OsLabs.Lsh.Parse
import Mathlib.Data.List.TakeWhile

/-!
# Tokens and the form of command lines

What a line means, without buffers: its tokens, the command lines among the token sequences, and an automaton that
reads the tokens from left to right in the order `parse` does.

* `tokens` splits a line into special characters and maximal runs of other characters;
* `CommandLine` is the form `cmd redir* ('|' cmd redir*)* ['&']`, with what it stands for (`CommandLine.parsed`);
* `Scan.advance` reads one token. The automaton accepts exactly the command lines (`scan_tokens`, `Scan.Reads`); besides
  rejecting the rest, it tells apart the lines that end where a file name is missing;
* `Scan.usage` counts what the tokens that are read take in the three static arrays.
-/

namespace OsLabs.Lsh.Parser

/-! ## Tokens -/

inductive Token where
  | word (w : List UInt8)
  | special (x : Special)
deriving DecidableEq

/-- The characters of a token. -/
def Token.text : Token → List UInt8
  | .word w => w
  | .special x => [x.char]

def isWordChar (c : UInt8) : Bool :=
  !isspace c && !isspec c

/-- The tokens of a line: a character that is no space and not special continues the word after it. -/
def tokens : List UInt8 → List Token
  | [] => []
  | c :: s =>
    if isspace c then tokens s
    else
      match special? c with
      | some x => .special x :: tokens s
      | none =>
        match s.head?.any isWordChar, tokens s with
        | true, .word w :: ts => .word (c :: w) :: ts
        | _, ts => .word [c] :: ts

@[simp] lemma special?_char (x : Special) : special? x.char = some x := by
  cases x with
  | pipe => rfl
  | bg => rfl
  | redir d => cases d <;> rfl

variable {c : UInt8} {ts : List Token}

theorem char_of_special? {x : Special} (h : special? c = some x) : c = x.char := by
  unfold special? at h
  split at h
  · cases h
    assumption
  · split at h
    · cases h
      assumption
    · split at h
      · cases h
        assumption
      · split at h
        · cases h
          assumption
        · cases h

lemma char_ne_zero (x : Special) : x.char ≠ 0 := by
  cases x with
  | pipe => decide
  | bg => decide
  | redir d => cases d <;> decide

lemma isWordChar_iff : isWordChar c = true ↔ isspace c = false ∧ special? c = none := by
  simp [isWordChar, isspec]

lemma tokens_space (h : isspace c = true) (s : List UInt8) : tokens (c :: s) = tokens s := by
  simp [tokens, h]

lemma tokens_special {x : Special} (hspace : isspace c = false) (h : special? c = some x) (s : List UInt8) :
    tokens (c :: s) = .special x :: tokens s := by
  simp [tokens, hspace, h]

lemma tokens_dropWhile (s : List UInt8) : tokens (s.dropWhile isspace) = tokens s := by
  induction s with
  | nil => rfl
  | cons c s ih =>
    by_cases h : isspace c = true
    · rw [List.dropWhile_cons_of_pos h, ih, tokens_space h]
    · rw [List.dropWhile_cons_of_neg h]

/-- The first token of a line that starts with a word. -/
lemma tokens_word (hc : isWordChar c = true) (s : List UInt8) :
    tokens (c :: s) = .word (c :: s.takeWhile isWordChar) :: tokens (s.dropWhile isWordChar) := by
  induction s generalizing c with
  | nil =>
    obtain ⟨hspace, hspec⟩ := isWordChar_iff.mp hc
    simp [tokens, hspace, hspec]
  | cons b s ih =>
    obtain ⟨hspace, hspec⟩ := isWordChar_iff.mp hc
    by_cases hb : isWordChar b = true
    · have hrest := ih hb
      rw [tokens, hrest]
      simp [hspace, hspec, hb]
    · have hnot : isWordChar b = false := by simpa using hb
      rw [tokens]
      simp [hspace, hspec, hnot]

/-- The words among the tokens are not empty, and made of characters of the line. -/
lemma word_of_mem_tokens {s w : List UInt8} (h : .word w ∈ tokens s) :
    w ≠ [] ∧ ∀ c ∈ w, isWordChar c = true ∧ c ∈ s := by
  -- the induction is on the length of the line, since a word is taken off as a whole
  generalize hn : s.length = n
  induction n using Nat.strongRecOn generalizing s with
  | ind n ih =>
    cases s with
    | nil => cases h
    | cons c s =>
      have hlen : s.length < n := by
        rw [← hn, List.length_cons]
        omega
      have hsub : ∀ t : List UInt8, t.length ≤ s.length → (∀ b ∈ t, b ∈ s) → .word w ∈ tokens t →
          w ≠ [] ∧ ∀ b ∈ w, isWordChar b = true ∧ b ∈ c :: s := by
        intro t ht hts hmem
        obtain ⟨hne, hall⟩ := ih t.length (by omega) hmem rfl
        exact ⟨hne, fun b hb => ⟨(hall b hb).1, List.mem_cons_of_mem c (hts b (hall b hb).2)⟩⟩
      cases hspace : isspace c with
      | true =>
        rw [tokens_space hspace] at h
        exact hsub s (Nat.le_refl _) (fun b hb => hb) h
      | false =>
        cases hspec : special? c with
        | some x =>
          rw [tokens_special hspace hspec] at h
          rcases List.mem_cons.mp h with h | h
          · cases h
          · exact hsub s (Nat.le_refl _) (fun b hb => hb) h
        | none =>
          have hc := isWordChar_iff.mpr ⟨hspace, hspec⟩
          rw [tokens_word hc] at h
          rcases List.mem_cons.mp h with h | h
          · obtain rfl := Token.word.inj h
            refine ⟨by simp, fun b hb => ?_⟩
            rcases List.mem_cons.mp hb with rfl | hb
            · exact ⟨hc, List.mem_cons_self⟩
            · have htake := List.takeWhile_subset _ hb
              exact ⟨List.mem_takeWhile_imp hb, List.mem_cons_of_mem c htake⟩
          · exact hsub _ (List.length_dropWhile_le _ _) (fun b hb => List.dropWhile_subset _ hb) h

/-! ## Command lines -/

/-- A redirection: `<` or `>` and a file name. -/
structure Redir where
  dir : Dir
  file : List UInt8
  legal : file.all isIdChar = true

/-- A program with its redirections. -/
structure Stage where
  words : List (List UInt8)
  redirs : List Redir
  nonempty : words ≠ []

def Redir.tokens (r : Redir) : List Token :=
  [.special (.redir r.dir), .word r.file]

def Stage.tokens (st : Stage) : List Token :=
  st.words.map .word ++ st.redirs.flatMap Redir.tokens

/-- The files a direction is redirected to. -/
def filesOf (d : Dir) (rs : List Redir) : List (List UInt8) :=
  (rs.filter fun r => r.dir = d).map Redir.file

def filesIn (d : Dir) (stages : List Stage) : List (List UInt8) :=
  stages.flatMap fun st => filesOf d st.redirs

/-- Programs, each followed by a `|`. -/
def closedTokens (init : List Stage) : List Token :=
  init.flatMap fun st => st.tokens ++ [.special .pipe]

/-- A command line: programs from left to right, with at most one redirection in each direction. -/
structure CommandLine where
  init : List Stage
  last : Stage
  background : Bool
  once : ∀ d, (filesIn d (init ++ [last])).length ≤ 1

namespace CommandLine

def stages (p : CommandLine) : List Stage :=
  p.init ++ [p.last]

/-- The tokens of a command line without the `&`. -/
def pipeline (p : CommandLine) : List Token :=
  closedTokens p.init ++ p.last.tokens

/-- The token sequence of a command line. -/
def tokens (p : CommandLine) : List Token :=
  p.pipeline ++ if p.background then [.special .bg] else []

/-- The file a direction is redirected to. -/
def file (p : CommandLine) (d : Dir) : Option (List UInt8) :=
  (filesIn d p.stages).head?

/-- What a command line stands for. -/
def parsed (p : CommandLine) : Parsed where
  pgm := (p.stages.map Stage.words).reverse
  rstdin := p.file .rin
  rstdout := p.file .rut
  background := p.background

end CommandLine

/-- A command line after which a redirection lacks its file name. -/
def MissingFile (ts : List Token) : Prop :=
  ∃ (p : CommandLine) (d : Dir), p.background = false ∧ p.file d = none ∧
    ts = p.tokens ++ [.special (.redir d)]

/-! ## The automaton -/

namespace Parsed

def file (c : Parsed) : Dir → Option (List UInt8)
  | .rin => c.rstdin
  | .rut => c.rstdout

def setFile (c : Parsed) (d : Dir) (f : List UInt8) : Parsed :=
  match d with
  | .rin => { c with rstdin := some f }
  | .rut => { c with rstdout := some f }

/-- One more program, to the right of the others. -/
def addPgm (c : Parsed) (ws : List (List UInt8)) : Parsed :=
  { c with pgm := ws :: c.pgm }

def empty : Parsed :=
  ⟨[], none, none, false⟩

@[simp] lemma file_setFile (c : Parsed) (d e : Dir) (f : List UInt8) :
    (c.setFile d f).file e = if e = d then some f else c.file e := by
  cases d <;> cases e <;> rfl

@[simp] lemma file_addPgm (c : Parsed) (ws : List (List UInt8)) (d : Dir) :
    (c.addPgm ws).file d = c.file d := by
  cases d <;> rfl

@[simp] lemma file_empty (d : Dir) : empty.file d = none := by
  cases d <;> rfl

@[simp] lemma setFile_pgm (c : Parsed) (d : Dir) (f : List UInt8) : (c.setFile d f).pgm = c.pgm := by
  cases d <;> rfl

@[simp] lemma setFile_background (c : Parsed) (d : Dir) (f : List UInt8) :
    (c.setFile d f).background = c.background := by
  cases d <;> rfl

lemma ext_file {c c' : Parsed} (hpgm : c.pgm = c'.pgm) (hfile : ∀ d, c.file d = c'.file d)
    (hbg : c.background = c'.background) : c = c' := by
  obtain ⟨pgm, rstdin, rstdout, background⟩ := c
  obtain ⟨pgm', rstdin', rstdout', background'⟩ := c'
  obtain rfl : pgm = pgm' := hpgm
  obtain rfl : rstdin = rstdin' := hfile .rin
  obtain rfl : rstdout = rstdout' := hfile .rut
  obtain rfl : background = background' := hbg
  rfl

end Parsed

/-- Where `parse` is between two tokens, with what it has read so far. -/
inductive Scan where
  /-- A program is due. -/
  | start (c : Parsed)
  /-- In the words of a program. -/
  | words (c : Parsed) (ws : List (List UInt8))
  /-- After a redirection. -/
  | tail (c : Parsed)
  /-- A file name is due. -/
  | file (c : Parsed) (d : Dir)
  /-- After the `&`. -/
  | done (c : Parsed)
  | failed

/-- What becomes of a line. -/
inductive Verdict where
  | accept (c : Parsed)
  | reject
  /-- The file name of a redirection is missing. -/
  | missing (c : Parsed) (d : Dir)

namespace Scan

/-- A special character after a complete program. -/
def special (c : Parsed) : Special → Scan
  | .pipe => .start c
  | .bg => .done c
  | .redir d => if (c.file d).isSome then .failed else .file c d

/-- Read one token. -/
def advance : Scan → Token → Scan
  | .start c, .word w => .words c [w]
  | .start _, .special _ => .failed
  | .words c ws, .word w => .words c (ws ++ [w])
  | .words c ws, .special x => special (c.addPgm ws) x
  | .tail _, .word _ => .failed
  | .tail c, .special x => special c x
  | .file c d, .word f => if f.all isIdChar then .tail (c.setFile d f) else .failed
  | .file _ _, .special _ => .failed
  | .done _, _ => .failed
  | .failed, _ => .failed

/-- The end of the line. -/
def verdict : Scan → Verdict
  | .start _ => .reject
  | .words c ws => .accept (c.addPgm ws)
  | .tail c => .accept c
  | .file c d => .missing c d
  | .done c => .accept { c with background := true }
  | .failed => .reject

lemma foldl_failed (ts : List Token) : ts.foldl advance failed = failed := by
  induction ts with
  | nil => rfl
  | cons tok ts ih => exact ih

end Scan

/-! ## Counting -/

/-- An amount of cells of `cmdbuf`, slots of `pbuf` and bytes of `cbuf`. -/
@[ext] structure Usage where
  cells : ℕ
  slots : ℕ
  bytes : ℕ

namespace Usage

instance : Add Usage :=
  ⟨fun a b => ⟨a.cells + b.cells, a.slots + b.slots, a.bytes + b.bytes⟩⟩

@[simp] lemma add_cells (a b : Usage) : (a + b).cells = a.cells + b.cells := rfl

@[simp] lemma add_slots (a b : Usage) : (a + b).slots = a.slots + b.slots := rfl

@[simp] lemma add_bytes (a b : Usage) : (a + b).bytes = a.bytes + b.bytes := rfl

/-- It fits into the arrays. -/
def Fits (u : Usage) : Prop :=
  u.cells ≤ 20 ∧ u.slots ≤ 50 ∧ u.bytes ≤ 256

instance (u : Usage) : Decidable u.Fits := by
  unfold Fits
  infer_instance

end Usage

/-- A token with its terminator. -/
def Token.size (tok : Token) : ℕ :=
  tok.text.length + 1

namespace Scan

/-- What reading a token takes. The token that ends the words of a program is stored twice, and the words are followed by
a NULL; a `|` takes the cell of the next program. -/
def cost : Scan → Token → Usage
  | .start _, .word w => ⟨0, 1, (Token.word w).size⟩
  | .start _, .special x => ⟨0, 1, (Token.special x).size⟩
  | .words _ _, .word w => ⟨0, 1, (Token.word w).size⟩
  | .words _ _, .special x => ⟨if x = .pipe then 1 else 0, 1, 2 * (Token.special x).size⟩
  | .tail _, .word w => ⟨0, 0, (Token.word w).size⟩
  | .tail _, .special x => ⟨if x = .pipe then 1 else 0, 0, (Token.special x).size⟩
  | .file _ _, tok => ⟨0, 0, tok.size⟩
  | .done _, tok => ⟨0, 0, tok.size⟩
  | .failed, _ => ⟨0, 0, 0⟩

/-- What the end of the line takes: the NULL of a program that ends there. -/
def endCost : Scan → Usage
  | .start _ | .words _ _ => ⟨0, 1, 0⟩
  | _ => ⟨0, 0, 0⟩

/-- What the tokens that are read take. -/
def usage (q : Scan) : List Token → Usage
  | [] => q.endCost
  | tok :: ts => q.cost tok + (q.advance tok).usage ts

lemma usage_failed (ts : List Token) : failed.usage ts = ⟨0, 0, 0⟩ := by
  induction ts with
  | nil => rfl
  | cons tok ts ih =>
    rw [usage, show failed.advance tok = failed from rfl, ih]
    rfl

end Scan

/-- What a line takes in the static arrays. -/
def usage (ts : List Token) : Usage :=
  ⟨1, 0, 0⟩ + (Scan.start .empty).usage ts

/-! ## The automaton accepts command lines -/

lemma filesIn_cons (d : Dir) (st : Stage) (stages : List Stage) :
    filesIn d (st :: stages) = filesOf d st.redirs ++ filesIn d stages := by
  simp [filesIn]

lemma filesIn_append (d : Dir) (stages stages' : List Stage) :
    filesIn d (stages ++ stages') = filesIn d stages ++ filesIn d stages' := by
  simp [filesIn]

lemma filesIn_singleton (d : Dir) (st : Stage) : filesIn d [st] = filesOf d st.redirs := by
  simp [filesIn]

/-- The redirections of a program are read one after the other. -/
lemma foldl_redirs (c : Parsed) (rs : List Redir) (hnone : ∀ d, filesOf d rs ≠ [] → c.file d = none)
    (honce : ∀ d, (filesOf d rs).length ≤ 1) :
    ∃ c' : Parsed, (rs.flatMap Redir.tokens).foldl Scan.advance (.tail c) = .tail c' ∧ c'.pgm = c.pgm ∧
      c'.background = c.background ∧ ∀ d, c'.file d = (filesOf d rs).head?.or (c.file d) := by
  induction rs generalizing c with
  | nil => exact ⟨c, rfl, rfl, rfl, fun d => rfl⟩
  | cons r rs ih =>
    have hfiles : ∀ d, filesOf d (r :: rs) = (if r.dir = d then [r.file] else []) ++ filesOf d rs := by
      intro d
      by_cases hd : r.dir = d <;> simp [filesOf, hd]
    have hfree : c.file r.dir = none := hnone r.dir (by simp [hfiles])
    have hempty : filesOf r.dir rs = [] := by
      have hlen := honce r.dir
      rw [hfiles, if_pos rfl, List.length_append, List.length_singleton] at hlen
      exact List.eq_nil_of_length_eq_zero (by omega)
    have hnone' : ∀ d, filesOf d rs ≠ [] → (c.setFile r.dir r.file).file d = none := by
      intro d hd
      have hne : d ≠ r.dir := by
        rintro rfl
        exact hd hempty
      rw [Parsed.file_setFile, if_neg hne]
      apply hnone d
      rw [hfiles]
      simp [hd]
    have honce' : ∀ d, (filesOf d rs).length ≤ 1 := by
      intro d
      have hlen := honce d
      rw [hfiles, List.length_append] at hlen
      omega
    obtain ⟨c', hfold, hpgm, hbg, hfile⟩ := ih (c.setFile r.dir r.file) hnone' honce'
    refine ⟨c', ?_, by simpa using hpgm, by simpa using hbg, fun d => ?_⟩
    · rw [← hfold]
      simp [Redir.tokens, Scan.advance, Scan.special, hfree, r.legal]
    · rw [hfile d, hfiles]
      by_cases hd : d = r.dir
      · simp [hd, hempty]
      · have hd' : r.dir ≠ d := fun h => hd h.symm
        simp [hd, hd']

lemma foldl_words (c : Parsed) (ws vs : List (List UInt8)) :
    (vs.map Token.word).foldl Scan.advance (.words c ws) = .words c (ws ++ vs) := by
  induction vs generalizing ws with
  | nil => simp
  | cons v vs ih =>
    rw [List.map_cons, List.foldl_cons, show Scan.advance (.words c ws) (.word v) = .words c (ws ++ [v]) from rfl,
      ih]
    simp

/-- A complete program: its words, or its words and redirections. -/
def Scan.Complete (q : Scan) (c : Parsed) : Prop :=
  q = .tail c ∨ ∃ c₀ ws, q = .words c₀ ws ∧ c₀.addPgm ws = c

variable {q : Scan} {c : Parsed}

lemma Scan.Complete.advance_special (h : q.Complete c) (x : Special) :
    q.advance (.special x) = .special c x := by
  rcases h with rfl | ⟨c₀, ws, rfl, rfl⟩
  · rfl
  · rfl

lemma Scan.Complete.verdict (h : q.Complete c) : q.verdict = .accept c := by
  rcases h with rfl | ⟨c₀, ws, rfl, rfl⟩
  · rfl
  · rfl

lemma foldl_stage (c : Parsed) (st : Stage) (hnone : ∀ d, filesOf d st.redirs ≠ [] → c.file d = none)
    (honce : ∀ d, (filesOf d st.redirs).length ≤ 1) :
    ∃ c' : Parsed, (st.tokens.foldl Scan.advance (.start c)).Complete c' ∧ c'.pgm = st.words :: c.pgm ∧
      c'.background = c.background ∧ ∀ d, c'.file d = (filesOf d st.redirs).head?.or (c.file d) := by
  obtain ⟨words, redirs, hne⟩ := st
  obtain ⟨w, ws, rfl⟩ := List.exists_cons_of_ne_nil hne
  have hwords : ((w :: ws).map Token.word).foldl Scan.advance (.start c) = .words c (w :: ws) := by
    rw [List.map_cons, List.foldl_cons, show Scan.advance (.start c) (.word w) = .words c [w] from rfl, foldl_words]
    rfl
  rw [Stage.tokens, List.foldl_append, hwords]
  cases redirs with
  | nil => exact ⟨c.addPgm (w :: ws), Or.inr ⟨c, w :: ws, rfl, rfl⟩, rfl, rfl, fun d => by simp [filesOf]⟩
  | cons r rs =>
    obtain ⟨c', hfold, hpgm, hbg, hfile⟩ := foldl_redirs (c.addPgm (w :: ws)) (r :: rs)
      (fun d hd => by simpa using hnone d hd) honce
    -- a special character is read the same way after words as after a redirection
    exact ⟨c', Or.inl hfold, hpgm, hbg, fun d => by simpa using hfile d⟩

/-- Programs with a `|` between them are read one after the other. -/
lemma foldl_stages (init : List Stage) (last : Stage) (c : Parsed)
    (honce : ∀ d, (filesIn d (init ++ [last])).length ≤ 1)
    (hnone : ∀ d, filesIn d (init ++ [last]) ≠ [] → c.file d = none) :
    ∃ c' : Parsed, ((closedTokens init ++ last.tokens).foldl Scan.advance (.start c)).Complete c' ∧
      c'.pgm = ((init ++ [last]).map Stage.words).reverse ++ c.pgm ∧ c'.background = c.background ∧
      ∀ d, c'.file d = (filesIn d (init ++ [last])).head?.or (c.file d) := by
  induction init generalizing c with
  | nil =>
    simp only [List.nil_append, filesIn_singleton] at honce hnone ⊢
    obtain ⟨c', hcomplete, hpgm, hbg, hfile⟩ := foldl_stage c last hnone honce
    exact ⟨c', by simpa [closedTokens] using hcomplete, by simpa using hpgm, hbg, hfile⟩
  | cons st init ih =>
    simp only [List.cons_append, filesIn_cons, List.length_append] at honce hnone ⊢
    -- what is redirected in the first program is not redirected in the others
    have hempty : ∀ d, filesIn d (init ++ [last]) ≠ [] → filesOf d st.redirs = [] := by
      intro d hd
      have hpos := List.length_pos_of_ne_nil hd
      have hlen := honce d
      exact List.eq_nil_of_length_eq_zero (by omega)
    obtain ⟨c₁, hcomplete, hpgm, hbg, hfile⟩ := foldl_stage c st (fun d hd => hnone d (by simp [hd]))
      fun d => Nat.le_trans (Nat.le_add_right _ _) (honce d)
    obtain ⟨c', hcomplete', hpgm', hbg', hfile'⟩ := ih c₁
      (fun d => Nat.le_trans (Nat.le_add_left _ _) (honce d)) fun d hd => by
        rw [hfile d, hempty d hd, hnone d (by simp [hd])]
        rfl
    refine ⟨c', ?_, ?_, hbg'.trans hbg, fun d => ?_⟩
    · rw [closedTokens, List.flatMap_cons, List.append_assoc, List.append_assoc, List.foldl_append,
        List.foldl_append, List.foldl_cons, List.foldl_nil, hcomplete.advance_special]
      exact hcomplete'
    · rw [hpgm', hpgm]
      simp
    · rw [hfile' d, hfile d]
      by_cases hd : filesIn d (init ++ [last]) = []
      · simp [hd]
      · simp [hempty d hd]

/-- The tokens of a command line, without its `&`, lead to what it stands for. -/
lemma scan_pipeline (p : CommandLine) :
    (p.pipeline.foldl Scan.advance (.start .empty)).Complete { p.parsed with background := false } := by
  obtain ⟨c', hcomplete, hpgm, hbg, hfile⟩ := foldl_stages p.init p.last .empty p.once
    fun d _ => Parsed.file_empty d
  have heq : c' = { p.parsed with background := false } := by
    refine Parsed.ext_file ?_ (fun d => ?_) hbg
    · rw [hpgm]
      simp [CommandLine.parsed, CommandLine.stages, Parsed.empty]
    · rw [hfile d, Parsed.file_empty, Option.or_none]
      cases d <;> rfl
  rw [← heq]
  exact hcomplete

lemma scan_tokens (p : CommandLine) :
    (p.tokens.foldl Scan.advance (.start .empty)).verdict = .accept p.parsed := by
  have hcomplete := scan_pipeline p
  unfold CommandLine.tokens
  cases hbg : p.background with
  | false =>
    rw [if_neg (by simp), List.append_nil, hcomplete.verdict]
    congr 1
    rw [← hbg]
    rfl
  | true =>
    rw [if_pos rfl, List.foldl_append, List.foldl_cons, hcomplete.advance_special]
    simp only [Scan.verdict]
    rw [← hbg]
    rfl

/-! ## The automaton accepts nothing else -/

/-- What is known about the tokens that lead to a state of the automaton. -/
def Scan.Reads (ts : List Token) : Scan → Prop
  | .start c => ∃ init : List Stage, ts = closedTokens init ∧ c.background = false ∧
      c.pgm = (init.map Stage.words).reverse ∧
      ∀ d, filesIn d init = (c.file d).toList
  | .words c ws => ws ≠ [] ∧ ∃ init : List Stage, ts = closedTokens init ++ ws.map .word ∧ c.background = false ∧
      c.pgm = (init.map Stage.words).reverse ∧
      ∀ d, filesIn d init = (c.file d).toList
  | .tail c => ∃ p : CommandLine, p.background = false ∧ ts = p.tokens ∧ p.parsed = c
  | .file c d => ∃ p : CommandLine, p.background = false ∧ ts = p.tokens ++ [.special (.redir d)] ∧ p.parsed = c ∧
      c.file d = none
  | .done c => ∃ p : CommandLine, p.background = true ∧ ts = p.tokens ∧ p.parsed = { c with background := true }
  | .failed => True

lemma CommandLine.parsed_file (p : CommandLine) (d : Dir) : p.parsed.file d = p.file d := by
  cases d <;> rfl

lemma CommandLine.filesIn_eq (p : CommandLine) (d : Dir) : filesIn d p.stages = (p.file d).toList := by
  have honce : (filesIn d p.stages).length ≤ 1 := p.once d
  unfold CommandLine.file
  cases hfiles : filesIn d p.stages with
  | nil => rfl
  | cons f fs =>
    rw [hfiles, List.length_cons] at honce
    have hnil : fs = [] := List.eq_nil_of_length_eq_zero (by omega)
    simp [hnil]

/-- The words of a program complete a command line. -/
lemma exists_commandLine {init : List Stage} {ws : List (List UInt8)} (hws : ws ≠ [])
    (hbg : c.background = false) (hpgm : c.pgm = (init.map Stage.words).reverse)
    (hfiles : ∀ d, filesIn d init = (c.file d).toList) :
    ∃ p : CommandLine, p.background = false ∧ p.tokens = closedTokens init ++ ws.map .word ∧
      p.parsed = c.addPgm ws := by
  have hfiles' : ∀ d, filesIn d (init ++ [⟨ws, [], hws⟩]) = (c.file d).toList := by
    intro d
    rw [filesIn_append, filesIn_singleton, hfiles d]
    simp [filesOf]
  refine ⟨⟨init, ⟨ws, [], hws⟩, false, fun d => ?_⟩, rfl, ?_, Parsed.ext_file ?_ (fun d => ?_) hbg.symm⟩
  · rw [hfiles' d]
    exact Option.length_toList_le
  · simp [CommandLine.tokens, CommandLine.pipeline, Stage.tokens]
  · simp [CommandLine.parsed, CommandLine.stages, Parsed.addPgm, hpgm]
  · rw [CommandLine.parsed_file, CommandLine.file, CommandLine.stages, hfiles' d, Parsed.file_addPgm]
    cases c.file d <;> rfl

/-- A special character after a command line. -/
lemma Scan.reads_special {p : CommandLine} (hbg : p.background = false) (x : Special) :
    (Scan.special p.parsed x).Reads (p.tokens ++ [.special x]) := by
  have htokens : p.tokens = p.pipeline := by simp [CommandLine.tokens, hbg]
  cases x with
  | pipe =>
    refine ⟨p.stages, ?_, hbg, rfl, fun d => ?_⟩
    · rw [htokens]
      simp [closedTokens, CommandLine.pipeline, CommandLine.stages]
    · rw [CommandLine.parsed_file]
      exact p.filesIn_eq d
  | bg => exact ⟨⟨p.init, p.last, true, p.once⟩, rfl, by rw [htokens]; rfl, rfl⟩
  | redir d =>
    simp only [Scan.special]
    by_cases hd : (p.parsed.file d).isSome = true
    · rw [if_pos hd]
      trivial
    · rw [if_neg hd]
      exact ⟨p, hbg, rfl, rfl, by simpa using hd⟩

/-- A file name after a command line that lacks one. -/
lemma exists_redirected {p : CommandLine} {d : Dir} {f : List UInt8} (hbg : p.background = false)
    (hnone : p.parsed.file d = none) (hf : f.all isIdChar = true) :
    ∃ p' : CommandLine, p'.background = false ∧
      p'.tokens = p.tokens ++ [.special (.redir d), .word f] ∧ p'.parsed = p.parsed.setFile d f := by
  obtain ⟨init, last, background, once⟩ := p
  obtain rfl : background = false := hbg
  let last' : Stage := ⟨last.words, last.redirs ++ [⟨d, f, hf⟩], last.nonempty⟩
  let p : CommandLine := ⟨init, last, false, once⟩
  have hfiles : ∀ e, filesIn e (init ++ [last']) = (p.file e).toList ++ (if d = e then [f] else []) := by
    intro e
    have hlast : filesOf e last'.redirs = filesOf e last.redirs ++ (if d = e then [f] else []) := by
      by_cases he : d = e <;> simp [filesOf, last', he]
    have hbefore := p.filesIn_eq e
    simp only [CommandLine.stages, filesIn_append, filesIn_singleton] at hbefore ⊢
    rw [hlast, ← List.append_assoc, hbefore]
  have hnone' : p.file d = none := by
    rw [← CommandLine.parsed_file]
    exact hnone
  have honce : ∀ e, (filesIn e (init ++ [last'])).length ≤ 1 := by
    intro e
    rw [hfiles]
    by_cases he : d = e
    · rw [← he, hnone']
      simp
    · rw [if_neg he, List.append_nil]
      exact Option.length_toList_le
  refine ⟨⟨init, last', false, honce⟩, rfl, ?_, Parsed.ext_file ?_ (fun e => ?_) ?_⟩
  · simp [CommandLine.tokens, CommandLine.pipeline, Stage.tokens, Redir.tokens, last']
  · simp [CommandLine.parsed, CommandLine.stages, last']
  · rw [CommandLine.parsed_file, CommandLine.file, CommandLine.stages, hfiles, Parsed.file_setFile,
      CommandLine.parsed_file]
    by_cases he : d = e
    · rw [← he, hnone']
      simp
    · have he' : ¬e = d := fun h => he h.symm
      simp [he, he', p]
  · simp [CommandLine.parsed]

/-- One token keeps what is known. -/
lemma Scan.Reads.advance (h : q.Reads ts) (tok : Token) : (q.advance tok).Reads (ts ++ [tok]) := by
  cases q with
  | start c =>
    cases tok with
    | word w =>
      obtain ⟨init, rfl, hbg, hpgm, hfiles⟩ := h
      exact ⟨by simp, init, rfl, hbg, hpgm, hfiles⟩
    | special x => trivial
  | words c ws =>
    obtain ⟨hws, init, rfl, hbg, hpgm, hfiles⟩ := h
    cases tok with
    | word w => exact ⟨by simp, init, by simp, hbg, hpgm, hfiles⟩
    | special x =>
      obtain ⟨p, hp, htokens, hparsed⟩ := exists_commandLine hws hbg hpgm hfiles
      have hreads := Scan.reads_special hp x
      rw [htokens, hparsed] at hreads
      exact hreads
  | tail c =>
    cases tok with
    | word w => trivial
    | special x =>
      obtain ⟨p, hp, rfl, rfl⟩ := h
      exact Scan.reads_special hp x
  | file c d =>
    cases tok with
    | word f =>
      obtain ⟨p, hp, rfl, rfl, hnone⟩ := h
      simp only [Scan.advance]
      by_cases hf : f.all isIdChar = true
      · rw [if_pos hf]
        obtain ⟨p', hp', htokens, hparsed⟩ := exists_redirected hp hnone hf
        exact ⟨p', hp', by rw [htokens]; simp, hparsed⟩
      · rw [if_neg hf]
        trivial
    | special x => trivial
  | done c => trivial
  | failed => trivial

lemma scan_reads (ts : List Token) : (ts.foldl Scan.advance (.start .empty)).Reads ts := by
  induction ts using List.reverseRecOn with
  | nil => exact ⟨[], rfl, rfl, rfl, fun d => by simp [filesIn]⟩
  | append_singleton ts tok ih =>
    rw [List.foldl_append]
    exact ih.advance tok

/-- The automaton accepts command lines only. -/
lemma exists_of_accept (h : (ts.foldl Scan.advance (.start .empty)).verdict = .accept c) :
    ∃ p : CommandLine, ts = p.tokens ∧ p.parsed = c := by
  have hreads := scan_reads ts
  generalize ts.foldl Scan.advance (.start .empty) = q at h hreads
  cases q with
  | start c' => cases h
  | words c' ws =>
    obtain rfl := Verdict.accept.inj h
    obtain ⟨hws, init, rfl, hbg, hpgm, hfiles⟩ := hreads
    obtain ⟨p, _, htokens, hparsed⟩ := exists_commandLine hws hbg hpgm hfiles
    exact ⟨p, htokens.symm, hparsed⟩
  | tail c' =>
    obtain rfl := Verdict.accept.inj h
    obtain ⟨p, _, htokens, hparsed⟩ := hreads
    exact ⟨p, htokens, hparsed⟩
  | file c' d => cases h
  | done c' =>
    obtain rfl := Verdict.accept.inj h
    obtain ⟨p, _, htokens, hparsed⟩ := hreads
    exact ⟨p, htokens, hparsed⟩
  | failed => cases h

/-- A file name is missing exactly in the lines that are complete up to a redirection at their end. -/
lemma missing_iff :
    (∃ c d, (ts.foldl Scan.advance (.start .empty)).verdict = .missing c d) ↔ MissingFile ts := by
  constructor
  · rintro ⟨c, d, h⟩
    have hreads := scan_reads ts
    generalize ts.foldl Scan.advance (.start .empty) = q at h hreads
    cases q with
    | start c' => cases h
    | words c' ws => cases h
    | tail c' => cases h
    | file c' d' =>
      obtain ⟨p, hp, htokens, rfl, hnone⟩ := hreads
      exact ⟨p, d', hp, by rw [← CommandLine.parsed_file]; exact hnone, htokens⟩
    | done c' => cases h
    | failed => cases h
  · rintro ⟨p, d, hp, hnone, rfl⟩
    have hcomplete := scan_pipeline p
    have htokens : p.tokens = p.pipeline := by simp [CommandLine.tokens, hp]
    refine ⟨{ p.parsed with background := false }, d, ?_⟩
    rw [htokens, List.foldl_append, List.foldl_cons, hcomplete.advance_special]
    have hfile : Parsed.file { p.parsed with background := false } d = none := by
      cases d <;> exact hnone
    simp [Scan.special, hfile, Scan.verdict]

end OsLabs.Lsh.Parser
