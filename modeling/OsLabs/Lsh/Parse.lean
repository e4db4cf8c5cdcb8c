import OsLabs.Lib.CString
import OsLabs.Lib.Machine
import Mathlib.Data.Int.Notation

/-!
# The parser of command lines

`parse.c`. The parser copies the tokens of a line one after the other into the static array `cbuf`, with a terminator
after each. `pbuf` holds the argument vectors, pointers into `cbuf` with a NULL after the arguments of each program, and
`cmdbuf` the list cells of the programs. A pointer into one of the arrays is an index here. A store outside of
its array, a NULL `cmds` that is followed and a read past the end of `cbuf` are faults.

The cursors start at the beginning of the arrays for each line, but the arrays keep what earlier lines left in them.
`readline` returns lines shorter than `INT_MAX`, so the counts of characters do not overflow.
-/

namespace OsLabs.Lsh.Parser

open Lib Function

/-! ## Characters -/

/-- `isspace`, in the C locale. -/
def isspace (c : UInt8) : Bool :=
  c == ' '.toUInt8 || (9 ≤ c && c ≤ 13)

/-- `isalnum`, in the C locale. -/
def isalnum (c : UInt8) : Bool :=
  ('0'.toUInt8 ≤ c && c ≤ '9'.toUInt8) || ('A'.toUInt8 ≤ c && c ≤ 'Z'.toUInt8) ||
    ('a'.toUInt8 ≤ c && c ≤ 'z'.toUInt8)

/-- The two redirections, `RIN` and `RUT`. -/
inductive Dir where
  | rin
  | rut
deriving DecidableEq

/-- The characters that are tokens of their own. -/
inductive Special where
  | pipe
  | bg
  | redir (d : Dir)
deriving DecidableEq

def Special.char : Special → UInt8
  | .pipe => '|'.toUInt8
  | .bg => '&'.toUInt8
  | .redir .rin => '<'.toUInt8
  | .redir .rut => '>'.toUInt8

/-- The `switch` over the special characters. -/
def special? (c : UInt8) : Option Special :=
  if c = Special.pipe.char then some .pipe
  else if c = Special.bg.char then some .bg
  else if c = (Special.redir .rin).char then some (.redir .rin)
  else if c = (Special.redir .rut).char then some (.redir .rut)
  else none

/-- `isspec`. -/
def isspec (c : UInt8) : Bool :=
  (special? c).isSome

/-- `IDCHARS`. -/
def idchars : List UInt8 :=
  ['_', '-', '.', ',', '/', '~', '+'].map Char.toUInt8

/-- The characters `isidentifier` lets through. -/
def isIdChar (c : UInt8) : Bool :=
  isalnum c || idchars.contains c

/-! ## The static arrays -/

/-- `struct c`: the arguments of a program as an index into `pbuf`, and the next cell as an index into `cmdbuf`. -/
structure Pgm where
  pgmlist : ℕ
  next : Option ℕ

/-- The static variables. A NULL pointer in `pbuf` is `none`. -/
structure Static where
  cmdbuf : ℕ → Pgm
  cmds : Option ℕ
  cbuf : ℕ → UInt8
  cp : ℕ
  pbuf : ℕ → Option ℕ
  pp : ℕ

/-- What goes wrong in memory. -/
inductive Fault where
  /-- A store past the 256 bytes of `cbuf`. -/
  | cbuf
  /-- A store past the 50 slots of `pbuf`. -/
  | pbuf
  /-- A store past the 20 cells of `cmdbuf`. -/
  | cmdbuf
  /-- `cmds` is NULL and is followed. -/
  | cmds
  /-- A read past the 256 bytes of `cbuf`. -/
  | overread
deriving DecidableEq

namespace Static

/-- `*cp++ = c`. -/
def putChar (st : Static) (c : UInt8) : Except Fault Static :=
  if st.cp < 256 then .ok { st with cbuf := update st.cbuf st.cp c, cp := st.cp + 1 }
  else .error .cbuf

/-- `--cp`. -/
def back (st : Static) : Static :=
  { st with cp := st.cp - 1 }

/-- `*pp++ = arg`. -/
def putArg (st : Static) (arg : Option ℕ) : Except Fault Static :=
  if st.pp < 50 then .ok { st with pbuf := update st.pbuf st.pp arg, pp := st.pp + 1 }
  else .error .pbuf

/-- A store to the cell `k`. -/
def putCell (st : Static) (k : ℕ) (cell : Pgm) : Except Fault Static :=
  if k < 20 then .ok { st with cmdbuf := update st.cmdbuf k cell }
  else .error .cmdbuf

/-- `init`: the cells are chained again, the characters and pointers stay. -/
def init (st : Static) : Static where
  cmdbuf i := { st.cmdbuf i with next := if i < 19 then some (i + 1) else none }
  cmds := some 0
  cbuf := st.cbuf
  cp := 0
  pbuf := st.pbuf
  pp := 0

/-- The static variables when the program starts. -/
def zero : Static where
  cmdbuf _ := ⟨0, none⟩
  cmds := none
  cbuf _ := 0
  cp := 0
  pbuf _ := none
  pp := 0

end Static

/-! ## Tokens -/

/-- The loop of `nexttoken` that copies a word up to the character that ends it, and what follows the loop. The result is
what is left of the line. -/
def copyWord : List UInt8 → Static → Except Fault (List UInt8 × Static)
  | [], st => do
    let st ← st.putChar 0
    let st ← st.back.putChar 0
    return ([], st)
  | c :: s, st => do
    let st ← st.putChar c
    if isspace c || isspec c then
      let st ← st.back.putChar 0
      return (c :: s, st)
    else copyWord s st

/-- `nexttoken`: the number of characters read, 0 at the end of the line, and the index of the token in `cbuf`. At the
end of the line nothing is stored there. -/
def nexttoken (s : List UInt8) (st : Static) : Except Fault (ℕ × ℕ × Static) :=
  let tok := st.cp
  match s.dropWhile isspace with
  | [] => return (0, tok, st)
  | c :: rest => do
    let st ← st.putChar c
    if isspec c then
      let st ← st.putChar 0
      return (s.length - rest.length, tok, st)
    else
      let (rest, st) ← copyWord rest st
      return (s.length - rest.length, tok, st)

/-- The loop of `acmd`, at its label `next`. A token has at least one character, so the length of the line bounds the
number of rounds. -/
def acmdLoop : ℕ → List UInt8 → ℕ → Static → Except Fault (ℕ × Static)
  | 0, _, cnt, st => do
    let st ← st.putArg none
    return (cnt, st)
  | fuel + 1, s, cnt, st => do
    let (n, tok, st) ← nexttoken s st
    if n = 0 || isspec (st.cbuf tok) then
      let st ← st.putArg none
      return (cnt, st)
    else
      let st ← st.putArg (some tok)
      acmdLoop fuel (s.drop n) (cnt + n) st

/-- `acmd`: the number of characters of the words it read, and the cell of the program. The character that ends the words
is not counted, so `parse` reads it again. -/
def acmd (s : List UInt8) (st : Static) : Except Fault (ℕ × ℕ × Static) :=
  match st.cmds with
  | none => .error .cmds
  | some cmd0 => do
    let st := { st with cmds := (st.cmdbuf cmd0).next }
    let st ← st.putCell cmd0 ⟨st.pp, none⟩
    let (cnt, st) ← acmdLoop s.length s 0 st
    return (cnt, cmd0, st)

/-- The loop of `isidentifier`, from the character at `i` on. -/
def isidentifierLoop (cbuf : ℕ → UInt8) : ℕ → ℕ → Except Fault Bool
  | 0, _ => .error .overread
  | n + 1, i =>
    if cbuf i = 0 then .ok true
    else if isIdChar (cbuf i) then isidentifierLoop cbuf n (i + 1)
    else .ok false

/-- `isidentifier`, for a string in `cbuf`. -/
def isidentifier (cbuf : ℕ → UInt8) (i : ℕ) : Except Fault Bool :=
  isidentifierLoop cbuf (256 - i) i

/-! ## Commands -/

/-- `struct node`, without the field `rstderr`, which is always NULL. -/
structure Command where
  pgm : Option ℕ
  rstdin : Option ℕ
  rstdout : Option ℕ
  background : Bool

/-- The file of a redirection. -/
def Command.file (c : Command) : Dir → Option ℕ
  | .rin => c.rstdin
  | .rut => c.rstdout

def Command.setFile (c : Command) (d : Dir) (tok : ℕ) : Command :=
  match d with
  | .rin => { c with rstdin := some tok }
  | .rut => { c with rstdout := some tok }

/-- What `parse` prints on stderr. -/
inductive Message where
  /-- "illegal bakgrounding" -/
  | illegalBackgrounding
  /-- "duplicate redirection of stdin", or of stdout. -/
  | duplicateRedirection (d : Dir)
  /-- "Illegal filename", with the name. -/
  | illegalFilename (name : List UInt8)
deriving DecidableEq

/-- The result of `parse`, with the command it filled in. -/
structure Return where
  code : ℤ
  command : Command
  static : Static
  message : Option Message

/-- The string at index `i` of `cbuf`. -/
def Static.string (st : Static) (i : ℕ) : List UInt8 :=
  readString st.cbuf (256 - i) i

/-- The statements at the label `newcmd`, up to the test of `n`. -/
def newcmd (t : List UInt8) (c : Command) (st : Static) : Except Fault (ℕ × Command × Static) := do
  let (n, cmd0, st) ← acmd t st
  if n = 0 then return (0, c, st)
  else
    let st ← st.putCell cmd0 { st.cmdbuf cmd0 with next := c.pgm }
    return (n, { c with pgm := some cmd0 }, st)

/-- The statements at the label `newtoken`. Each round reads a token, so the length of the line bounds the number of
rounds. -/
def newtoken : ℕ → List UInt8 → Command → Static → Except Fault Return
  | 0, _, c, st => return ⟨1, c, st, none⟩
  | fuel + 1, t, c, st => do
    let (n, tok, st) ← nexttoken t st
    if n = 0 then return ⟨1, c, st, none⟩
    else
      let t := t.drop n
      match special? (st.cbuf tok) with
      | some .pipe =>
        let (n, c, st) ← newcmd t c st
        if n = 0 then return ⟨-1, c, st, none⟩
        else newtoken fuel (t.drop n) c st
      | some .bg =>
        let (n, _, st) ← nexttoken t st
        if n = 0 then return ⟨1, { c with background := true }, st, none⟩
        else return ⟨-1, c, st, some .illegalBackgrounding⟩
      | some (.redir d) =>
        if (c.file d).isSome then return ⟨-1, c, st, some (.duplicateRedirection d)⟩
        else
          -- at the end of the line the file name is whatever an earlier line left at `cp`
          let (n, tok, st) ← nexttoken t st
          let c := c.setFile d tok
          if ← isidentifier st.cbuf tok then newtoken fuel (t.drop n) c st
          else return ⟨-1, c, st, some (.illegalFilename (st.string tok))⟩
      | none => return ⟨-1, c, st, none⟩

/-- `parse`. -/
def parse (st : Static) (buf : CStr) : Except Fault Return := do
  let t := buf.chars
  let (n, c, st) ← newcmd t ⟨none, none, none, false⟩ st.init
  if n = 0 then return ⟨-1, c, st, none⟩
  else newtoken (t.drop n).length (t.drop n) c st

/-! ## Reading the result -/

/-- A command with its strings, the rightmost program first. -/
structure Parsed where
  pgm : List (List (List UInt8))
  rstdin : Option (List UInt8)
  rstdout : Option (List UInt8)
  background : Bool
deriving DecidableEq

/-- The arguments from index `j` of `pbuf` up to the NULL. -/
def Static.args (st : Static) : ℕ → ℕ → List (List UInt8)
  | 0, _ => []
  | n + 1, j =>
    match st.pbuf j with
    | none => []
    | some i => st.string i :: st.args n (j + 1)

/-- The programs of a list of cells. -/
def Static.pgms (st : Static) : ℕ → Option ℕ → List (List (List UInt8))
  | 0, _ => []
  | _ + 1, none => []
  | n + 1, some k => st.args 50 (st.cmdbuf k).pgmlist :: st.pgms n (st.cmdbuf k).next

/-- What the caller of `parse` reads through the pointers of the command. -/
def Return.parsed (r : Return) : Parsed where
  pgm := r.static.pgms 20 r.command.pgm
  rstdin := r.command.rstdin.map r.static.string
  rstdout := r.command.rstdout.map r.static.string
  background := r.command.background

/-- The shell parses one line after the other. A line that goes outside of the arrays ends the run. -/
def parseMachine : Machine Static CStr where
  Init st := st = .zero
  step st buf := (parse st buf).toOption.map Return.static

end OsLabs.Lsh.Parser
