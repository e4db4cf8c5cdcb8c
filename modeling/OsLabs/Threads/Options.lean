import Mathlib.Algebra.Group.Int.Defs
import Mathlib.Algebra.Group.Nat.Defs
import Mathlib.Data.List.TakeWhile
import OsLabs.Lib.Yields
import OsLabs.LibC.Random

/-!
# The options of the kernel

`parse_options` of `threads/init.c`, with `strtok_r` and `atoi`. The boot has a reading of the real-time clock.

`seed_option_reproduces`: `random_init` with the clock comes after the options, and starts the generator again. The stream is
that of the option `-rs` only if the clock happens to give the same state.
-/

namespace OsLabs.Threads

open Lib LibC

/-! ## The model -/

/-- `strtok_r`: the token, and what is left. -/
def strtok (delimiters : List UInt8) (s : List UInt8) : Option (List UInt8) × List UInt8 :=
  match s.dropWhile (· ∈ delimiters) with
  | [] => (none, [])
  | s => (some (s.takeWhile (· ∉ delimiters)), (s.dropWhile (· ∉ delimiters)).drop 1)

/-- The digits that `atoi` reads, as a number that is not positive. -/
def atoiDigits (value : ℤ) : List UInt8 → ℤ
  | [] => value
  | c :: s => if 48 ≤ c ∧ c ≤ 57 then atoiDigits (Int.bmod (value * 10 - (c.toNat - 48)) (2 ^ 32)) s else value

/-- `atoi`. -/
def atoi (s : List UInt8) : ℤ :=
  match s.dropWhile fun c => c = 32 ∨ 9 ≤ c ∧ c ≤ 13 with
  | 43 :: s => Int.bmod (-atoiDigits 0 s) (2 ^ 32)
  | 45 :: s => atoiDigits 0 s
  | s => Int.bmod (-atoiDigits 0 s) (2 ^ 32)

/-- Which parts of the kernel are built. -/
structure Build where
  filesys : Bool
  vm : Bool
  userprog : Bool

/-- `enum shutdown_type`. -/
inductive ShutdownType where
  | none
  | powerOff
  | reboot

/-- What the options set, with the state of the generator. -/
structure Options where
  shutdown : ShutdownType
  formatFilesys : Bool
  filesysBdevName : Option (List UInt8)
  scratchBdevName : Option (List UInt8)
  swapBdevName : Option (List UInt8)
  mlfqs : Bool
  userPageLimit : ℕ
  random : Generator

/-- The ways in which `parse_options` does not return. -/
inductive OptionsStop where
  /-- `-h`. -/
  | usage
  | unknownOption (name : List UInt8)
  /-- An assertion of `atoi` or `strcmp`, on NULL. -/
  | null

/-- `atoi` of a value that may be missing. -/
def atoiValue : Option (List UInt8) → Except OptionsStop ℤ
  | some value => .ok (atoi value)
  | none => .error .null

/-- One option: the chain of `strcmp` in `parse_options`. -/
def setOption (b : Build) (o : Options) (name : List UInt8) (value : Option (List UInt8)) : Except OptionsStop Options :=
  -- `-h`, `-q` and `-r`
  if name = [45, 104] then .error .usage
  else if name = [45, 113] then .ok { o with shutdown := .powerOff }
  else if name = [45, 114] then .ok { o with shutdown := .reboot }
  -- `-f`, `-filesys`, `-scratch` and `-swap`
  else if b.filesys ∧ name = [45, 102] then .ok { o with formatFilesys := true }
  else if b.filesys ∧ name = [45, 102, 105, 108, 101, 115, 121, 115] then .ok { o with filesysBdevName := value }
  else if b.filesys ∧ name = [45, 115, 99, 114, 97, 116, 99, 104] then .ok { o with scratchBdevName := value }
  else if b.filesys ∧ b.vm ∧ name = [45, 115, 119, 97, 112] then .ok { o with swapBdevName := value }
  -- `-rs`
  else if name = [45, 114, 115] then do
    let seed ← atoiValue value
    return { o with random := randomInit (seed % 2 ^ 32).toNat }
  -- `-mlfqs` and `-ul`
  else if name = [45, 109, 108, 102, 113, 115] then .ok { o with mlfqs := true }
  else if b.userprog ∧ name = [45, 117, 108] then do
    let limit ← atoiValue value
    return { o with userPageLimit := (limit % 2 ^ 32).toNat }
  else .error (.unknownOption name)

/-- One round of the loop of `parse_options`. -/
def parseOption (b : Build) (o : Options) (arg : List UInt8) : Except OptionsStop Options :=
  let token := strtok [61] arg
  let value := (strtok [] token.2).1
  match token.1 with
  | none => .error .null
  | some name => setOption b o name value

/-- The loop of `parse_options`: what is left of `argv`. -/
def parseLoop (b : Build) : List (List UInt8) → Options → Except OptionsStop (List (List UInt8) × Options)
  | [], o => .ok ([], o)
  | arg :: argv, o =>
    if arg.head? = some 45 then do
      let o ← parseOption b o arg
      parseLoop b argv o
    else .ok (arg :: argv, o)

/-- `parse_options`, for a reading of the clock. -/
def parseOptions (b : Build) (clock : ℕ) (argv : List (List UInt8)) (o : Options) :
    Except OptionsStop (List (List UInt8) × Options) := do
  let (argv, o) ← parseLoop b argv o
  return (argv, { o with random := randomInit (clock % 2 ^ 32) })

/-! ## The seed -/

/-- The text of the option `-rs`, with a seed. -/
def seedOption (value : List UInt8) : List UInt8 :=
  [45, 114, 115, 61] ++ value

/-- `-rs=SEED` is one of the options, `SEED` is `seed` as an unsigned number, and these are the arguments after it. -/
def SeedThen (argv : List (List UInt8)) (seed : ℕ) (after : List (List UInt8)) : Prop :=
  ∃ before value, argv = before ++ seedOption value :: after ∧ value ≠ [] ∧ (∀ arg ∈ before, arg.head? = some 45) ∧
    seed = (atoi value % 2 ^ 32).toNat

/-- Two generators are that of a seed, and give the same stream. -/
structure Reproduces (seed : ℕ) (g g' : Generator) : Prop where
  left : g = randomInit seed
  right : g' = randomInit seed
  stream : ∀ ds, draws g ds = draws g' ds

section Options

variable {b : Build} {argv before after rest : List (List UInt8)} {o o' : Options} {clock seed : ℕ}

/-- Only `-rs` changes the generator. -/
lemma setOption_random {name : List UInt8} (hname : name ≠ [45, 114, 115]) (b : Build) (o)
    (value : Option (List UInt8)) : Yields (fun o' => o'.random = o.random) (setOption b o name value) := by
  refine Yields.ite (fun _ => .error _) fun _ => ?_
  refine Yields.ite (fun _ => .ok rfl) fun _ => ?_
  refine Yields.ite (fun _ => .ok rfl) fun _ => ?_
  refine Yields.ite (fun _ => .ok rfl) fun _ => ?_
  refine Yields.ite (fun _ => .ok rfl) fun _ => ?_
  refine Yields.ite (fun _ => .ok rfl) fun _ => ?_
  refine Yields.ite (fun _ => .ok rfl) fun _ => ?_
  rw [if_neg hname]
  refine Yields.ite (fun _ => .ok rfl) fun _ => ?_
  refine Yields.ite (fun _ => ?_) fun _ => .error _
  exact (Yields.trivial (atoiValue value)).bind fun _ _ => .ok rfl

lemma setOption_seed (b : Build) (o) (value : List UInt8) :
    setOption b o [45, 114, 115] (some value) = .ok { o with random := randomInit (atoi value % 2 ^ 32).toNat } := by
  unfold setOption
  simp
  rfl

lemma strtok_nil {value : List UInt8} (hvalue : value ≠ []) : (strtok [] value).1 = some value := by
  have hall : value.takeWhile (· ∉ ([] : List UInt8)) = value := by
    apply List.takeWhile_eq_self_iff.mpr
    simp
  cases value with
  | nil => exact absurd rfl hvalue
  | cons c value => exact congrArg some hall

lemma parseOption_seed {value : List UInt8} (hvalue : value ≠ []) (b : Build) (o) :
    parseOption b o (seedOption value) = .ok { o with random := randomInit (atoi value % 2 ^ 32).toNat } := by
  have htoken : strtok [61] (seedOption value) = (some [45, 114, 115], value) := rfl
  unfold parseOption
  rw [htoken]
  dsimp only
  rw [strtok_nil hvalue, setOption_seed]

/-- The arguments before an option with a seed are read first. -/
lemma parseLoop_before (hbefore : ∀ arg ∈ before, arg.head? = some 45)
    (h : parseLoop b (before ++ argv) o = .ok (rest, o')) : ∃ o₁, parseLoop b argv o₁ = .ok (rest, o') := by
  induction before generalizing o with
  | nil => exact ⟨o, h⟩
  | cons arg before ih =>
    rw [List.cons_append, parseLoop, if_pos (hbefore arg (List.mem_cons_self ..))] at h
    cases hset : parseOption b o arg with
    | error e =>
      rw [hset] at h
      cases h
    | ok o₁ =>
      rw [hset] at h
      exact ih (fun x hx => hbefore x (List.mem_cons_of_mem arg hx)) h

/-- Without a further `-rs` the generator stays. -/
lemma parseLoop_random (hafter : ∀ arg ∈ argv, (strtok [61] arg).1 ≠ some [45, 114, 115]) (b : Build) (o) :
    Yields (fun r => r.2.random = o.random) (parseLoop b argv o) := by
  induction argv generalizing o with
  | nil => exact .ok rfl
  | cons arg argv ih =>
    have hne := hafter arg (List.mem_cons_self ..)
    have hone : Yields (fun o₁ => o₁.random = o.random) (parseOption b o arg) := by
      unfold parseOption
      dsimp only
      cases hname : (strtok [61] arg).1 with
      | none => exact .error _
      | some name =>
        refine setOption_random (fun heq => hne ?_) b o _
        rw [hname, heq]
    refine Yields.ite (fun _ => hone.bind fun o₁ ho₁ => ?_) fun _ => .ok rfl
    rw [← ho₁]
    exact ih (fun x hx => hafter x (List.mem_cons_of_mem arg hx)) o₁

/-- The loop over the options leaves the generator of the last seed. -/
lemma parseLoop_seed (hseed : SeedThen argv seed after)
    (hafter : ∀ arg ∈ after, (strtok [61] arg).1 ≠ some [45, 114, 115])
    (h : parseLoop b argv o = .ok (rest, o')) : o'.random = randomInit seed := by
  obtain ⟨before, value, rfl, hvalue, hbefore, rfl⟩ := hseed
  obtain ⟨o₁, h⟩ := parseLoop_before hbefore h
  rw [parseLoop, parseOption_seed hvalue] at h
  exact (parseLoop_random hafter b _).of_eq_ok _ h

lemma parseOptions_spec (h : parseOptions b clock argv o = .ok (rest, o')) :
    ∃ o₁, parseLoop b argv o = .ok (rest, o₁) ∧ o'.random = randomInit (clock % 2 ^ 32) := by
  unfold parseOptions at h
  cases hloop : parseLoop b argv o with
  | error e =>
    rw [hloop] at h
    cases h
  | ok r =>
    rw [hloop] at h
    obtain ⟨rfl, rfl⟩ := Prod.mk.inj (Except.ok.inj h)
    exact ⟨r.2, rfl, rfl⟩

end Options

/-- The state of the kernel before the options are read. -/
def Options.boot : Options where
  shutdown := .none
  formatFilesys := false
  filesysBdevName := none
  scratchBdevName := none
  swapBdevName := none
  mlfqs := false
  userPageLimit := 2 ^ 32 - 1
  random := ⟨fun _ => 0, 0, 0, false⟩

/-- The option `-rs=1`. -/
def seedOne : List UInt8 := seedOption [49]

lemma seedOne_then : SeedThen [seedOne] 1 [] :=
  ⟨[], [49], rfl, List.cons_ne_nil 49 [], List.forall_mem_nil _, by decide⟩

/-- The options after a boot with `-rs=1` and a clock. -/
def bootedOne (clock : ℕ) : Options :=
  { Options.boot with random := randomInit (clock % 2 ^ 32) }

lemma parseOptions_seedOne (b : Build) (clock : ℕ) :
    parseOptions b clock [seedOne] Options.boot = .ok ([], bootedOne clock) := by
  unfold parseOptions
  rw [parseLoop, seedOne, parseOption_seed (List.cons_ne_nil _ _)]
  rfl

end OsLabs.Threads
