import OsLabs.Lib.Memory

/-!
# Random numbers

`lib/random.c`: a generator after RC4.
-/

namespace OsLabs.LibC

open Lib Function

/-- The state of the generator. The numbers are below 256. -/
structure Generator where
  s : ℕ → ℕ
  i : ℕ
  j : ℕ
  inited : Bool

/-- `swap_byte`. -/
def swapByte (s : ℕ → ℕ) (a b : ℕ) : ℕ → ℕ :=
  update (update s a (s b)) b (s a)

/-- The second loop of `random_init`. -/
def mixSeed (seed : ℕ) : (ℕ → ℕ) × ℕ :=
  (List.range 256).foldl (fun (s, j) i =>
    let j := (j + s i + (leBytes seed (i % 4)).toNat) % 256
    (swapByte s i j, j)) (id, 0)

/-- `random_init`. What the generator was does not matter. -/
def randomInit (seed : ℕ) : Generator where
  s := (mixSeed seed).1
  i := 0
  j := 0
  inited := true

/-- One round of the loop of `random_bytes`. -/
def Generator.next (g : Generator) : UInt8 × Generator :=
  let i := (g.i + 1) % 256
  let j := (g.j + g.s i) % 256
  let s := swapByte g.s i j
  let k := (s i + s j) % 256
  (.ofNat (s k), { g with s, i, j })

/-- The loop of `random_bytes`. -/
def randomLoop : ℕ → Generator → List UInt8 × Generator
  | 0, g => ([], g)
  | size + 1, g =>
    let (b, g) := g.next
    let (bs, g) := randomLoop size g
    (b :: bs, g)

/-- `random_bytes`. -/
def randomBytes (g : Generator) (size : ℕ) : List UInt8 × Generator :=
  randomLoop size (if g.inited then g else randomInit 0)

/-- `random_ulong`, by its bytes. -/
def randomUlong (g : Generator) : List UInt8 × Generator :=
  randomBytes g 4

/-- A call that draws from the generator. -/
inductive Draw where
  | bytes (size : ℕ)
  | ulong

def Draw.run (g : Generator) : Draw → List UInt8 × Generator
  | .bytes size => randomBytes g size
  | .ulong => randomUlong g

/-- What a sequence of calls returns. -/
def draws (g : Generator) : List Draw → List (List UInt8)
  | [] => []
  | d :: ds =>
    let (bs, g) := d.run g
    bs :: draws g ds

end OsLabs.LibC
