import Mathlib.Data.Int.Notation
import OsLabs.Lib.Yields

/-!
# The text console

`vga_putc` of `devices/vga.c`. The screen has 25 rows of 80 columns. The cursor is found where the hardware has it, which can be
any position of 16 bits, and each character moves it.

From a position on the screen the cursor stays there (`vgaPutc_spec`). A position behind the screen is not corrected when
it is found, so the next character is written behind the framebuffer (`vga_stays_on_screen_iff`).
-/

namespace OsLabs.Devices

open Lib Function

/-! ## The code -/

/-- The static variables, and the framebuffer: the character and the attribute in each row and column. -/
structure Vga where
  cx : ℕ
  cy : ℕ
  inited : Bool
  fb : ℕ → ℕ → UInt8 × UInt8

/-- `fb[y][x][0] = c; fb[y][x][1] = GRAY_ON_BLACK`. The error is a position outside of the framebuffer. -/
def putCell (s : Vga) (y x : ℕ) (c : UInt8) : Except (ℕ × ℕ) Vga :=
  if y < 25 ∧ x < 80 then .ok { s with fb := update s.fb y (update (s.fb y) x (c, 0x07)) } else .error (y, x)

/-- `clear_row`. -/
def clearRow (s : Vga) (y : ℕ) : Except (ℕ × ℕ) Vga :=
  (List.range 80).foldlM (fun s x => putCell s y x 32) s

/-- `cls`. -/
def cls (s : Vga) : Except (ℕ × ℕ) Vga := do
  let s ← (List.range 25).foldlM clearRow s
  return { s with cx := 0, cy := 0 }

/-- `newline`; the last row is moved up with the others, and then cleared. -/
def newline (s : Vga) : Except (ℕ × ℕ) Vga :=
  let s := { s with cx := 0, cy := s.cy + 1 }
  if 25 ≤ s.cy then clearRow { s with cy := 24, fb := fun y => if y < 24 then s.fb (y + 1) else s.fb y } 24
  else .ok s

/-- `find_cursor`, with the two bytes that the hardware reports. -/
def findCursor (high low : UInt8) : ℕ × ℕ :=
  let cp := 256 * high.toNat + low.toNat
  (cp % 80, cp / 80)

/-- `init`. -/
def vgaInit (high low : UInt8) (s : Vga) : Vga :=
  if s.inited then s
  else { s with cx := (findCursor high low).1, cy := (findCursor high low).2, inited := true }

/-- The `switch` of `vga_putc`. -/
def vgaWrite (s : Vga) (c : ℤ) : Except (ℕ × ℕ) Vga :=
  if c = 10 then newline s
  else if c = 12 then cls s
  else if c = 8 then .ok (if 0 < s.cx then { s with cx := s.cx - 1 } else s)
  else if c = 13 then .ok { s with cx := 0 }
  else if c = 9 then
    let s := { s with cx := (s.cx + 1 + 7) / 8 * 8 }
    if 80 ≤ s.cx then newline s else .ok s
  else if c = 7 then .ok s
  else do
    let s ← putCell s s.cy s.cx (UInt8.ofInt c)
    let s := { s with cx := s.cx + 1 }
    if 80 ≤ s.cx then newline s else .ok s

/-- `vga_putc`, without the writes to the cursor registers. -/
def vgaPutc (high low : UInt8) (s : Vga) (c : ℤ) : Except (ℕ × ℕ) Vga :=
  vgaWrite (vgaInit high low s) c

/-- Calls of `vga_putc` one after the other, from the start. -/
def vgaRun (high low : UInt8) (fb : ℕ → ℕ → UInt8 × UInt8) (cs : List ℤ) : Except (ℕ × ℕ) Vga :=
  cs.foldlM (vgaPutc high low) { cx := 0, cy := 0, inited := false, fb }

/-! ## The cursor -/

/-- The cursor is on the screen. -/
def Vga.OnScreen (s : Vga) : Prop :=
  s.cx < 80 ∧ s.cy < 25

/-- The cursor is where it was. -/
def Vga.SameCursor (s s' : Vga) : Prop :=
  s'.cx = s.cx ∧ s'.cy = s.cy

variable {s : Vga} {y x : ℕ} {high low : UInt8}

lemma putCell_spec (s : Vga) (hy : y < 25) (hx : x < 80) (c : UInt8) :
    ∃ s', putCell s y x c = .ok s' ∧ s.SameCursor s' :=
  ⟨_, if_pos ⟨hy, hx⟩, rfl, rfl⟩

lemma clearRow_spec (s : Vga) (hy : y < 25) : ∃ s', clearRow s y = .ok s' ∧ s.SameCursor s' := by
  refine foldlM_range (P := fun _ => s.SameCursor) (fun x hx s₁ h => ?_) ⟨rfl, rfl⟩
  obtain ⟨s₂, hput, hcx, hcy⟩ := putCell_spec s₁ hy hx 32
  exact ⟨s₂, hput, hcx.trans h.1, hcy.trans h.2⟩

lemma cls_spec (s : Vga) : ∃ s', cls s = .ok s' ∧ s'.OnScreen := by
  obtain ⟨s', hrows, -⟩ := foldlM_range (P := fun _ _ => True) (fun y hy s₁ _ => by
    obtain ⟨s₂, hclear, -⟩ := clearRow_spec s₁ hy
    exact ⟨s₂, hclear, trivial⟩) trivial
  refine ⟨{ s' with cx := 0, cy := 0 }, ?_, Nat.succ_pos 79, Nat.succ_pos 24⟩
  rw [cls, hrows]
  rfl

/-- A new line puts the cursor back on the screen, wherever it was. -/
lemma newline_spec (s : Vga) : ∃ s', newline s = .ok s' ∧ s'.OnScreen := by
  unfold newline
  dsimp only
  split
  · obtain ⟨s', hclear, hcx, hcy⟩ := clearRow_spec
      { s with cx := 0, cy := 24, fb := fun y => if y < 24 then s.fb (y + 1) else s.fb y } (show 24 < 25 by omega)
    exact ⟨s', hclear, by rw [hcx]; exact Nat.succ_pos 79, by rw [hcy]; exact Nat.lt_succ_self 24⟩
  · exact ⟨_, rfl, Nat.succ_pos 79, by dsimp only; omega⟩

/-- A cursor that has left its row goes to the next one. -/
lemma advance_spec (s : Vga) (h : s.cy < 25) :
    ∃ s', (if 80 ≤ s.cx then newline s else .ok s) = .ok s' ∧ s'.OnScreen := by
  split
  · exact newline_spec s
  · exact ⟨s, rfl, by omega, h⟩

lemma vgaWrite_spec (h : s.OnScreen) (c : ℤ) : ∃ s', vgaWrite s c = .ok s' ∧ s'.OnScreen := by
  obtain ⟨hcx, hcy⟩ := h
  unfold vgaWrite
  split_ifs
  · exact newline_spec s
  · exact cls_spec s
  · exact ⟨_, rfl, by dsimp only; omega, hcy⟩
  · exact ⟨_, rfl, hcx, hcy⟩
  · exact ⟨_, rfl, Nat.succ_pos 79, hcy⟩
  · exact advance_spec { s with cx := (s.cx + 1 + 7) / 8 * 8 } hcy
  · exact ⟨_, rfl, hcx, hcy⟩
  · obtain ⟨s₁, hput, -, hcy'⟩ := putCell_spec s hcy hcx (UInt8.ofInt c)
    rw [hput]
    exact advance_spec { s₁ with cx := s₁.cx + 1 } (by rw [hcy']; exact hcy)

lemma vgaInit_onScreen (hcp : 256 * high.toNat + low.toNat < 2000) (h : s.OnScreen) : (vgaInit high low s).OnScreen := by
  unfold vgaInit
  split
  · exact h
  · refine ⟨Nat.mod_lt _ (by decide), ?_⟩
    show (256 * high.toNat + low.toNat) / 80 < 25
    omega

lemma vgaPutc_spec (hcp : 256 * high.toNat + low.toNat < 2000) (h : s.OnScreen) (c : ℤ) :
    ∃ s', vgaPutc high low s c = .ok s' ∧ s'.OnScreen :=
  vgaWrite_spec (vgaInit_onScreen hcp h) c

/-- The cursor is on the screen after every sequence of characters, and nothing outside of the framebuffer is written, if and only
if the hardware reports a position on the screen. -/
theorem vga_stays_on_screen_iff (high low : UInt8) (fb : ℕ → ℕ → UInt8 × UInt8) :
    (∀ cs, ∃ s, vgaRun high low fb cs = .ok s ∧ s.OnScreen) ↔ 256 * high.toNat + low.toNat < 2000 := by
  constructor
  · intro h
    -- a carriage return leaves the row as it was found
    obtain ⟨s, hrun, -, hcy⟩ := h [13]
    cases hrun
    have hcy : (256 * high.toNat + low.toNat) / 80 < 25 := hcy
    omega
  · intro hcp cs
    suffices hfrom : ∀ s : Vga, s.OnScreen → ∃ s', cs.foldlM (vgaPutc high low) s = .ok s' ∧ s'.OnScreen from
      hfrom _ ⟨Nat.succ_pos 79, Nat.succ_pos 24⟩
    induction cs with
    | nil => exact fun s hs => ⟨s, rfl, hs⟩
    | cons c cs ih =>
      intro s hs
      obtain ⟨s₁, hput, hon⟩ := vgaPutc_spec hcp hs c
      rw [List.foldlM_cons, hput]
      exact ih s₁ hon

/-- The hardware reports position 2000, the first one behind the screen. The letter `a` is written there. -/
theorem vga_writes_behind_screen : vgaRun 7 208 (fun _ _ => (32, 7)) [97] = .error (25, 0) := rfl

end OsLabs.Devices
