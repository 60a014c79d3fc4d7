import Mathlib.Data.Vector.Basic
import Heartix.Lib.Runs
import Heartix.Terminal.Screen

/-!
The text mode screen, the same in both servers. Its offset into the video memory
is unsigned, so the test for a negative one never holds, and only `write` brings
an offset past the last cell back. A write outside the video memory is undefined.
The hardware cursor is moved through the ports and is left out.
-/

namespace Heartix.Terminal

open Runs

def SCREEN_WIDTH : ℕ := 80
def SCREEN_HEIGHT : ℕ := 25

/-- The bytes of the video memory. -/
def screenSize : ℕ := SCREEN_WIDTH * SCREEN_HEIGHT * 2

/-- The bytes of a line. -/
def lineBytes : UInt32 := (SCREEN_WIDTH * 2).toUInt32

/-- A background color over a foreground color. -/
def SC_COLOR (ba fo : UInt8) : UInt8 := fo ||| (ba <<< 4)

structure HeadlessScreen where
  offset : UInt32
  output : Vector UInt8 screenSize
  colorForeground : UInt8
  colorBackground : UInt8

/-- A screen as it is constructed, over what is in the video memory. -/
def HeadlessScreen.construct (output : Vector UInt8 screenSize) : HeadlessScreen where
  offset := 0
  output := output
  colorForeground := 0xF
  colorBackground := 0x0

/-- `output[offset++] = b`, undefined outside the video memory. -/
def HeadlessScreen.put (s : HeadlessScreen) (b : UInt8) : Option HeadlessScreen :=
  if h : s.offset.toNat < screenSize then
    some { s with
      offset := s.offset + 1
      output := s.output.set s.offset.toNat b h }
  else none

/-- A cell without a character. -/
def blankByte (i : ℕ) : UInt8 := if i % 2 = 0 then ' '.toUInt8 else SC_COLOR 0x0 0xF

def HeadlessScreen.clean (s : HeadlessScreen) : HeadlessScreen :=
  { s with
    offset := 0
    output := Vector.ofFn fun i => blankByte i }

/-- The lines are moved up by one, the last one is blank. -/
def scrolled (output : Vector UInt8 screenSize) : Vector UInt8 screenSize :=
  Vector.ofFn fun i =>
    if h : i + SCREEN_WIDTH * 2 < screenSize then output[i + SCREEN_WIDTH * 2]
    else blankByte i

def HeadlessScreen.normalize (s : HeadlessScreen) : HeadlessScreen :=
  if screenSize ≤ s.offset.toNat then
    { s with
      offset := s.offset - lineBytes
      output := scrolled s.output }
  else s

def HeadlessScreen.setCursor (x y : ℤ) (s : HeadlessScreen) : HeadlessScreen :=
  let offset := UInt32.ofInt (y * SCREEN_WIDTH * 2 + x * 2)
  if offset < 0 then { s with offset := 0 }
  else if offset > screenSize.toUInt32 then { s with offset := screenSize.toUInt32 }
  else { s with offset := offset }

def HeadlessScreen.write (c : UInt8) (s : HeadlessScreen) : Option HeadlessScreen :=
  if c = '\n'.toUInt8 then
    let offset := s.offset + lineBytes
    some { s with offset := offset - offset % lineBytes }.normalize
  else do
    let s ← s.put c
    let s ← s.put (SC_COLOR s.colorBackground s.colorForeground)
    some s.normalize

def HeadlessScreen.remove (s : HeadlessScreen) : Option HeadlessScreen := do
  let s ← s.put ' '.toUInt8
  some { s with offset := s.offset + 1 - 2 }

def HeadlessScreen.backspace (s : HeadlessScreen) : Option HeadlessScreen := do
  let s ← { s with offset := s.offset - 2 }.put ' '.toUInt8
  some { s with offset := s.offset + 1 - 2 }

def HeadlessScreen.getCursorX (s : HeadlessScreen) : ℕ := (s.offset % lineBytes / 2).toNat

def HeadlessScreen.getCursorY (s : HeadlessScreen) : ℕ := (s.offset / lineBytes).toNat

def HeadlessScreen.exec : HeadlessScreen → ScreenOp → Option HeadlessScreen
  | s, .write c => s.write c
  | s, .remove => s.remove
  | s, .backspace => s.backspace
  | s, .clean => some s.clean
  | s, .setCursor x y => some (s.setCursor x y)

/-- The offset is the one of a cell on the screen. -/
structure HeadlessScreen.OnScreen (s : HeadlessScreen) : Prop where
  even : s.offset % 2 = 0
  offset_lt : s.offset.toNat < screenSize
  cursorX_lt : s.getCursorX < SCREEN_WIDTH
  cursorY_lt : s.getCursorY < SCREEN_HEIGHT

/-- The cursor is set to a cell on the screen, and a backspace leaves a cell. -/
def ScreenOp.Kept (s : HeadlessScreen) : ScreenOp → Prop
  | setCursor x y => (y * SCREEN_WIDTH * 2 + x * 2) % 2 ^ 32 < screenSize
  | backspace => 2 ≤ s.offset
  | write _ | remove | clean => True

theorem toNat_lineBytes : lineBytes.toNat = 160 := rfl

theorem screenSize_eq : screenSize = 4000 := rfl

theorem onScreen_iff {s : HeadlessScreen} :
    s.OnScreen ↔ s.offset.toNat % 2 = 0 ∧ s.offset.toNat < screenSize := by
  have heven : s.offset % 2 = 0 ↔ s.offset.toNat % 2 = 0 := by
    rw [← UInt32.toNat_inj, UInt32.toNat_mod]
    rfl
  constructor
  · intro h
    exact ⟨heven.mp h.even, h.offset_lt⟩
  · rintro ⟨hmod, hlt⟩
    rw [screenSize_eq] at hlt
    refine ⟨heven.mpr hmod, hlt, ?_, ?_⟩
    · unfold HeadlessScreen.getCursorX SCREEN_WIDTH
      rw [UInt32.toNat_div, UInt32.toNat_mod, toNat_lineBytes]
      change s.offset.toNat % 160 / 2 < 80
      omega
    · unfold HeadlessScreen.getCursorY SCREEN_HEIGHT
      rw [UInt32.toNat_div, toNat_lineBytes]
      omega

theorem put_of_lt {s : HeadlessScreen} (h : s.offset.toNat < screenSize) (b : UInt8) :
    ∃ t, s.put b = some t ∧ t.offset.toNat = s.offset.toNat + 1 := by
  refine ⟨_, dif_pos h, ?_⟩
  rw [screenSize_eq] at h
  rw [UInt32.toNat_add]
  change (s.offset.toNat + 1) % 2 ^ 32 = s.offset.toNat + 1
  omega

theorem put_of_ge {s : HeadlessScreen} (h : screenSize ≤ s.offset.toNat) (b : UInt8) :
    s.put b = none :=
  dif_neg (by omega)

/-- One line at most is scrolled away, so the offset must be at most one line past
the end. -/
theorem normalize_onScreen {s : HeadlessScreen} (heven : s.offset.toNat % 2 = 0)
    (hlt : s.offset.toNat < screenSize + 160) : s.normalize.OnScreen := by
  rw [screenSize_eq] at hlt
  rw [onScreen_iff, screenSize_eq]
  unfold HeadlessScreen.normalize
  rw [screenSize_eq]
  by_cases hend : 4000 ≤ s.offset.toNat
  · rw [if_pos hend]
    dsimp only
    rw [UInt32.toNat_sub, toNat_lineBytes]
    omega
  · rw [if_neg hend]
    omega

theorem write_onScreen {s : HeadlessScreen} (h : s.OnScreen) (c : UInt8) :
    ∃ t, s.write c = some t ∧ t.OnScreen := by
  obtain ⟨heven, hlt⟩ := onScreen_iff.mp h
  rw [screenSize_eq] at hlt
  unfold HeadlessScreen.write
  by_cases hnl : c = '\n'.toUInt8
  · have hsum : (s.offset + lineBytes).toNat = s.offset.toNat + 160 := by
      rw [UInt32.toNat_add, toNat_lineBytes]
      omega
    have hoffset : (s.offset + lineBytes - (s.offset + lineBytes) % lineBytes).toNat =
        (s.offset.toNat + 160) / 160 * 160 := by
      rw [UInt32.toNat_sub, UInt32.toNat_mod, hsum, toNat_lineBytes]
      omega
    refine ⟨_, if_pos hnl, normalize_onScreen ?_ ?_⟩
    · dsimp only
      rw [hoffset]
      omega
    · dsimp only
      rw [hoffset, screenSize_eq]
      omega
  · rw [if_neg hnl]
    obtain ⟨t, ht, hoffset⟩ := put_of_lt h.offset_lt c
    have hnext : t.offset.toNat < screenSize := by
      rw [screenSize_eq]
      omega
    obtain ⟨u, hu, hoffset'⟩ := put_of_lt hnext (SC_COLOR t.colorBackground t.colorForeground)
    refine ⟨u.normalize, by simp [ht, hu], normalize_onScreen (by omega) ?_⟩
    rw [screenSize_eq]
    omega

theorem toNat_sub_two {n : UInt32} (h : 2 ≤ n.toNat) : (n - 2).toNat = n.toNat - 2 := by
  have hlt := n.toNat_lt
  rw [UInt32.toNat_sub]
  change (2 ^ 32 - 2 + n.toNat) % 2 ^ 32 = n.toNat - 2
  omega

theorem remove_onScreen {s : HeadlessScreen} (h : s.OnScreen) :
    ∃ t, s.remove = some t ∧ t.OnScreen := by
  obtain ⟨heven, hlt⟩ := onScreen_iff.mp h
  obtain ⟨t, ht, hoffset⟩ := put_of_lt hlt ' '.toUInt8
  rw [screenSize_eq] at hlt
  have hback : (t.offset + 1 - 2).toNat = s.offset.toNat := by
    have hsum : (t.offset + 1).toNat = s.offset.toNat + 2 := by
      rw [UInt32.toNat_add]
      change (t.offset.toNat + 1) % 2 ^ 32 = _
      omega
    rw [toNat_sub_two (by omega), hsum]
    omega
  unfold HeadlessScreen.remove
  refine ⟨_, by rw [ht]; rfl, ?_⟩
  rw [onScreen_iff, hback, screenSize_eq]
  exact ⟨heven, hlt⟩

theorem backspace_eq_remove (s : HeadlessScreen) :
    s.backspace = { s with offset := s.offset - 2 }.remove := rfl

theorem backspace_onScreen {s : HeadlessScreen} (h : s.OnScreen) (htwo : 2 ≤ s.offset) :
    ∃ t, s.backspace = some t ∧ t.OnScreen := by
  obtain ⟨heven, hlt⟩ := onScreen_iff.mp h
  have hle : 2 ≤ s.offset.toNat := UInt32.le_iff_toNat_le.mp htwo
  rw [backspace_eq_remove]
  apply remove_onScreen
  rw [onScreen_iff]
  dsimp only
  rw [toNat_sub_two hle]
  omega

/-- Before the first cell, a backspace wraps to the end of the address space. -/
theorem backspace_eq_none {s : HeadlessScreen} (h : s.OnScreen) (htwo : ¬ 2 ≤ s.offset) :
    s.backspace = none := by
  obtain ⟨heven, _⟩ := onScreen_iff.mp h
  have hzero : s.offset.toNat = 0 := by
    rw [UInt32.le_iff_toNat_le] at htwo
    change ¬ 2 ≤ s.offset.toNat at htwo
    omega
  have hwrap : screenSize ≤ (s.offset - 2).toNat := by
    rw [UInt32.toNat_sub, hzero, screenSize_eq]
    decide
  unfold HeadlessScreen.backspace
  rw [put_of_ge hwrap]
  rfl

theorem toNat_ofInt (n : ℤ) : ((UInt32.ofInt n).toNat : ℤ) = n % 2 ^ 32 := by
  unfold UInt32.ofInt
  rw [UInt32.toNat_ofNat']
  omega

theorem setCursor_onScreen_iff {s : HeadlessScreen} {x y : ℤ} :
    (s.setCursor x y).OnScreen ↔
      (y * SCREEN_WIDTH * 2 + x * 2) % 2 ^ 32 < screenSize := by
  have hoffset := toNat_ofInt (y * SCREEN_WIDTH * 2 + x * 2)
  have hnot : ¬ UInt32.ofInt (y * SCREEN_WIDTH * 2 + x * 2) < 0 := UInt32.not_lt_zero
  have hsize : screenSize.toUInt32.toNat = screenSize := rfl
  rw [onScreen_iff]
  unfold HeadlessScreen.setCursor
  dsimp only
  rw [if_neg hnot]
  rw [screenSize_eq] at hsize ⊢
  by_cases hlarge : UInt32.ofInt (y * SCREEN_WIDTH * 2 + x * 2) > Nat.toUInt32 4000
  · rw [if_pos hlarge, hsize]
    rw [gt_iff_lt, UInt32.lt_iff_toNat_lt, hsize] at hlarge
    omega
  · rw [if_neg hlarge]
    dsimp only
    omega

theorem onScreen_of_offset_zero {s : HeadlessScreen} (h : s.offset = 0) : s.OnScreen := by
  rw [onScreen_iff, h]
  decide

theorem clean_onScreen (s : HeadlessScreen) : s.clean.OnScreen := onScreen_of_offset_zero rfl

/-- A kept step stays on the screen. -/
theorem exec_onScreen {s : HeadlessScreen} (h : s.OnScreen) {op : ScreenOp} (hop : op.Kept s) :
    ∃ t, HeadlessScreen.exec s op = some t ∧ t.OnScreen := by
  cases op with
  | write c => exact write_onScreen h c
  | remove => exact remove_onScreen h
  | backspace => exact backspace_onScreen h hop
  | clean => exact ⟨_, rfl, clean_onScreen s⟩
  | setCursor x y => exact ⟨_, rfl, setCursor_onScreen_iff.mpr hop⟩

/-- Every other step writes outside the video memory or leaves the screen. -/
theorem not_onScreen_of_exec {s : HeadlessScreen} (h : s.OnScreen) {op : ScreenOp}
    (hop : ¬ op.Kept s) (t : HeadlessScreen) (ht : HeadlessScreen.exec s op = some t) :
    ¬ t.OnScreen := by
  cases op with
  | write c => exact absurd trivial hop
  | remove => exact absurd trivial hop
  | clean => exact absurd trivial hop
  | backspace =>
    have hnone : HeadlessScreen.exec s .backspace = none := backspace_eq_none h hop
    rw [hnone] at ht
    cases ht
  | setCursor x y =>
    obtain rfl := Option.some.inj ht
    exact fun honScreen => hop (setCursor_onScreen_iff.mp honScreen)

/-- From a newly constructed screen, every write is inside the video memory and
the offset stays on a cell of the screen along exactly the runs that set the
cursor to cells of the screen and do not go back from the first one. -/
theorem headless_stays_on_screen_iff (output : Vector UInt8 screenSize) (ops : List ScreenOp) :
    Along HeadlessScreen.exec HeadlessScreen.OnScreen ops (HeadlessScreen.construct output) ↔
      Guarded HeadlessScreen.exec (fun s op => op.Kept s) ops
        (HeadlessScreen.construct output) := by
  have hstart : (HeadlessScreen.construct output).OnScreen := onScreen_of_offset_zero rfl
  exact along_iff_guarded (fun _ h => h) (fun _ _ h => exec_onScreen h)
    (fun _ _ h => not_onScreen_of_exec h) ops hstart

/-- A negative coordinate sets the offset past the last cell. -/
theorem headless_leaves_screen :
    ¬ ∀ output ops,
      Along HeadlessScreen.exec HeadlessScreen.OnScreen ops (HeadlessScreen.construct output) := by
  intro h
  obtain ⟨_, t, ht, honScreen⟩ := h (Vector.replicate _ 0) [.setCursor (-1) 0]
  obtain rfl := Option.some.inj ht
  have hlt := honScreen.offset_lt
  revert hlt
  decide

end Heartix.Terminal
