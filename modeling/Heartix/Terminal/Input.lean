import Mathlib.Algebra.BigOperators.Group.List.Basic
import Mathlib.Data.List.TakeWhile
import Heartix.Terminal.Client
import Heartix.Terminal.Window

/-!
The server's input routine, key by key. In the default mode it collects a line and
sends it to the shell at the end, in the raw mode it sends every key. What the
keyboard layout makes of a key comes from a library and is a parameter.
-/

namespace Heartix.Terminal

def G_TERMINAL_MODE_RAW : ℤ := 1

def G_TERMKEY_DOWN : ℕ := 0x102
def G_TERMKEY_UP : ℕ := 0x103
def G_TERMKEY_LEFT : ℕ := 0x104
def G_TERMKEY_RIGHT : ℕ := 0x105
def G_TERMKEY_BACKSPACE : ℕ := 0x107
def G_TERMKEY_STAB : ℕ := 0x154
def G_TERMKEY_ENTER : ℕ := 0x157

/-- What the keyboard reports of a key. -/
structure KeyInfo where
  key : String
  pressed : Bool
  ctrl : Bool
  shift : Bool
  alt : Bool
  deriving DecidableEq, Repr

/-- A key event. While it is handled, each `write` to the shell finds room for some
bytes, and fails where it finds none. -/
structure Keystroke where
  info : KeyInfo
  room : ℕ → ℤ

/-- The loop of `terminalWriteToShell`: what is written of `left`, from the `write`
number `i` on. The first number bounds the rounds. -/
def writeLoop (room : ℕ → ℤ) : ℕ → ℕ → List UInt8 → List UInt8
  | 0, _, _ => []
  | fuel + 1, i, left =>
      if left = [] then []
      else if room i ≤ 0 then []
      else left.take (room i).toNat ++ writeLoop room fuel (i + 1) (left.drop (room i).toNat)

/-- What is written of a line: the bytes up to the first zero, as far as their number
is an `int` and there is room. -/
def written (room : ℕ → ℤ) (line : List UInt8) : List UInt8 :=
  let lineContent := line.takeWhile (· ≠ 0)
  let lineLength := (lineContent.length : ℤ).bmod (2 ^ 32)
  writeLoop room lineLength.toNat 0 (lineContent.take lineLength.toNat)

def terminalWriteToShell (room : ℕ → ℤ) (line : List UInt8) (t : Server GuiWindow) :
    Server GuiWindow :=
  t.writeToShell (written room line)

def terminalWriteTermkeyToShell (room : ℕ → ℤ) (termkey : ℕ) (t : Server GuiWindow) :
    Server GuiWindow :=
  t.writeToShell ([G_TERMKEY_SUB, (termkey % 2 ^ 8).toUInt8,
    (termkey / 2 ^ 8).toUInt8].take (room 0).toNat)

/-- The server's operations on its window. -/
def Server.onWindow (f : GuiScreen → Option GuiScreen) (t : Server GuiWindow) :
    Option (Server GuiWindow) :=
  (t.screen.onScreen f).map fun w => { t with screen := w }

/-- The input routine between two keys: its buffer, the server, and the processes
that have been killed. -/
structure InputState where
  buffer : List UInt8
  server : Server GuiWindow
  killed : List ℤ

namespace InputState

/-- Ctrl-C and Escape kill the process in control, unless it is the shell. -/
def interrupt (shellProcess : ℤ) (s : InputState) : InputState :=
  if s.server.controlProcess ≠ 0 ∧ s.server.controlProcess ≠ shellProcess then
    { s with killed := s.killed ++ [s.server.controlProcess] }
  else s

/-- Writes to the window where echoing is on. -/
def echo (c : UInt8) (s : InputState) : Option InputState :=
  if s.server.inputEcho then
    (s.server.onWindow (GuiScreen.write c)).map fun t => { s with server := t }
  else some s

/-- A key in the default mode. -/
def defaultInput (charForKey : KeyInfo → UInt8) (shellProcess : ℤ) (k : Keystroke)
    (s : InputState) : Option InputState :=
  let input := k.info
  if input.key = "KEY_ENTER" ∧ input.pressed then
    (s.echo '\n'.toUInt8).map fun s => { s with
      buffer := []
      server := terminalWriteToShell k.room (s.buffer ++ ['\n'.toUInt8]) s.server }
  else if input.ctrl ∧ input.key = "KEY_C" ∨ input.key = "KEY_ESC" then
    some (s.interrupt shellProcess)
  else if input.key = "KEY_BACKSPACE" ∧ input.pressed then
    (s.server.onWindow GuiScreen.backspace).map fun t => { s with
      buffer := if 0 < s.buffer.length then s.buffer.take (s.buffer.length - 1) else s.buffer
      server := t }
  else
    let chr := charForKey input
    if chr ≠ 0xFF then { s with buffer := s.buffer ++ [chr] }.echo chr
    else some s

/-- A key in the raw mode. -/
def rawInput (charForKey : KeyInfo → UInt8) (k : Keystroke) (s : InputState) :
    Option InputState :=
  let input := k.info
  let send := fun termkey => { s with
    server := terminalWriteTermkeyToShell k.room termkey s.server }
  if input.key = "KEY_ENTER" ∧ input.pressed then (send G_TERMKEY_ENTER).echo '\n'.toUInt8
  else if input.key = "KEY_BACKSPACE" ∧ input.pressed then
    let s := send G_TERMKEY_BACKSPACE
    if s.server.inputEcho then
      (s.server.onWindow GuiScreen.backspace).map fun t => { s with server := t }
    else some s
  else if input.key = "KEY_ARROW_LEFT" ∧ input.pressed then some (send G_TERMKEY_LEFT)
  else if input.key = "KEY_ARROW_RIGHT" ∧ input.pressed then some (send G_TERMKEY_RIGHT)
  else if input.key = "KEY_ARROW_UP" ∧ input.pressed then some (send G_TERMKEY_UP)
  else if input.key = "KEY_ARROW_DOWN" ∧ input.pressed then some (send G_TERMKEY_DOWN)
  else if input.key = "KEY_TAB" ∧ input.pressed ∧ input.shift then
    some { s with server := terminalWriteToShell k.room ['\t'.toUInt8] s.server }
  else if input.key = "KEY_TAB" ∧ input.pressed then some (send G_TERMKEY_STAB)
  else
    let chr := charForKey input
    if chr ≠ 0xFF then
      { s with server := s.server.writeToShell ([chr].take (k.room 0).toNat) }.echo chr
    else some s

/-- One round of `terminalInputRoutine`. -/
def terminalInputRoutine (charForKey : KeyInfo → UInt8) (shellProcess : ℤ) (k : Keystroke)
    (s : InputState) : Option InputState :=
  if s.server.inputMode = G_TERMINAL_MODE_DEFAULT then
    s.defaultInput charForKey shellProcess k
  else if s.server.inputMode = G_TERMINAL_MODE_RAW then s.rawInput charForKey k
  else some s

end InputState

/-- The writes from number `i` on find room for `n` bytes before one of them fails. -/
def Suffices (room : ℕ → ℤ) (i n : ℕ) : Prop :=
  ∃ k, (∀ j < k, 0 < room (i + j)) ∧ n ≤ ((List.range k).map fun j => (room (i + j)).toNat).sum

theorem suffices_zero (room : ℕ → ℤ) (i : ℕ) : Suffices room i 0 :=
  ⟨0, fun j hj => absurd hj (Nat.not_lt_zero j), Nat.zero_le _⟩

theorem suffices_step {room : ℕ → ℤ} {i n : ℕ} (hn : 0 < n) :
    Suffices room i n ↔ 0 < room i ∧ Suffices room (i + 1) (n - (room i).toNat) := by
  have hsum (k : ℕ) : ((List.range (k + 1)).map fun j => (room (i + j)).toNat).sum =
      (room i).toNat + ((List.range k).map fun j => (room (i + 1 + j)).toNat).sum := by
    rw [List.range_succ_eq_map, List.map_cons, List.sum_cons, List.map_map]
    congr 3
    funext j
    exact congrArg (fun m => (room m).toNat) (by omega)
  constructor
  · rintro ⟨k, hroom, hle⟩
    cases k with
    | zero =>
      rw [List.range_zero, List.map_nil, List.sum_nil] at hle
      omega
    | succ k =>
      rw [hsum] at hle
      refine ⟨hroom 0 (by omega), k, fun j hj => ?_, by omega⟩
      have hnext := hroom (j + 1) (by omega)
      rwa [← Nat.add_assoc, Nat.add_right_comm] at hnext
  · rintro ⟨hfirst, k, hroom, hle⟩
    refine ⟨k + 1, fun j hj => ?_, by rw [hsum]; omega⟩
    cases j with
    | zero => exact hfirst
    | succ j =>
      have hnext := hroom j (by omega)
      rwa [Nat.add_assoc, Nat.add_comm 1 j] at hnext

/-- Everything is written exactly when the writes find room for it. -/
theorem writeLoop_eq_iff {room : ℕ → ℤ} {fuel i : ℕ} {left : List UInt8}
    (hfuel : left.length ≤ fuel) :
    writeLoop room fuel i left = left ↔ Suffices room i left.length := by
  induction fuel generalizing i left with
  | zero =>
    obtain rfl := List.length_eq_zero_iff.mp (Nat.le_zero.mp hfuel)
    exact iff_of_true rfl (suffices_zero room i)
  | succ fuel ih =>
    unfold writeLoop
    by_cases hempty : left = []
    · rw [if_pos hempty, hempty]
      exact iff_of_true rfl (suffices_zero room i)
    · have hpos := List.length_pos_of_ne_nil hempty
      rw [if_neg hempty, suffices_step hpos]
      by_cases hroom : room i ≤ 0
      · rw [if_pos hroom]
        exact iff_of_false (Ne.symm hempty) fun h => absurd h.1 (by omega)
      · have hdrop : (left.drop (room i).toNat).length ≤ fuel := by
          rw [List.length_drop]
          omega
        have hsplit : left.take (room i).toNat ++
            writeLoop room fuel (i + 1) (left.drop (room i).toNat) = left ↔
            writeLoop room fuel (i + 1) (left.drop (room i).toNat) =
              left.drop (room i).toNat := by
          constructor
          · intro h
            nth_rewrite 3 [← List.take_append_drop (room i).toNat left] at h
            exact List.append_cancel_left h
          · intro h
            rw [h, List.take_append_drop]
        rw [if_neg hroom, hsplit, ih hdrop, List.length_drop,
          and_iff_right (Int.not_le.mp hroom)]

theorem writeLoop_length_le (room : ℕ → ℤ) (fuel i : ℕ) (left : List UInt8) :
    (writeLoop room fuel i left).length ≤ left.length := by
  induction fuel generalizing i left with
  | zero => exact Nat.zero_le _
  | succ fuel ih =>
    unfold writeLoop
    split
    · exact Nat.zero_le _
    · split
      · exact Nat.zero_le _
      · have hrest := ih (i + 1) (left.drop (room i).toNat)
        rw [List.length_drop] at hrest
        rw [List.length_append, List.length_take]
        omega

/-- A line is written as it is exactly when there is no zero in it, its length is an
`int`, and the writes find room for it. -/
theorem written_eq_iff (room : ℕ → ℤ) (line : List UInt8) :
    written room line = line ↔
      0 ∉ line ∧ line.length < 2 ^ 31 ∧ Suffices room 0 line.length := by
  have hcontent : line.takeWhile (· ≠ 0) = line ↔ 0 ∉ line := by
    rw [List.takeWhile_eq_self_iff]
    constructor
    · intro h hmem
      simpa using h 0 hmem
    · intro h c hc
      have hne : c ≠ 0 := fun heq => h (heq ▸ hc)
      simpa using hne
  have hshort {n : ℕ} (hn : n < 2 ^ 31) : ((n : ℤ).bmod (2 ^ 32)).toNat = n := by
    rw [Int.bmod_eq_of_le (by omega) (by omega), Int.toNat_natCast]
  have hline (hzero : 0 ∉ line) (hlt : line.length < 2 ^ 31) :
      written room line = writeLoop room line.length 0 line := by
    unfold written
    dsimp only
    rw [hcontent.mpr hzero, hshort hlt, List.take_length]
  constructor
  · intro h
    have hle := writeLoop_length_le room
      (((line.takeWhile (· ≠ 0)).length : ℤ).bmod (2 ^ 32)).toNat 0
      ((line.takeWhile (· ≠ 0)).take
        (((line.takeWhile (· ≠ 0)).length : ℤ).bmod (2 ^ 32)).toNat)
    have hwritten : (written room line).length = line.length := congrArg List.length h
    unfold written at hwritten
    dsimp only at hwritten
    rw [hwritten, List.length_take] at hle
    have hprefix : line.takeWhile (· ≠ 0) <+: line := List.takeWhile_prefix _
    have hself := hprefix.eq_of_length_le (by omega)
    have hbound := Int.bmod_lt (x := ((line.takeWhile (· ≠ 0)).length : ℤ))
      (show 0 < 2 ^ 32 by decide)
    have hlt : line.length < 2 ^ 31 := by omega
    have hzero := hcontent.mp hself
    refine ⟨hzero, hlt, (writeLoop_eq_iff (le_refl _)).mp ?_⟩
    rw [← hline hzero hlt, h]
  · rintro ⟨hzero, hlt, hroom⟩
    rw [hline hzero hlt]
    exact (writeLoop_eq_iff (le_refl _)).mpr hroom

end Heartix.Terminal
