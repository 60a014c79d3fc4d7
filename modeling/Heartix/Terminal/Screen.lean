import Mathlib.Data.Int.Basic

/-!
What the terminal servers ask of a screen. The class is abstract in the source:
a screen is a state with the operations of `screen_t`, and each server result
holds for every screen.
-/

namespace Heartix.Terminal

/-- The operations of `screen_t` that the servers call. -/
structure Screen (σ : Type*) where
  write : UInt8 → σ → σ
  remove : σ → σ
  clean : σ → σ
  flush : σ → σ
  setCursor : ℤ → ℤ → σ → σ
  getCursorX : σ → ℤ
  getCursorY : σ → ℤ
  setCursorVisible : Bool → σ → σ
  setScrollAreaScreen : σ → σ
  setScrollArea : ℤ → ℤ → σ → σ
  scroll : ℤ → σ → σ
  getColumns : σ → ℤ
  getRows : σ → ℤ
  setColorForeground : ℤ → σ → σ
  setColorBackground : ℤ → σ → σ
  getColorForeground : σ → ℤ

def SC_BLACK : ℤ := 0x0
def SC_BLUE : ℤ := 0x1
def SC_GREEN : ℤ := 0x2
def SC_CYAN : ℤ := 0x3
def SC_RED : ℤ := 0x4
def SC_MAGENTA : ℤ := 0x5
def SC_LGRAY : ℤ := 0x7
def SC_YELLOW : ℤ := 0xE
def SC_WHITE : ℤ := 0xF

/-- The colors of the VT100 numbers, white for every other one. -/
def terminalColorFromVt100 : ℤ → ℤ
  | 0 => SC_BLACK
  | 1 => SC_RED
  | 2 => SC_GREEN
  | 3 => SC_YELLOW
  | 4 => SC_BLUE
  | 5 => SC_MAGENTA
  | 6 => SC_CYAN
  | 7 => SC_WHITE
  | 8 => SC_LGRAY
  | _ => SC_WHITE

/-- The operations that move the cursor of a screen or change a character at it. -/
inductive ScreenOp where
  | write (c : UInt8)
  | remove
  | backspace
  | clean
  | setCursor (x y : ℤ)
  deriving DecidableEq, Repr

end Heartix.Terminal
