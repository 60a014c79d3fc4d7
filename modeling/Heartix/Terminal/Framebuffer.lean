import Heartix.Lib.Painting
import Heartix.Terminal.Screen
import Mathlib.Tactic.Ring

/-!
The framebuffer screen down to its bytes. The video library is not part of the
repository, so the type of a mode is a record of natural numbers, and the update
that some drivers ask for is left out. A write outside the framebuffer is undefined.
-/

namespace Heartix.Terminal

open Painting

structure VideoMode where
  resX : ℕ
  resY : ℕ
  bpp : ℕ
  bpsl : ℕ
  lfb : ℕ
  deriving DecidableEq, Repr

namespace VideoMode

/-- The bytes of the framebuffer. Without an address there are none. -/
def size (mode : VideoMode) : ℕ := if mode.lfb = 0 then 0 else mode.bpsl * mode.resY

/-- What is promised of the modes that a driver sets: there is a framebuffer, and its
size is a positive `int`. -/
structure Driven (mode : VideoMode) : Prop where
  lfb : mode.lfb ≠ 0
  size : mode.bpsl * mode.resY < 2 ^ 31

end VideoMode

namespace Framebuffer

def bitmapFontCharWidth : ℕ := 10
def bitmapFontCharHeight : ℕ := 19
def bitmapFontCharCount : ℤ := 130
def bitmapFontAsciiOffset : ℤ := 0

/-- The pixels of a character of the font. A `char` is signed, and the offset is
cut to 16 bits, so there are none for the upper half. -/
def bitmapFontGetChar (bitmapFontCharSet : ℕ → ℕ → UInt8) (c : UInt8) : Option (ℕ → UInt8) :=
  let offset := (c.toInt8.toInt - bitmapFontAsciiOffset) % 2 ^ 16
  if bitmapFontCharCount ≤ offset then none else some (bitmapFontCharSet offset.toNat)

def kColors : List UInt32 :=
  [0x00000000, 0x000000AA, 0x0000AA00, 0x0000AAAA, 0x00AA0000, 0x00AA00AA, 0x00AA5500, 0x00AAAAAA,
    0x00555555, 0x005555FF, 0x0055FF55, 0x0055FFFF, 0x00FF5555, 0x00FF55FF, 0x00FFFF55, 0x00FFFFFF]

def mapColor (color : UInt8) : UInt32 := kColors[color.toNat]?.getD 0x00FFFFFF

end Framebuffer

/-- The members of `screen_t` and `fb_screen_t`, and the bytes of the framebuffer. -/
structure Framebuffer where
  mode : VideoMode
  cursorX : ℤ
  cursorY : ℤ
  columns : ℤ
  rows : ℤ
  fgColor : UInt32
  bgColor : UInt32
  colorForeground : UInt8
  colorBackground : UInt8
  frame : ℕ → UInt8

namespace Framebuffer

/-- A screen before it is initialized. -/
def construct (frame : ℕ → UInt8) : Framebuffer where
  mode := ⟨0, 0, 0, 0, 0⟩
  cursorX := 0
  cursorY := 0
  columns := 0
  rows := 0
  fgColor := 0xFFFFFFFF
  bgColor := 0x00000000
  colorForeground := 0xF
  colorBackground := 0x0
  frame := frame

def clearPixels (s : Framebuffer) : Framebuffer :=
  if s.mode.lfb = 0 then s
  else { s with frame := fun i => if i < s.mode.bpsl * s.mode.resY then 0 else s.frame i }

/-- The mode is the one that the driver has set. -/
def initializeVideo (mode : VideoMode) (s : Framebuffer) : Option Framebuffer :=
  let s := { s with
    mode := mode
    columns := mode.resX / bitmapFontCharWidth
    rows := mode.resY / bitmapFontCharHeight }
  if s.columns ≤ 0 ∨ s.rows ≤ 0 then none else some s

/-- What `fb_screen_t` does to be initialized, as far as it is about the picture. -/
def initializeScreen (mode : VideoMode) (s : Framebuffer) : Option Framebuffer :=
  (s.initializeVideo mode).map fun s => { s.clearPixels with
    fgColor := mapColor (UInt8.ofInt SC_WHITE)
    bgColor := mapColor (UInt8.ofInt SC_BLACK) }

/-- The pixels move up by one row of characters, in `uint32_t` arithmetic. -/
def scrollUp (s : Framebuffer) : Option Framebuffer :=
  if s.mode.lfb = 0 then some s
  else
    let scrollBytes := s.mode.bpsl * bitmapFontCharHeight % 2 ^ 32
    let copyBytes := s.mode.bpsl * (s.mode.resY - bitmapFontCharHeight) % 2 ^ 32
    if scrollBytes + copyBytes ≤ s.mode.size then
      some { s with frame := fun i =>
        if i < copyBytes then s.frame (i + scrollBytes)
        else if i < copyBytes + scrollBytes then 0 else s.frame i }
    else none

/-- The bytes of a pixel, the lowest one first. -/
def pixel (n : ℕ) (color : UInt32) : List UInt8 :=
  (List.range n).map fun j => (color.toNat / 2 ^ (8 * j)).toUInt8

/-- One pixel of a character, `row` being the offset of the first one in its line. -/
def writePixel (mode : VideoMode) (row : ℤ) (cx : ℕ) (color : UInt32) (frame : ℕ → UInt8) :
    Option (ℕ → UInt8) :=
  if mode.bpp = 32 then store mode.size (row + cx * 4) (pixel 4 color) frame
  else if mode.bpp = 24 then store mode.size (row + cx * 3) (pixel 3 color) frame
  else some frame

/-- The color of a pixel of a character. One without pixels is a block. -/
def inkAt (fontChar : Option (ℕ → UInt8)) (fg bg : UInt32) (cy cx : ℕ) : UInt32 :=
  match fontChar with
  | none => fg
  | some pixels => if pixels (cy * bitmapFontCharWidth + cx) ≠ 0 then fg else bg

def drawChar (font : ℕ → ℕ → UInt8) (x y : ℤ) (c : UInt8) (s : Framebuffer) :
    Option Framebuffer :=
  let onScreenX := x * bitmapFontCharWidth
  let onScreenY := y * bitmapFontCharHeight
  if s.mode.resX - bitmapFontCharWidth < onScreenX ∨
      s.mode.resY - bitmapFontCharHeight < onScreenY then some s
  else
    let ink := inkAt (bitmapFontGetChar font c) s.fgColor s.bgColor
    let frame := (List.range bitmapFontCharHeight).foldlM (fun frame (cy : ℕ) =>
      let row := (onScreenY + cy) * s.mode.bpsl % 2 ^ 32 + onScreenX * (s.mode.bpp / 8 : ℕ)
      (List.range bitmapFontCharWidth).foldlM (fun frame cx =>
        writePixel s.mode row cx (ink cy cx) frame) frame) s.frame
    frame.map fun frame => { s with frame := frame }

def clean (s : Framebuffer) : Framebuffer := { s.clearPixels with
  cursorX := 0
  cursorY := 0 }

def backspace (font : ℕ → ℕ → UInt8) (s : Framebuffer) : Option Framebuffer :=
  if 0 < s.cursorX then
    let s := { s with cursorX := s.cursorX - 1 }
    s.drawChar font s.cursorX s.cursorY ' '.toUInt8
  else some s

/-- The start of the next row, after scrolling if there is none. -/
def nextRow (s : Framebuffer) : Option Framebuffer :=
  let s := { s with
    cursorX := 0
    cursorY := s.cursorY + 1 }
  if s.rows ≤ s.cursorY then s.scrollUp.map fun s => { s with cursorY := s.rows - 1 } else some s

def write (font : ℕ → ℕ → UInt8) (c : UInt8) (s : Framebuffer) : Option Framebuffer :=
  if c = '\n'.toUInt8 then s.nextRow
  else do
    let s ← s.drawChar font s.cursorX s.cursorY c
    let s := { s with cursorX := s.cursorX + 1 }
    if s.columns ≤ s.cursorX then s.nextRow else some s

def remove (font : ℕ → ℕ → UInt8) (s : Framebuffer) : Option Framebuffer :=
  s.drawChar font s.cursorX s.cursorY ' '.toUInt8

/-- The loop that scrolls `n` times. -/
def scrolls : ℕ → Framebuffer → Option Framebuffer
  | 0, s => some s
  | n + 1, s => s.scrollUp.bind (scrolls n)

/-- In `int` arithmetic. -/
def setCursor (x y : ℤ) (s : Framebuffer) : Option Framebuffer :=
  if s.columns ≤ 0 ∨ s.rows ≤ 0 then some { s with
    cursorX := 0
    cursorY := 0 }
  else
    let x := if x < 0 then 0 else x
    let y := if y < 0 then 0 else y
    let row := if s.columns ≤ x then (y + x / s.columns).bmod (2 ^ 32) else y
    let column := if s.columns ≤ x then x % s.columns else x
    if s.rows ≤ row then
      (scrolls (row - (s.rows - 1)).toNat s).map fun s => { s with
        cursorX := column
        cursorY := s.rows - 1 }
    else some { s with
      cursorX := column
      cursorY := row }

def setColorForeground (c : ℤ) (s : Framebuffer) : Framebuffer :=
  { s with fgColor := mapColor (UInt8.ofInt c) }

def setColorBackground (c : ℤ) (s : Framebuffer) : Framebuffer :=
  { s with bgColor := mapColor (UInt8.ofInt c) }

/-- The getter of `screen_t`, which `fb_screen_t` does not override. -/
def getColorForeground (s : Framebuffer) : ℤ := s.colorForeground.toNat

def exec (font : ℕ → ℕ → UInt8) : Framebuffer → ScreenOp → Option Framebuffer
  | s, .write c => s.write font c
  | s, .remove => s.remove font
  | s, .backspace => s.backspace font
  | s, .clean => some s.clean
  | s, .setCursor x y => s.setCursor x y

end Framebuffer

end Heartix.Terminal
