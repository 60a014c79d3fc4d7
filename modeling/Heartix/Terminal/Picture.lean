import Mathlib.Logic.Function.Basic
import Mathlib.Tactic.Linarith
import Mathlib.Tactic.Ring
import Heartix.Terminal.Framebuffer

/-!
What the framebuffer shows. The reference terminal writes on paper without an end:
its cells are numbered in reading order, and the screen is a window on them that
moves on by rows so that the cursor stays visible. A screen shows a paper if every
byte of its framebuffer is the one that the window's characters have there.
-/

namespace Heartix.Terminal

open Painting Framebuffer

/-- A character as it was drawn. -/
structure Drawn where
  char : UInt8
  ink : UInt32
  ground : UInt32
  deriving DecidableEq, Repr

/-- The reference terminal. `top` is the first row in the window, `position` the cell
under the cursor. A cell without a character is black. -/
structure Paper where
  columns : ℕ
  rows : ℕ
  top : ℕ
  position : ℕ
  ink : UInt32
  ground : UInt32
  cells : ℕ → Option Drawn

namespace Paper

/-- An empty paper. -/
def blank (columns rows : ℕ) (ink ground : UInt32) : Paper where
  columns := columns
  rows := rows
  top := 0
  position := 0
  ink := ink
  ground := ground
  cells := fun _ => none

/-- The cursor goes to a cell, and the window follows it. -/
def goTo (k : ℕ) (p : Paper) : Paper := { p with
  position := k
  top := max p.top (k / p.columns + 1 - p.rows) }

def draw (c : UInt8) (p : Paper) : Paper :=
  { p with cells := Function.update p.cells p.position (some ⟨c, p.ink, p.ground⟩) }

def perform (p : Paper) : ScreenOp → Paper
  | .write c =>
      if c = '\n'.toUInt8 then p.goTo ((p.position / p.columns + 1) * p.columns)
      else (p.draw c).goTo (p.position + 1)
  | .remove => p.draw ' '.toUInt8
  | .backspace =>
      if p.position % p.columns = 0 then p
      else { p with position := p.position - 1 }.draw ' '.toUInt8
  | .clean => { p with
      position := p.top * p.columns
      cells := fun _ => none }
  | .setCursor x y => p.goTo ((p.top + y.toNat) * p.columns + x.toNat)

/-- The cell at a place of the window. -/
def visible (p : Paper) (x y : ℕ) : Option Drawn := p.cells ((p.top + y) * p.columns + x)

end Paper

/-- A byte of a color. -/
def colorByte (color : UInt32) (j : ℕ) : UInt8 := (color.toNat / 2 ^ (8 * j)).toUInt8

/-- A byte of a pixel of a cell. -/
def cellByte (font : ℕ → ℕ → UInt8) (cell : Option Drawn) (cy cx j : ℕ) : UInt8 :=
  match cell with
  | none => 0
  | some d => colorByte (inkAt (bitmapFontGetChar font d.char) d.ink d.ground cy cx) j

/-- The bytes of a pixel. -/
def VideoMode.depth (mode : VideoMode) : ℕ := mode.bpp / 8

/-- The byte that the characters of the window have at an offset. -/
def picture (font : ℕ → ℕ → UInt8) (mode : VideoMode) (p : Paper) (i : ℕ) : UInt8 :=
  let y := i / mode.bpsl
  let x := i % mode.bpsl / mode.depth
  if x < p.columns * Framebuffer.bitmapFontCharWidth ∧
      y < p.rows * Framebuffer.bitmapFontCharHeight then
    cellByte font
      (p.visible (x / Framebuffer.bitmapFontCharWidth) (y / Framebuffer.bitmapFontCharHeight))
      (y % Framebuffer.bitmapFontCharHeight) (x % Framebuffer.bitmapFontCharWidth)
      (i % mode.bpsl % mode.depth)
  else 0

/-- A mode in which the given number of columns and rows fits. -/
structure VideoMode.Fits (mode : VideoMode) (columns rows : ℕ) : Prop where
  driven : mode.Driven
  bpp : mode.bpp = 24 ∨ mode.bpp = 32
  bpsl : mode.resX * mode.bpp / 8 ≤ mode.bpsl
  columns_pos : 0 < columns
  rows_pos : 0 < rows
  width : columns * 10 ≤ mode.resX
  height : rows * 19 ≤ mode.resY

namespace VideoMode.Fits

variable {mode : VideoMode} {columns rows x y i j : ℕ} {font : ℕ → ℕ → UInt8}

theorem size_eq (h : mode.Fits columns rows) : mode.size = mode.bpsl * mode.resY :=
  if_neg h.driven.lfb

theorem depth_cases (h : mode.Fits columns rows) :
    mode.bpp = 24 ∧ mode.depth = 3 ∨ mode.bpp = 32 ∧ mode.depth = 4 := by
  unfold VideoMode.depth
  rcases h.bpp with hbpp | hbpp
  · exact Or.inl ⟨hbpp, by rw [hbpp]⟩
  · exact Or.inr ⟨hbpp, by rw [hbpp]⟩

theorem depth_pos (h : mode.Fits columns rows) : 0 < mode.depth := by
  rcases h.depth_cases with ⟨_, hdepth⟩ | ⟨_, hdepth⟩ <;> omega

/-- The pixels of a line of characters fit into the bytes of a line. -/
theorem line_le (h : mode.Fits columns rows) : columns * 10 * mode.depth ≤ mode.bpsl := by
  have hbpsl := h.bpsl
  have hwidth := h.width
  rcases h.depth_cases with ⟨hbpp, hdepth⟩ | ⟨hbpp, hdepth⟩
  · rw [hbpp] at hbpsl
    rw [hdepth]
    omega
  · rw [hbpp] at hbpsl
    rw [hdepth]
    omega

theorem bpsl_pos (h : mode.Fits columns rows) : 0 < mode.bpsl := by
  have hline := h.line_le
  have hmul := Nat.mul_pos (Nat.mul_pos h.columns_pos (show 0 < 10 by decide)) h.depth_pos
  omega

/-- The line, the pixel and the byte at an offset. -/
theorem place (h : mode.Fits columns rows) (hx : x * mode.depth + j < mode.bpsl)
    (hj : j < mode.depth) :
    (y * mode.bpsl + (x * mode.depth + j)) / mode.bpsl = y ∧
      (y * mode.bpsl + (x * mode.depth + j)) % mode.bpsl / mode.depth = x ∧
      (y * mode.bpsl + (x * mode.depth + j)) % mode.bpsl % mode.depth = j := by
  have hbpsl := h.bpsl_pos
  have hdepth := h.depth_pos
  rw [Nat.mul_comm y, Nat.mul_add_div hbpsl, Nat.div_eq_of_lt hx, Nat.mul_add_mod,
    Nat.mod_eq_of_lt hx, Nat.mul_comm x, Nat.mul_add_div hdepth, Nat.div_eq_of_lt hj,
    Nat.mul_add_mod, Nat.mod_eq_of_lt hj]
  exact ⟨rfl, rfl, rfl⟩

/-- Every offset is one of a line, a pixel and a byte. -/
theorem offset_eq (mode : VideoMode) (i : ℕ) :
    i = i / mode.bpsl * mode.bpsl +
      (i % mode.bpsl / mode.depth * mode.depth + i % mode.bpsl % mode.depth) := by
  rw [Nat.div_add_mod', Nat.div_add_mod']

/-- A pixel of a character of the screen is inside the lines of the framebuffer. -/
theorem pixel_lt (h : mode.Fits columns rows) (hx : x < columns) {cx : ℕ} (hcx : cx < 10)
    (hj : j < mode.depth) : (x * 10 + cx) * mode.depth + j < mode.bpsl := by
  have hmul := Nat.mul_le_mul_right mode.depth (show x * 10 + cx + 1 ≤ columns * 10 by omega)
  have hline := h.line_le
  rw [Nat.add_mul, Nat.one_mul] at hmul
  omega

theorem offset_lt (h : mode.Fits columns rows) (hy : y < mode.resY) (hi : i < mode.bpsl) :
    y * mode.bpsl + i < mode.size := by
  have hmul := Nat.mul_le_mul_left mode.bpsl (show y + 1 ≤ mode.resY by omega)
  rw [h.size_eq]
  rw [Nat.mul_add, Nat.mul_one, Nat.mul_comm _ y] at hmul
  omega

/-- The bytes of the character at a place of the screen. -/
def InCell (mode : VideoMode) (x y i : ℕ) : Prop :=
  i / mode.bpsl / 19 = y ∧ i % mode.bpsl / mode.depth / 10 = x

/-- The bytes of one pixel. -/
def InPixel (mode : VideoMode) (x y i : ℕ) : Prop :=
  y * mode.bpsl + x * mode.depth ≤ i ∧ i < y * mode.bpsl + x * mode.depth + mode.depth

theorem inPixel_iff (h : mode.Fits columns rows) (hx : x * mode.depth + mode.depth ≤ mode.bpsl) :
    InPixel mode x y i ↔ i / mode.bpsl = y ∧ i % mode.bpsl / mode.depth = x := by
  have hdepth := h.depth_pos
  constructor
  · rintro ⟨hle, hlt⟩
    obtain ⟨j, rfl⟩ := Nat.exists_eq_add_of_le hle
    have hj : j < mode.depth := by omega
    obtain ⟨hline, hpixel, _⟩ := h.place (y := y) (show x * mode.depth + j < mode.bpsl by omega) hj
    rw [Nat.add_assoc]
    exact ⟨hline, hpixel⟩
  · rintro ⟨rfl, rfl⟩
    have hoffset := offset_eq mode i
    have hbyte := Nat.mod_lt (i % mode.bpsl) hdepth
    unfold InPixel
    omega

/-- The pixels of a character are those of its lines and columns. -/
theorem inCell_iff (h : mode.Fits columns rows) (hx : x < columns) :
    (∃ cy ∈ List.range 19, ∃ cx ∈ List.range 10, InPixel mode (x * 10 + cx) (y * 19 + cy) i) ↔
      InCell mode x y i := by
  have hpixel (cx : ℕ) (hcx : cx < 10) :
      (x * 10 + cx) * mode.depth + mode.depth ≤ mode.bpsl := by
    have hlt := h.pixel_lt hx hcx (Nat.sub_lt h.depth_pos Nat.one_pos)
    have hdepth := h.depth_pos
    omega
  constructor
  · rintro ⟨cy, hcy, cx, hcx, hin⟩
    rw [List.mem_range] at hcy hcx
    obtain ⟨hline, hcolumn⟩ := (h.inPixel_iff (hpixel cx hcx)).mp hin
    unfold InCell
    rw [hline, hcolumn]
    omega
  · rintro ⟨rfl, rfl⟩
    refine ⟨i / mode.bpsl % 19, List.mem_range.mpr (Nat.mod_lt _ (by decide)),
      i % mode.bpsl / mode.depth % 10, List.mem_range.mpr (Nat.mod_lt _ (by decide)), ?_⟩
    rw [h.inPixel_iff (hpixel _ (Nat.mod_lt _ (by decide)))]
    omega

theorem writePixel_eq (h : mode.Fits columns rows) (row : ℤ) (cx : ℕ) (color : UInt32) :
    writePixel mode row cx color =
      store mode.size (row + cx * mode.depth) (pixel mode.depth color) := by
  funext frame
  unfold writePixel
  rcases h.depth_cases with ⟨hbpp, hdepth⟩ | ⟨hbpp, hdepth⟩
  · rw [hbpp, hdepth, if_neg (by decide), if_pos rfl]
    rfl
  · rw [hbpp, hdepth, if_pos rfl]
    rfl

/-- The offset of a line of a character, which is no longer than an `uint32_t`. -/
theorem row_eq (h : mode.Fits columns rows) {cy : ℕ} (hy : y < rows) (hcy : cy < 19) :
    ((y : ℤ) * Framebuffer.bitmapFontCharHeight + cy) * mode.bpsl % 2 ^ 32 +
        (x : ℤ) * Framebuffer.bitmapFontCharWidth * (mode.bpp / 8 : ℕ) =
      (((y * 19 + cy) * mode.bpsl + x * 10 * mode.depth : ℕ) : ℤ) := by
  have hline : y * 19 + cy < mode.resY := by
    have hheight := h.height
    omega
  have hlt := h.offset_lt hline h.bpsl_pos
  have hsize := h.driven.size
  rw [h.size_eq] at hlt
  have hcast : ((y : ℤ) * Framebuffer.bitmapFontCharHeight + cy) * mode.bpsl =
      (((y * 19 + cy) * mode.bpsl : ℕ) : ℤ) := by
    push_cast
    rfl
  rw [hcast, Int.emod_eq_of_lt (Int.natCast_nonneg _) (by omega)]
  push_cast
  rfl

theorem length_pixel (n : ℕ) (color : UInt32) : (pixel n color).length = n := by
  unfold pixel
  rw [List.length_map, List.length_range]

theorem getElem_pixel {n : ℕ} {color : UInt32} (hj : j < (pixel n color).length) :
    (pixel n color)[j] = colorByte color j := by
  simp [pixel, colorByte]

/-- The loops of `drawChar` paint the pixels of a character. -/
theorem paints_cell (h : mode.Fits columns rows) (hx : x < columns) (hy : y < rows)
    (ink : ℕ → ℕ → UInt32) {target : ℕ → UInt8}
    (htarget : ∀ i, InCell mode x y i → target i =
      colorByte (ink (i / mode.bpsl % 19) (i % mode.bpsl / mode.depth % 10))
        (i % mode.bpsl % mode.depth)) :
    Paints target (InCell mode x y) fun frame =>
      (List.range Framebuffer.bitmapFontCharHeight).foldlM (fun frame (cy : ℕ) =>
        let row := ((y : ℤ) * Framebuffer.bitmapFontCharHeight + cy) * mode.bpsl % 2 ^ 32 +
          (x : ℤ) * Framebuffer.bitmapFontCharWidth * (mode.bpp / 8 : ℕ)
        (List.range Framebuffer.bitmapFontCharWidth).foldlM (fun frame cx =>
          writePixel mode row cx (ink cy cx) frame) frame) frame := by
  have hcongr (step : (ℕ → UInt8) → Option (ℕ → UInt8))
      (hpaints : Paints target (fun i => ∃ cy ∈ List.range 19, ∃ cx ∈ List.range 10,
        InPixel mode (x * 10 + cx) (y * 19 + cy) i) step) :
      Paints target (InCell mode x y) step := hpaints.congr fun i => h.inCell_iff hx
  apply hcongr
  refine paints_foldlM fun cy hcy => paints_foldlM fun cx hcx => ?_
  rw [List.mem_range] at hcy hcx
  have hcell (j : ℕ) (hj : j < mode.depth) := h.pixel_lt hx hcx hj
  have hline : y * 19 + cy < mode.resY := by
    have hheight := h.height
    omega
  have hlast := hcell (mode.depth - 1) (Nat.sub_lt h.depth_pos Nat.one_pos)
  have hdepth := h.depth_pos
  have hend := h.offset_lt hline hlast
  have hoffset : (((y * 19 + cy) * mode.bpsl + x * 10 * mode.depth : ℕ) : ℤ) +
      (cx : ℤ) * mode.depth =
        (((y * 19 + cy) * mode.bpsl + (x * 10 + cx) * mode.depth : ℕ) : ℤ) := by
    push_cast
    ring
  rw [h.row_eq hy hcy, h.writePixel_eq, hoffset]
  have hdata (j : ℕ) (hj : j < (pixel mode.depth (ink cy cx)).length) :
      (pixel mode.depth (ink cy cx))[j] =
        target ((y * 19 + cy) * mode.bpsl + (x * 10 + cx) * mode.depth + j) := by
    rw [getElem_pixel]
    rw [length_pixel] at hj
    obtain ⟨hy', hx', hj'⟩ := h.place (y := y * 19 + cy) (hcell j hj) hj
    have hin : InCell mode x y
        ((y * 19 + cy) * mode.bpsl + ((x * 10 + cx) * mode.depth + j)) := by
      unfold InCell
      rw [hy', hx']
      omega
    rw [Nat.add_assoc, htarget _ hin, hy', hx', hj', Nat.mul_comm y, Nat.mul_comm x,
      Nat.mul_add_mod, Nat.mul_add_mod, Nat.mod_eq_of_lt hcy, Nat.mod_eq_of_lt hcx]
  have hroom : (y * 19 + cy) * mode.bpsl + (x * 10 + cx) * mode.depth +
      (pixel mode.depth (ink cy cx)).length ≤ mode.size := by
    rw [length_pixel]
    omega
  have hstore := paints_store hroom hdata
  rw [length_pixel] at hstore
  exact hstore

end VideoMode.Fits

end Heartix.Terminal
