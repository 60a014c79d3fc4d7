import Mathlib.Data.Int.DivMod
import Mathlib.Tactic.Linarith
import Mathlib.Tactic.Ring
import Heartix.Terminal.Screen

/-!
The framebuffer screen. Each write moves on by one cell, and scrolling moves the
rows up, so cells are numbered from the first row that has ever been on the
screen: a number then stays with its cell, and the cursor of a screen that
scrolls keeps counting up.
-/

namespace Heartix.Terminal

def bitmapFontCharWidth : ℤ := 10
def bitmapFontCharHeight : ℤ := 19

/-- The colors are left out: a cell holds the character that was drawn in it.
`scrolled` counts how often the screen has scrolled. -/
structure FbScreen where
  resX : ℤ
  resY : ℤ
  columns : ℤ
  rows : ℤ
  cursorX : ℤ
  cursorY : ℤ
  cells : ℤ → ℤ → UInt8
  scrolled : ℕ

def blank : UInt8 := ' '.toUInt8

namespace FbScreen

def clearPixels (s : FbScreen) : FbScreen := { s with cells := fun _ _ => blank }

def scrollUp (s : FbScreen) : FbScreen := { s with
  cells := fun x y => if y < s.rows - 1 then s.cells x (y + 1) else blank
  scrolled := s.scrolled + 1 }

def drawChar (x y : ℤ) (c : UInt8) (s : FbScreen) : FbScreen :=
  let onScreenX := x * bitmapFontCharWidth
  let onScreenY := y * bitmapFontCharHeight
  if s.resX - bitmapFontCharWidth < onScreenX ∨ s.resY - bitmapFontCharHeight < onScreenY then s
  else { s with cells := fun x' y' => if x' = x ∧ y' = y then c else s.cells x' y' }

def clean (s : FbScreen) : FbScreen := { s.clearPixels with
  cursorX := 0
  cursorY := 0 }

def backspace (s : FbScreen) : FbScreen :=
  if 0 < s.cursorX then { s with cursorX := s.cursorX - 1 }.drawChar (s.cursorX - 1) s.cursorY blank
  else s

/-- The start of the next row, after scrolling if there is none. -/
def nextRow (s : FbScreen) : FbScreen :=
  if s.rows ≤ s.cursorY + 1 then { s.scrollUp with
    cursorX := 0
    cursorY := s.rows - 1 }
  else { s with
    cursorX := 0
    cursorY := s.cursorY + 1 }

def write (c : UInt8) (s : FbScreen) : FbScreen :=
  if c = '\n'.toUInt8 then s.nextRow
  else
    let drawn := s.drawChar s.cursorX s.cursorY c
    if drawn.columns ≤ drawn.cursorX + 1 then drawn.nextRow
    else { drawn with cursorX := drawn.cursorX + 1 }

def remove (s : FbScreen) : FbScreen := s.drawChar s.cursorX s.cursorY blank

def setCursor (x y : ℤ) (s : FbScreen) : FbScreen :=
  if s.columns ≤ 0 ∨ s.rows ≤ 0 then { s with
    cursorX := 0
    cursorY := 0 }
  else
    let x := if x < 0 then 0 else x
    let y := if y < 0 then 0 else y
    let row := if s.columns ≤ x then y + x / s.columns else y
    let column := if s.columns ≤ x then x % s.columns else x
    if s.rows ≤ row then { (scrollUp^[(row - (s.rows - 1)).toNat] s) with
      cursorX := column
      cursorY := s.rows - 1 }
    else { s with
      cursorX := column
      cursorY := row }

end FbScreen

/-- The calls that do nothing on this screen leave the state as it is. -/
def fbScreen : Screen FbScreen where
  write := FbScreen.write
  remove := FbScreen.remove
  clean := FbScreen.clean
  flush s := s
  setCursor := FbScreen.setCursor
  getCursorX s := s.cursorX
  getCursorY s := s.cursorY
  setCursorVisible _ s := s
  setScrollAreaScreen s := s
  setScrollArea _ _ s := s
  scroll _ s := s
  getColumns s := s.columns
  getRows s := s.rows
  setColorForeground _ s := s
  setColorBackground _ s := s
  getColorForeground _ := SC_WHITE

namespace FbScreen

/-- The screen has cells, they fit into the resolution, and the cursor is on
one of them. -/
structure OnScreen (s : FbScreen) : Prop where
  columns_pos : 1 ≤ s.columns
  rows_pos : 1 ≤ s.rows
  width : s.columns * bitmapFontCharWidth ≤ s.resX
  height : s.rows * bitmapFontCharHeight ≤ s.resY
  cursorX_nonneg : 0 ≤ s.cursorX
  cursorX_lt : s.cursorX < s.columns
  cursorY_nonneg : 0 ≤ s.cursorY
  cursorY_lt : s.cursorY < s.rows

/-- The number of the cell at a place of the screen. -/
def number (s : FbScreen) (x y : ℤ) : ℤ := s.columns * (s.scrolled + y) + x

/-- The number of the cell under the cursor. -/
def position (s : FbScreen) : ℤ := s.number s.cursorX s.cursorY

/-- The number after the last cell. -/
def bottom (s : FbScreen) : ℤ := s.number 0 s.rows

/-- The cell with a number. -/
def cell (s : FbScreen) (k : ℤ) : UInt8 :=
  s.cells (k % s.columns) (k / s.columns - s.scrolled)

/-- Two screens of one size. -/
structure SameSize (s t : FbScreen) : Prop where
  resX : t.resX = s.resX
  resY : t.resY = s.resY
  columns : t.columns = s.columns
  rows : t.rows = s.rows

variable {s t u : FbScreen} {x y k : ℤ} {c : UInt8}

theorem SameSize.refl (s : FbScreen) : SameSize s s := ⟨rfl, rfl, rfl, rfl⟩

theorem SameSize.trans (h : SameSize s t) (h' : SameSize t u) : SameSize s u :=
  ⟨h'.resX.trans h.resX, h'.resY.trans h.resY, h'.columns.trans h.columns,
    h'.rows.trans h.rows⟩

/-- A cursor within the size of a screen on which there is one. -/
theorem OnScreen.of_sameSize (h : s.OnScreen) (hsize : SameSize s t)
    (hx : 0 ≤ t.cursorX ∧ t.cursorX < s.columns) (hy : 0 ≤ t.cursorY ∧ t.cursorY < s.rows) :
    t.OnScreen := by
  obtain ⟨hresX, hresY, hcolumns, hrows⟩ := hsize
  refine ⟨?_, ?_, ?_, ?_, hx.1, ?_, hy.1, ?_⟩
  · rw [hcolumns]
    exact h.columns_pos
  · rw [hrows]
    exact h.rows_pos
  · rw [hcolumns, hresX]
    exact h.width
  · rw [hrows, hresY]
    exact h.height
  · rw [hcolumns]
    exact hx.2
  · rw [hrows]
    exact hy.2

/-- A place of the screen lies in the picture. -/
theorem OnScreen.drawChar_eq (h : s.OnScreen) (hx : x < s.columns) (hy : y < s.rows) :
    s.drawChar x y c = { s with
      cells := fun x' y' => if x' = x ∧ y' = y then c else s.cells x' y' } := by
  have hwidth := h.width
  have hheight := h.height
  unfold drawChar
  unfold bitmapFontCharWidth at hwidth ⊢
  unfold bitmapFontCharHeight at hheight ⊢
  dsimp only
  rw [if_neg]
  intro hout
  omega

/-- Which number a place has. -/
theorem OnScreen.number_eq_iff (h : s.OnScreen) (hx : 0 ≤ x) (hx' : x < s.columns) :
    k = s.number x y ↔ k % s.columns = x ∧ k / s.columns - s.scrolled = y := by
  have hpos : 0 < s.columns := h.columns_pos
  have hunique := Int.ediv_emod_unique (a := k) (r := x) (q := s.scrolled + y) hpos
  unfold number
  constructor
  · intro hk
    have hdivmod := hunique.mpr ⟨by omega, hx, hx'⟩
    omega
  · intro hplace
    have hsum := (hunique.mp ⟨by omega, hplace.1⟩).1
    omega

theorem OnScreen.cell_drawChar (h : s.OnScreen) (hx : 0 ≤ x) (hx' : x < s.columns)
    (hy : y < s.rows) : (s.drawChar x y c).cell k = if k = s.number x y then c else s.cell k := by
  rw [h.drawChar_eq hx' hy]
  unfold cell
  dsimp only
  by_cases hk : k = s.number x y
  · rw [if_pos hk, if_pos ((h.number_eq_iff hx hx').mp hk)]
  · rw [if_neg hk, if_neg (mt (h.number_eq_iff hx hx').mpr hk)]

theorem OnScreen.number_lt_bottom_iff (h : s.OnScreen) (hx : 0 ≤ x) (hx' : x < s.columns) :
    s.number x y < s.bottom ↔ y < s.rows := by
  have hpos : 0 < s.columns := h.columns_pos
  unfold bottom number
  constructor
  · intro hlt
    by_contra hle
    have hmul := Int.mul_le_mul_of_nonneg_left (a := s.scrolled + s.rows) (b := s.scrolled + y)
      (by omega) (Int.le_of_lt hpos)
    omega
  · intro hy
    have hmul := Int.mul_le_mul_of_nonneg_left (a := s.scrolled + y + 1) (b := s.scrolled + s.rows)
      (by omega) (Int.le_of_lt hpos)
    rw [Int.mul_add, Int.mul_one] at hmul
    omega

theorem OnScreen.position_lt_bottom (h : s.OnScreen) : s.position < s.bottom :=
  (h.number_lt_bottom_iff h.cursorX_nonneg h.cursorX_lt).mpr h.cursorY_lt

theorem sameSize_scrollUp (n : ℕ) (s : FbScreen) :
    SameSize s (scrollUp^[n] s) ∧ (scrollUp^[n] s).scrolled = s.scrolled + n := by
  induction n generalizing s with
  | zero => exact ⟨.refl s, rfl⟩
  | succ n ih =>
    obtain ⟨hsize, hscrolled⟩ := ih s.scrollUp
    rw [Function.iterate_succ_apply]
    refine ⟨⟨hsize.resX, hsize.resY, hsize.columns, hsize.rows⟩, ?_⟩
    rw [hscrolled]
    change s.scrolled + 1 + n = _
    omega

/-- What stays when the cursor goes to another cell that is on the screen. -/
structure Kept (s t : FbScreen) : Prop where
  scrolled : t.scrolled = s.scrolled
  cells : t.cells = s.cells

theorem Kept.cell (h : Kept s t) (hsize : SameSize s t) : t.cell = s.cell := by
  funext k
  unfold FbScreen.cell
  rw [h.scrolled, h.cells, hsize.columns]

/-- The cursor has moved to the cell with the number `k`. The rest is kept if the
cell is on the screen without scrolling. -/
structure Moved (s t : FbScreen) (k : ℤ) : Prop where
  size : SameSize s t
  onScreen : t.OnScreen
  position : t.position = k
  scrolled_le : s.scrolled ≤ t.scrolled
  kept : k < s.bottom → Kept s t

theorem OnScreen.nextRow (h : s.OnScreen) : Moved s s.nextRow (s.number s.columns s.cursorY) := by
  have hcolumns := h.columns_pos
  have hy := h.cursorY_nonneg
  have hy' := h.cursorY_lt
  have hnumber : s.number s.columns s.cursorY = s.number 0 (s.cursorY + 1) := by
    unfold number
    ring
  unfold FbScreen.nextRow
  by_cases hlast : s.rows ≤ s.cursorY + 1
  · rw [if_pos hlast]
    refine ⟨⟨rfl, rfl, rfl, rfl⟩, ?_, ?_, Nat.le_succ _, ?_⟩
    · refine h.of_sameSize ⟨rfl, rfl, rfl, rfl⟩ ?_ ?_
      · change (0 : ℤ) ≤ 0 ∧ 0 < s.columns
        omega
      · change 0 ≤ s.rows - 1 ∧ s.rows - 1 < s.rows
        omega
    · have hrow : s.rows = s.cursorY + 1 := by omega
      rw [hnumber]
      unfold position number scrollUp
      dsimp only
      rw [hrow]
      push_cast
      ring
    · intro hbottom
      rw [hnumber, h.number_lt_bottom_iff (Int.le_refl 0) hcolumns] at hbottom
      omega
  · rw [if_neg hlast]
    refine ⟨⟨rfl, rfl, rfl, rfl⟩, ?_, hnumber.symm, Nat.le_refl _, fun _ => ⟨rfl, rfl⟩⟩
    refine h.of_sameSize ⟨rfl, rfl, rfl, rfl⟩ ?_ ?_
    · change (0 : ℤ) ≤ 0 ∧ 0 < s.columns
      omega
    · change 0 ≤ s.cursorY + 1 ∧ s.cursorY + 1 < s.rows
      omega

/-- The cursor goes to the given place, counted from the first row on the screen. -/
theorem OnScreen.setCursor (h : s.OnScreen) (hx : 0 ≤ x) (hy : 0 ≤ y) :
    Moved s (s.setCursor x y) (s.number x y) := by
  have hcolumns := h.columns_pos
  have hrows := h.rows_pos
  have hpos : 0 < s.columns := hcolumns
  let row := if s.columns ≤ x then y + x / s.columns else y
  let column := if s.columns ≤ x then x % s.columns else x
  have hplace : s.number x y = s.number column row ∧ 0 ≤ column ∧ column < s.columns ∧
      0 ≤ row := by
    by_cases hwide : s.columns ≤ x
    · have hrow : row = y + x / s.columns := if_pos hwide
      have hcolumn : column = x % s.columns := if_pos hwide
      have hdiv : 0 ≤ x / s.columns := Int.ediv_nonneg hx (Int.le_of_lt hpos)
      have hdivmod := Int.mul_ediv_add_emod x s.columns
      refine ⟨?_, ?_, ?_, by omega⟩
      · rw [hrow, hcolumn]
        unfold number
        rw [← Int.add_assoc, Int.mul_add s.columns (s.scrolled + y)]
        omega
      · rw [hcolumn]
        exact Int.emod_nonneg x (by omega)
      · rw [hcolumn]
        exact Int.emod_lt_of_pos x hpos
    · have hrow : row = y := if_neg hwide
      have hcolumn : column = x := if_neg hwide
      rw [hrow, hcolumn]
      exact ⟨rfl, hx, by omega, hy⟩
  obtain ⟨hnumber, hcolumn, hcolumn', hrow⟩ := hplace
  have hset : s.setCursor x y = if s.rows ≤ row then
      { (scrollUp^[(row - (s.rows - 1)).toNat] s) with
        cursorX := column
        cursorY := s.rows - 1 }
      else { s with
        cursorX := column
        cursorY := row } := by
    unfold FbScreen.setCursor
    rw [if_neg (show ¬ (s.columns ≤ 0 ∨ s.rows ≤ 0) by omega)]
    dsimp only
    rw [if_neg (Int.not_lt.mpr hx), if_neg (Int.not_lt.mpr hy)]
  rw [hset, hnumber]
  by_cases hbelow : s.rows ≤ row
  · obtain ⟨hsize, hscrolled⟩ := sameSize_scrollUp (row - (s.rows - 1)).toNat s
    rw [if_pos hbelow]
    have hsize' : SameSize s { (scrollUp^[(row - (s.rows - 1)).toNat] s) with
        cursorX := column
        cursorY := s.rows - 1 } := ⟨hsize.resX, hsize.resY, hsize.columns, hsize.rows⟩
    refine ⟨hsize', h.of_sameSize hsize' ⟨hcolumn, hcolumn'⟩ ?_, ?_, ?_, ?_⟩
    · change 0 ≤ s.rows - 1 ∧ s.rows - 1 < s.rows
      omega
    · unfold position number
      dsimp only
      have hrow' : (((scrollUp^[(row - (s.rows - 1)).toNat] s).scrolled : ℕ) : ℤ) +
          (s.rows - 1) = s.scrolled + row := by
        rw [hscrolled]
        omega
      rw [hsize.columns, hrow']
    · dsimp only
      omega
    · intro hbottom
      rw [h.number_lt_bottom_iff hcolumn hcolumn'] at hbottom
      omega
  · rw [if_neg hbelow]
    refine ⟨⟨rfl, rfl, rfl, rfl⟩, ?_, rfl, Nat.le_refl _, fun _ => ⟨rfl, rfl⟩⟩
    refine h.of_sameSize ⟨rfl, rfl, rfl, rfl⟩ ⟨hcolumn, hcolumn'⟩ ?_
    change 0 ≤ row ∧ row < s.rows
    omega

/-- A column in front of the first one is taken for the first one. -/
theorem setCursor_of_neg (hx : x < 0) : s.setCursor x y = s.setCursor 0 y := by
  unfold FbScreen.setCursor
  rw [if_pos hx, if_neg (Int.lt_irrefl 0)]

theorem OnScreen.drawn (h : s.OnScreen) (c : UInt8) :
    SameSize s (s.drawChar s.cursorX s.cursorY c) ∧
      (s.drawChar s.cursorX s.cursorY c).OnScreen ∧
      (s.drawChar s.cursorX s.cursorY c).scrolled = s.scrolled ∧
      (s.drawChar s.cursorX s.cursorY c).cursorX = s.cursorX ∧
      (s.drawChar s.cursorX s.cursorY c).cursorY = s.cursorY := by
  rw [h.drawChar_eq h.cursorX_lt h.cursorY_lt]
  exact ⟨⟨rfl, rfl, rfl, rfl⟩, h.of_sameSize ⟨rfl, rfl, rfl, rfl⟩
    ⟨h.cursorX_nonneg, h.cursorX_lt⟩ ⟨h.cursorY_nonneg, h.cursorY_lt⟩, rfl, rfl, rfl⟩

/-- Cells with a text written over them. -/
def overlay (start : ℤ) (text : List UInt8) (f : ℤ → UInt8) (k : ℤ) : UInt8 :=
  if start ≤ k then (text[(k - start).toNat]?).getD (f k) else f k

theorem overlay_nil (start : ℤ) (f : ℤ → UInt8) : overlay start [] f = f := by
  funext k
  simp [overlay]

theorem overlay_cons (start : ℤ) (c : UInt8) (text : List UInt8) (f : ℤ → UInt8) :
    overlay start (c :: text) f = overlay (start + 1) text (overlay start [c] f) := by
  funext k
  unfold overlay
  rcases Int.lt_trichotomy k start with hk | hk | hk
  · rw [if_neg (by omega), if_neg (by omega), if_neg (by omega)]
  · rw [if_pos (by omega), if_neg (by omega), if_pos (by omega)]
    simp [hk]
  · have hindex : (k - start).toNat = (k - (start + 1)).toNat + 1 := by omega
    rw [if_pos (by omega), if_pos (by omega), if_pos (by omega), hindex, List.getElem?_cons_succ,
      List.getElem?_cons_succ, List.getElem?_nil]
    rfl

theorem overlay_singleton (start : ℤ) (c : UInt8) (f : ℤ → UInt8) (k : ℤ) :
    overlay start [c] f k = if k = start then c else f k := by
  unfold overlay
  by_cases hk : k = start
  · rw [if_pos hk, if_pos (by omega), hk]
    simp
  · rw [if_neg hk]
    by_cases hle : start ≤ k
    · rw [if_pos hle, List.getElem?_eq_none (by rw [List.length_singleton]; omega)]
      rfl
    · rw [if_neg hle]

theorem overlay_congr {start : ℤ} {text : List UInt8} {f g : ℤ → UInt8} (h : f k = g k) :
    overlay start text f k = overlay start text g k := by
  unfold overlay
  rw [h]

theorem overlay_append (start : ℤ) (before text : List UInt8) (f : ℤ → UInt8) :
    overlay start (before ++ text) f =
      overlay (start + before.length) text (overlay start before f) := by
  induction before generalizing start f with
  | nil =>
    rw [List.nil_append, List.length_nil, overlay_nil, Nat.cast_zero, Int.add_zero]
  | cons c before ih =>
    have hstart : start + (c :: before).length = start + 1 + before.length := by
      rw [List.length_cons]
      omega
    rw [List.cons_append, overlay_cons, ih, hstart, ← overlay_cons]

/-- A text hides the ones under it that are not longer. -/
theorem overlay_overlay (start : ℤ) {old text : List UInt8} (h : old.length ≤ text.length)
    (f : ℤ → UInt8) : overlay start text (overlay start old f) = overlay start text f := by
  funext k
  unfold overlay
  by_cases hk : start ≤ k
  · rw [if_pos hk, if_pos hk, if_pos hk]
    by_cases hlt : (k - start).toNat < text.length
    · rw [List.getElem?_eq_getElem hlt]
      rfl
    · rw [List.getElem?_eq_none (by omega : text.length ≤ _),
        List.getElem?_eq_none (by omega : old.length ≤ _)]
      rfl
  · rw [if_neg hk, if_neg hk, if_neg hk]

/-- A line is written again from the index `j` on. -/
theorem overlay_take (start : ℤ) {line text : List UInt8} {j : ℕ} (hj : j ≤ line.length)
    (h : line.length ≤ j + text.length) (f : ℤ → UInt8) :
    overlay (start + j) text (overlay start line f) =
      overlay start (line.take j ++ text) f := by
  have htake : (line.take j).length = j := List.length_take_of_le hj
  have hdrop : (line.drop j).length ≤ text.length := by
    rw [List.length_drop]
    omega
  have hline : overlay start line f =
      overlay (start + j) (line.drop j) (overlay start (line.take j) f) := by
    have hsplit := overlay_append start (line.take j) (line.drop j) f
    rw [List.take_append_drop, htake] at hsplit
    exact hsplit
  rw [hline, overlay_overlay (start + j) hdrop, overlay_append, htake]

/-- A blank at the end of a line does not show. -/
theorem overlay_blank (start : ℤ) (line : List UInt8) :
    overlay start (line ++ [blank]) (fun _ => blank) = overlay start line (fun _ => blank) := by
  rw [overlay_append]
  funext k
  rw [overlay_singleton]
  by_cases hk : k = start + line.length
  · have hindex : (k - start).toNat = line.length := by omega
    rw [if_pos hk]
    unfold overlay
    rw [if_pos (by omega), hindex, List.getElem?_eq_none (Nat.le_refl _)]
    rfl
  · rw [if_neg hk]

theorem overlay_replicate (start : ℤ) (line : List UInt8) (n : ℕ) :
    overlay start (line ++ List.replicate n blank) (fun _ => blank) =
      overlay start line (fun _ => blank) := by
  induction n with
  | zero => rw [List.replicate_zero, List.append_nil]
  | succ n ih => rw [List.replicate_succ', ← List.append_assoc, overlay_blank, ih]

/-- A text has been written from the cursor on. The rest is kept if the screen
has not scrolled. -/
structure Written (s t : FbScreen) (text : List UInt8) : Prop where
  size : SameSize s t
  onScreen : t.OnScreen
  position : t.position = s.position + text.length
  scrolled_le : s.scrolled ≤ t.scrolled
  kept : s.position + text.length < s.bottom →
    t.scrolled = s.scrolled ∧ t.cell = overlay s.position text s.cell

theorem OnScreen.write (h : s.OnScreen) (hc : c ≠ '\n'.toUInt8) :
    Written s (s.write c) [c] := by
  obtain ⟨hsize, hdrawn, hscrolled, hx, hy⟩ := h.drawn c
  have hcell : (s.drawChar s.cursorX s.cursorY c).cell = overlay s.position [c] s.cell := by
    funext k
    rw [h.cell_drawChar h.cursorX_nonneg h.cursorX_lt h.cursorY_lt, overlay_singleton]
    rfl
  unfold FbScreen.write
  rw [if_neg hc]
  dsimp only
  generalize s.drawChar s.cursorX s.cursorY c = drawn at hsize hdrawn hscrolled hx hy hcell ⊢
  have hnumber (x y : ℤ) : drawn.number x y = s.number x y := by
    unfold number
    rw [hsize.columns, hscrolled]
  have hbottom : drawn.bottom = s.bottom := by
    unfold bottom
    rw [hnumber, hsize.rows]
  have hnext : s.position + [c].length = drawn.number (drawn.cursorX + 1) drawn.cursorY := by
    rw [hnumber, hx, hy, List.length_singleton]
    unfold position number
    push_cast
    ring
  have hlt := hdrawn.cursorX_lt
  by_cases hlast : drawn.columns ≤ drawn.cursorX + 1
  · rw [if_pos hlast]
    obtain ⟨hsize', honScreen, hposition, hscrolled_le, hkept⟩ := hdrawn.nextRow
    have hcolumns : drawn.columns = drawn.cursorX + 1 := by omega
    rw [hcolumns, ← hnext] at hposition hkept
    rw [hscrolled] at hscrolled_le
    refine ⟨hsize.trans hsize', honScreen, hposition, hscrolled_le, fun hroom => ?_⟩
    have hkept := hkept (by rw [hbottom]; exact hroom)
    exact ⟨hkept.scrolled.trans hscrolled, (hkept.cell hsize').trans hcell⟩
  · rw [if_neg hlast]
    have hx0 := hdrawn.cursorX_nonneg
    refine ⟨⟨hsize.resX, hsize.resY, hsize.columns, hsize.rows⟩, ?_, hnext.symm,
      Nat.le_of_eq hscrolled.symm, fun _ => ⟨hscrolled, hcell⟩⟩
    refine hdrawn.of_sameSize ⟨rfl, rfl, rfl, rfl⟩ ?_
      ⟨hdrawn.cursorY_nonneg, hdrawn.cursorY_lt⟩
    change 0 ≤ drawn.cursorX + 1 ∧ drawn.cursorX + 1 < drawn.columns
    omega

/-- A text without line breaks. -/
theorem OnScreen.writeText (h : s.OnScreen) {text : List UInt8}
    (htext : ∀ c ∈ text, c ≠ '\n'.toUInt8) :
    Written s (text.foldl (fun s c => s.write c) s) text := by
  induction text generalizing s with
  | nil =>
    refine ⟨.refl s, h, ?_, Nat.le_refl _, fun _ => ⟨rfl, ?_⟩⟩
    · rw [List.length_nil]
      exact (Int.add_zero _).symm
    · exact (overlay_nil _ _).symm
  | cons c text ih =>
    obtain ⟨hsize, honScreen, hposition, hle, hkept⟩ := h.write (htext c List.mem_cons_self)
    obtain ⟨hsize', honScreen', hposition', hle', hkept'⟩ :=
      ih honScreen (fun d hd => htext d (List.mem_cons_of_mem c hd))
    rw [List.length_singleton] at hposition hkept
    refine ⟨hsize.trans hsize', honScreen', ?_, Nat.le_trans hle hle', fun hroom => ?_⟩
    · rw [List.foldl_cons, hposition', hposition, List.length_cons]
      push_cast
      ring
    · rw [List.length_cons] at hroom
      push_cast at hroom hkept
      obtain ⟨hscrolled, hcell⟩ := hkept (by omega)
      have hbottom : (s.write c).bottom = s.bottom := by
        unfold bottom number
        rw [hsize.columns, hsize.rows, hscrolled]
      obtain ⟨hscrolled', hcell'⟩ := hkept' (by rw [hposition, hbottom]; push_cast; omega)
      rw [List.foldl_cons, overlay_cons]
      refine ⟨hscrolled'.trans hscrolled, ?_⟩
      rw [hcell', hcell, hposition]
      rfl

/-- A blank is drawn under the cursor, which stays. -/
theorem OnScreen.remove (h : s.OnScreen) :
    SameSize s s.remove ∧ s.remove.OnScreen ∧ s.remove.position = s.position ∧
      s.remove.scrolled = s.scrolled ∧
      s.remove.cell = overlay s.position [blank] s.cell := by
  obtain ⟨hsize, hdrawn, hscrolled, hx, hy⟩ := h.drawn blank
  refine ⟨hsize, hdrawn, ?_, hscrolled, ?_⟩
  · unfold FbScreen.remove position number
    rw [hsize.columns, hscrolled, hx, hy]
  · funext k
    unfold FbScreen.remove
    rw [h.cell_drawChar h.cursorX_nonneg h.cursorX_lt h.cursorY_lt, overlay_singleton]
    rfl

/-- Since `s` the screen has not scrolled, and the cells are now the given ones. -/
structure Redrawn (s t : FbScreen) (cell : ℤ → UInt8) : Prop where
  size : SameSize s t
  scrolled : t.scrolled = s.scrolled
  cell : t.cell = cell

theorem Redrawn.trans {f g : ℤ → UInt8} (h : Redrawn s t f) (h' : Redrawn t u g) :
    Redrawn s u g :=
  ⟨h.size.trans h'.size, h'.scrolled.trans h.scrolled, h'.cell⟩

theorem number_eq (hsize : SameSize s t) (hscrolled : t.scrolled = s.scrolled) (x y : ℤ) :
    t.number x y = s.number x y := by
  unfold number
  rw [hsize.columns, hscrolled]

theorem bottom_eq (hsize : SameSize s t) (hscrolled : t.scrolled = s.scrolled) :
    t.bottom = s.bottom := by
  unfold bottom
  rw [number_eq hsize hscrolled, hsize.rows]

theorem Moved.redrawn (h : Moved s t k) (hk : k < s.bottom) : Redrawn s t s.cell :=
  ⟨h.size, (h.kept hk).scrolled, (h.kept hk).cell h.size⟩

theorem Written.redrawn {text : List UInt8} (h : Written s t text)
    (hroom : s.position + text.length < s.bottom) :
    Redrawn s t (overlay s.position text s.cell) :=
  ⟨h.size, (h.kept hroom).1, (h.kept hroom).2⟩

/-- A place has a greater number after the screen has scrolled. -/
theorem OnScreen.number_lt (h : s.OnScreen) (hsize : SameSize s t)
    (hscrolled : s.scrolled < t.scrolled) (x y : ℤ) : s.number x y < t.number x y := by
  have hpos : 0 < s.columns := h.columns_pos
  have hmul := Int.mul_lt_mul_of_pos_left (a := s.scrolled + y) (b := t.scrolled + y)
    (by omega) hpos
  unfold number
  rw [hsize.columns]
  omega

/-- A cursor behind the last cell of a screen stands on one that has scrolled. -/
theorem OnScreen.scrolled_lt (h : t.OnScreen) (hsize : SameSize s t)
    (hle : s.scrolled ≤ t.scrolled) (hposition : s.bottom ≤ t.position) :
    s.scrolled < t.scrolled := by
  by_contra hnot
  have hbottom := bottom_eq hsize (by omega)
  have hlt := h.position_lt_bottom
  omega

/-- A text is written, and the cursor goes to a place that was known before. It
comes to the cell that had this place exactly if the text has left the last cell
free. -/
theorem Written.returned (hs : s.OnScreen) {text : List UInt8} (hwritten : Written s t text)
    (hmoved : Moved t u (t.number x y)) :
    (s.position + text.length < s.bottom → s.number x y < s.bottom →
        Redrawn s u (overlay s.position text s.cell) ∧ u.position = s.number x y) ∧
      (s.bottom ≤ s.position + text.length → s.number x y < u.position) := by
  constructor
  · intro hroom hplace
    have hredrawn := hwritten.redrawn hroom
    have hnumber := number_eq hredrawn.size hredrawn.scrolled x y
    have hbottom := bottom_eq hredrawn.size hredrawn.scrolled
    have hback := hmoved.redrawn (by rw [hnumber, hbottom]; exact hplace)
    rw [hredrawn.cell] at hback
    exact ⟨hredrawn.trans hback, hmoved.position.trans hnumber⟩
  · intro hfull
    have hscrolled := hwritten.onScreen.scrolled_lt hwritten.size hwritten.scrolled_le
      (by rw [hwritten.position]; exact hfull)
    rw [hmoved.position]
    exact hs.number_lt hwritten.size hscrolled x y

theorem number_add (s : FbScreen) (n : ℤ) :
    s.number (s.cursorX + n) s.cursorY = s.position + n := by
  unfold position number
  omega

/-- A character is written, the text after it is written again, and the cursor
goes back to the cell behind the character. -/
theorem OnScreen.inserted (hs : s.OnScreen) {v w : FbScreen} {text : List UInt8}
    (ht : Written s t [c]) (hu : Moved t u (t.number (s.cursorX + 1) s.cursorY))
    (hv : Written u v text) (hw : Moved v w (v.number (s.cursorX + 1) s.cursorY)) :
    (s.position + text.length + 1 < s.bottom →
        Redrawn s w (overlay s.position (c :: text) s.cell) ∧ w.position = s.position + 1) ∧
      (s.bottom ≤ s.position + text.length + 1 → s.position + 1 < w.position) := by
  have hplace := number_add s 1
  obtain ⟨hback, hlost⟩ := hv.returned hu.onScreen hw
  by_cases hlast : s.position + 1 < s.bottom
  · have hredrawn := ht.redrawn hlast
    have hnumber := number_eq hredrawn.size hredrawn.scrolled (s.cursorX + 1) s.cursorY
    have hbottom := bottom_eq hredrawn.size hredrawn.scrolled
    have hredrawn' := hu.redrawn (by rw [hnumber, hplace, hbottom]; exact hlast)
    have hnumber' := number_eq hredrawn'.size hredrawn'.scrolled (s.cursorX + 1) s.cursorY
    have hbottom' := bottom_eq hredrawn'.size hredrawn'.scrolled
    have hposition : u.position = s.position + 1 := by
      rw [hu.position, hnumber, hplace]
    rw [hnumber', hnumber, hbottom', hbottom, hplace, hposition] at hback
    rw [hnumber', hnumber, hbottom', hbottom, hplace, hposition] at hlost
    constructor
    · intro hroom
      obtain ⟨hredrawn'', hposition''⟩ := hback (by omega) hlast
      rw [hredrawn'.cell, hredrawn.cell, ← overlay_cons] at hredrawn''
      exact ⟨(hredrawn.trans hredrawn').trans hredrawn'', hposition''⟩
    · intro hfull
      exact hlost (by omega)
  · refine ⟨fun hroom => absurd (by omega) hlast, fun _ => ?_⟩
    have hscrolled := ht.onScreen.scrolled_lt ht.size ht.scrolled_le
      (by rw [ht.position, List.length_singleton]; omega)
    have hlater : s.scrolled < v.scrolled :=
      Nat.lt_of_lt_of_le hscrolled (Nat.le_trans hu.scrolled_le hv.scrolled_le)
    rw [hw.position, ← hplace]
    exact hs.number_lt ((ht.size.trans hu.size).trans hv.size) hlater _ _

/-- The text behind a character is written over it, and a blank behind the text. -/
theorem Written.deleted {v w : FbScreen} {text : List UInt8} (hu : Written t u text)
    (hroom : s.position + text.length < s.bottom)
    (ht : Moved s t (s.number (s.cursorX - 1) s.cursorY)) (hv : v = u.remove)
    (hw : Moved v w (v.number (s.cursorX - 1) s.cursorY)) :
    Redrawn s w (overlay (s.position - 1) (text ++ [blank]) s.cell) ∧
      w.position = s.position - 1 := by
  have hplace : s.number (s.cursorX - 1) s.cursorY = s.position - 1 := number_add s (-1)
  obtain ⟨hsize, _, _, hscrolled, hcell⟩ := hu.onScreen.remove
  rw [hplace] at ht
  have hmoved := ht.redrawn (by omega)
  have hbottom := bottom_eq hmoved.size hmoved.scrolled
  have hposition := ht.position
  have hwritten := hu.redrawn (by rw [hposition, hbottom]; omega)
  have hremoved : Redrawn u v (overlay u.position [blank] u.cell) := by
    subst hv
    exact ⟨hsize, hscrolled, hcell⟩
  have hbefore := (hmoved.trans hwritten).trans hremoved
  have hnumber := number_eq hbefore.size hbefore.scrolled (s.cursorX - 1) s.cursorY
  rw [hnumber, hplace] at hw
  have hback := hw.redrawn (by rw [bottom_eq hbefore.size hbefore.scrolled]; omega)
  have hafter := hbefore.trans hback
  rw [hbefore.cell, hu.position, hwritten.cell, hmoved.cell, hposition, ← overlay_append] at hafter
  exact ⟨hafter, hw.position⟩

/-- The cursor goes back in its row, a text is written, and the cursor comes to
the cell behind the first `n` characters of it. -/
theorem OnScreen.replaced (hs : s.OnScreen) {v : FbScreen} {text : List UInt8} {n : ℕ}
    (hk : k ≤ s.position) (hn : n ≤ text.length) (ht : Moved s t k) (hu : Written t u text)
    (hv : Moved u v (u.number (t.cursorX + n) t.cursorY)) :
    (k + text.length < s.bottom → Redrawn s v (overlay k text s.cell) ∧ v.position = k + n) ∧
      (s.bottom ≤ k + text.length → k + n < v.position) := by
  have hbottom := hs.position_lt_bottom
  have hredrawn := ht.redrawn (by omega)
  obtain ⟨hback, hlost⟩ := hu.returned ht.onScreen hv
  rw [number_add, bottom_eq hredrawn.size hredrawn.scrolled, ht.position] at hback hlost
  refine ⟨fun hroom => ?_, hlost⟩
  obtain ⟨hredrawn', hposition⟩ := hback hroom (by omega)
  rw [hredrawn.cell] at hredrawn'
  exact ⟨hredrawn.trans hredrawn', hposition⟩

end FbScreen

end Heartix.Terminal
