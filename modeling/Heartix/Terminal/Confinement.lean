import Heartix.Terminal.Picture

/-!
The framebuffer screen and the reference terminal, step by step. Every operation is
defined, so it writes inside the framebuffer, and the screen shows the paper with the
same operation performed.
-/

namespace Heartix.Terminal

open Painting

namespace Framebuffer

/-- The picture of a paper is on the screen, and nothing is written below it. -/
structure Displays (font : ℕ → ℕ → UInt8) (s : Framebuffer) (p : Paper) : Prop where
  fits : s.mode.Fits p.columns p.rows
  columns : s.columns = p.columns
  rows : s.rows = p.rows
  ink : p.ink = s.fgColor
  ground : p.ground = s.bgColor
  frame : ∀ i, i < s.mode.size → s.frame i = picture font s.mode p i
  below : ∀ k, (p.top + p.rows) * p.columns ≤ k → p.cells k = none

/-- The screen shows a paper: the picture, and the cursor at the paper's position, on
the screen. -/
structure Shows (font : ℕ → ℕ → UInt8) (s : Framebuffer) (p : Paper) : Prop
    extends Displays font s p where
  cursorX : 0 ≤ s.cursorX ∧ s.cursorX < s.columns
  cursorY : 0 ≤ s.cursorY ∧ s.cursorY < s.rows
  position : (p.position : ℤ) = (p.top + s.cursorY) * s.columns + s.cursorX

variable {font : ℕ → ℕ → UInt8} {s t : Framebuffer} {p : Paper} {x y k r : ℕ} {c : UInt8}

theorem cell_eq_iff {a b x' y' : ℕ} (hx : x < a) (hx' : x' < a) :
    (b + y') * a + x' = (b + y) * a + x ↔ y' = y ∧ x' = x := by
  constructor
  · intro h
    have hpos : 0 < a := Nat.zero_lt_of_lt hx
    have hdiv := congrArg (· / a) h
    have hmod := congrArg (· % a) h
    simp only [Nat.mul_comm _ a, Nat.mul_add_div hpos, Nat.mul_add_mod, Nat.div_eq_of_lt hx,
      Nat.div_eq_of_lt hx', Nat.mod_eq_of_lt hx, Nat.mod_eq_of_lt hx'] at hdiv hmod
    exact ⟨by omega, hmod⟩
  · rintro ⟨rfl, rfl⟩
    rfl

/-- A place of the window, counted by its cells, is not below the window. -/
theorem place_lt (hx : x < p.columns) (hy : y < p.rows) :
    (p.top + y) * p.columns + x < (p.top + p.rows) * p.columns := by
  have hmul := Nat.mul_le_mul_right p.columns (show p.top + y + 1 ≤ p.top + p.rows by omega)
  rw [Nat.add_mul _ 1, Nat.one_mul] at hmul
  omega

section Update

variable {mode : VideoMode} {i : ℕ} {d : Drawn}

/-- The pixels of a cell show what is written into it. -/
theorem picture_update (hx : x < p.columns) (hy : y < p.rows)
    (hin : VideoMode.Fits.InCell mode x y i) :
    picture font mode { p with
        cells := Function.update p.cells ((p.top + y) * p.columns + x) (some d) } i =
      cellByte font (some d) (i / mode.bpsl % 19) (i % mode.bpsl / mode.depth % 10)
        (i % mode.bpsl % mode.depth) := by
  obtain ⟨hline, hcolumn⟩ := hin
  let q : Paper := { p with
    cells := Function.update p.cells ((p.top + y) * p.columns + x) (some d) }
  have hvisible : q.visible (i % mode.bpsl / mode.depth / 10) (i / mode.bpsl / 19) = some d := by
    rw [hline, hcolumn]
    exact Function.update_self _ _ _
  unfold picture
  dsimp only
  rw [if_pos]
  · change cellByte font (q.visible (i % mode.bpsl / mode.depth / 10)
      (i / mode.bpsl / 19)) _ _ _ = _
    rw [hvisible]
    rfl
  · change _ < p.columns * 10 ∧ _ < p.rows * 19
    omega

/-- The other pixels stay as they are. -/
theorem picture_update_of_not (hx : x < p.columns) (hout : ¬ VideoMode.Fits.InCell mode x y i) :
    picture font mode { p with
        cells := Function.update p.cells ((p.top + y) * p.columns + x) (some d) } i =
      picture font mode p i := by
  unfold picture
  dsimp only
  by_cases hinside : i % mode.bpsl / mode.depth < p.columns * bitmapFontCharWidth ∧
      i / mode.bpsl < p.rows * bitmapFontCharHeight
  · rw [if_pos hinside, if_pos hinside]
    have hcolumn : i % mode.bpsl / mode.depth / 10 < p.columns := by
      have hlt := hinside.1
      change _ < p.columns * 10 at hlt
      omega
    let q : Paper := { p with
      cells := Function.update p.cells ((p.top + y) * p.columns + x) (some d) }
    have hsame : q.visible (i % mode.bpsl / mode.depth / 10) (i / mode.bpsl / 19) =
        p.visible (i % mode.bpsl / mode.depth / 10) (i / mode.bpsl / 19) := by
      refine Function.update_of_ne (fun heq => hout ?_) _ _
      exact (cell_eq_iff hx hcolumn).mp heq
    exact congrArg (fun d => cellByte font d _ _ _) hsame
  · rw [if_neg hinside, if_neg hinside]

end Update

/-- A character is drawn at a place of the screen. -/
theorem Displays.drawChar (h : s.Displays font p) (hx : x < p.columns) (hy : y < p.rows)
    (c : UInt8) :
    ∃ frame, s.drawChar font x y c = some { s with frame := frame } ∧
      Displays font { s with frame := frame } { p with
        cells := Function.update p.cells ((p.top + y) * p.columns + x)
          (some ⟨c, p.ink, p.ground⟩) } := by
  let q : Paper := { p with
    cells := Function.update p.cells ((p.top + y) * p.columns + x) (some ⟨c, p.ink, p.ground⟩) }
  have hwidth := h.fits.width
  have hheight := h.fits.height
  have hcell (i : ℕ) (hin : VideoMode.Fits.InCell s.mode x y i) :
      picture font s.mode q i =
        colorByte (inkAt (bitmapFontGetChar font c) s.fgColor s.bgColor
          (i / s.mode.bpsl % 19) (i % s.mode.bpsl / s.mode.depth % 10))
          (i % s.mode.bpsl % s.mode.depth) := by
    rw [← h.ink, ← h.ground]
    exact picture_update hx hy hin
  obtain ⟨frame, hdraw, hin, hout⟩ := h.fits.paints_cell hx hy
    (inkAt (bitmapFontGetChar font c) s.fgColor s.bgColor) hcell s.frame
  refine ⟨frame, ?_, ⟨h.fits, h.columns, h.rows, h.ink, h.ground, fun i hi => ?_,
    fun k hk => ?_⟩⟩
  · unfold Framebuffer.drawChar
    dsimp only
    rw [if_neg]
    · exact congrArg (Option.map fun frame => { s with frame := frame }) hdraw
    · change ¬ ((s.mode.resX : ℤ) - (10 : ℕ) < x * (10 : ℕ) ∨
        (s.mode.resY : ℤ) - (19 : ℕ) < y * (19 : ℕ))
      omega
  · by_cases hi' : VideoMode.Fits.InCell s.mode x y i
    · exact hin i hi'
    · change frame i = picture font s.mode q i
      rw [hout i hi', picture_update_of_not hx hi']
      exact h.frame i hi
  · have hlt := place_lt hx hy
    change (p.top + p.rows) * p.columns ≤ k at hk
    change Function.update p.cells _ _ k = none
    rw [Function.update_of_ne (show k ≠ (p.top + y) * p.columns + x by omega)]
    exact h.below k hk

/-- The last row of the window moved on by one row is blank. -/
theorem Displays.cellByte_next_last (h : s.Displays font p) (hy : p.rows - 1 ≤ y)
    (x cy cx j : ℕ) : cellByte font ({ p with top := p.top + 1 }.visible x y) cy cx j = 0 := by
  have hblank : { p with top := p.top + 1 }.visible x y = none := by
    refine h.below _ (le_trans ?_ (Nat.le_add_right _ _))
    exact Nat.mul_le_mul_right _ (by dsimp only; omega)
  rw [hblank]
  rfl

/-- The window moved on by one row, where it shows what has been below. -/
theorem Displays.picture_next (h : s.Displays font p) {i : ℕ}
    (hcopied : i < s.mode.bpsl * (s.mode.resY - 19)) :
    picture font s.mode { p with top := p.top + 1 } i =
      picture font s.mode p (i + s.mode.bpsl * 19) := by
  have hbpsl := h.fits.bpsl_pos
  have hline : (i + s.mode.bpsl * 19) / s.mode.bpsl = i / s.mode.bpsl + 19 :=
    Nat.add_mul_div_left i 19 hbpsl
  have hoffset : (i + s.mode.bpsl * 19) % s.mode.bpsl = i % s.mode.bpsl :=
    Nat.add_mul_mod_self_left i s.mode.bpsl 19
  have hrow : i / s.mode.bpsl < s.mode.resY - 19 := by
    rw [Nat.div_lt_iff_lt_mul hbpsl, Nat.mul_comm]
    exact hcopied
  unfold picture
  dsimp only
  rw [hline, hoffset]
  change (if _ < p.columns * 10 ∧ _ < p.rows * 19 then cellByte font _ _ _ _ else 0) =
    if _ < p.columns * 10 ∧ _ < p.rows * 19 then cellByte font (p.visible _
      ((i / s.mode.bpsl + 19) / 19)) ((i / s.mode.bpsl + 19) % 19) _ _ else 0
  by_cases hx : i % s.mode.bpsl / s.mode.depth < p.columns * 10
  · by_cases hy : i / s.mode.bpsl + 19 < p.rows * 19
    · rw [if_pos ⟨hx, by omega⟩, if_pos ⟨hx, hy⟩, Nat.add_mod_right,
        Nat.add_div_right _ (by decide)]
      unfold Paper.visible
      rw [show p.top + (i / s.mode.bpsl / 19).succ = p.top + 1 + i / s.mode.bpsl / 19 by omega]
      rfl
    · rw [if_neg (show ¬ (_ ∧ i / s.mode.bpsl + 19 < p.rows * 19) from fun hand => hy hand.2)]
      by_cases hy' : i / s.mode.bpsl < p.rows * 19
      · have hend : p.rows - 1 ≤ i / s.mode.bpsl / 19 := by
          generalize i / s.mode.bpsl = line at hy
          omega
        rw [if_pos ⟨hx, hy'⟩]
        exact h.cellByte_next_last hend _ _ _ _
      · rw [if_neg fun hand => hy' hand.2]
  · rw [if_neg fun hand => hx hand.1, if_neg fun hand => hx hand.1]

/-- The window moved on by one row, where nothing has been below. -/
theorem Displays.picture_next_last (h : s.Displays font p) {i : ℕ}
    (hlast : ¬ i < s.mode.bpsl * (s.mode.resY - 19)) :
    picture font s.mode { p with top := p.top + 1 } i = 0 := by
  have hheight := h.fits.height
  have hrow : s.mode.resY - 19 ≤ i / s.mode.bpsl := by
    rw [Nat.le_div_iff_mul_le h.fits.bpsl_pos, Nat.mul_comm]
    omega
  unfold picture
  dsimp only
  change (if _ < p.columns * 10 ∧ _ < p.rows * 19 then cellByte font _ _ _ _ else 0) = 0
  by_cases hinside : i % s.mode.bpsl / s.mode.depth < p.columns * 10 ∧
      i / s.mode.bpsl < p.rows * 19
  · have hend : p.rows - 1 ≤ i / s.mode.bpsl / 19 := by
      generalize i / s.mode.bpsl = line at hrow
      omega
    rw [if_pos hinside]
    exact h.cellByte_next_last hend _ _ _ _
  · rw [if_neg hinside]

/-- The window moves on by one row. -/
theorem Displays.scrollUp (h : s.Displays font p) :
    ∃ frame, s.scrollUp = some { s with frame := frame } ∧
      Displays font { s with frame := frame } { p with top := p.top + 1 } := by
  have hheight := h.fits.height
  have hrows := h.fits.rows_pos
  have hsize := h.fits.size_eq
  have hint := h.fits.driven.size
  have hsum : s.mode.bpsl * 19 + s.mode.bpsl * (s.mode.resY - 19) = s.mode.size := by
    rw [hsize, ← Nat.mul_add]
    congr 1
    omega
  have hscroll : s.mode.bpsl * bitmapFontCharHeight % 2 ^ 32 = s.mode.bpsl * 19 :=
    Nat.mod_eq_of_lt (by change s.mode.bpsl * 19 < _; omega)
  have hcopy : s.mode.bpsl * (s.mode.resY - bitmapFontCharHeight) % 2 ^ 32 =
      s.mode.bpsl * (s.mode.resY - 19) :=
    Nat.mod_eq_of_lt (by change s.mode.bpsl * (s.mode.resY - 19) < _; omega)
  refine ⟨fun i => if i < s.mode.bpsl * (s.mode.resY - 19) then s.frame (i + s.mode.bpsl * 19)
      else if i < s.mode.bpsl * (s.mode.resY - 19) + s.mode.bpsl * 19 then 0 else s.frame i,
    ?_, ⟨h.fits, h.columns, h.rows, h.ink, h.ground, fun i hi => ?_, fun k hk => ?_⟩⟩
  · unfold Framebuffer.scrollUp
    dsimp only
    rw [if_neg h.fits.driven.lfb, hscroll, hcopy, if_pos (Nat.le_of_eq hsum)]
  · change i < s.mode.size at hi
    dsimp only
    by_cases hcopied : i < s.mode.bpsl * (s.mode.resY - 19)
    · rw [if_pos hcopied, h.frame _ (by omega)]
      exact (h.picture_next hcopied).symm
    · rw [if_neg hcopied, if_pos (by omega)]
      exact (h.picture_next_last hcopied).symm
  · refine h.below k (le_trans (Nat.mul_le_mul_right _ ?_) hk)
    dsimp only
    omega

theorem Displays.scrolls (h : s.Displays font p) (n : ℕ) :
    ∃ frame, scrolls n s = some { s with frame := frame } ∧
      Displays font { s with frame := frame } { p with top := p.top + n } := by
  induction n generalizing s p with
  | zero => exact ⟨s.frame, rfl, h⟩
  | succ n ih =>
    obtain ⟨frame, hscroll, hdisplays⟩ := h.scrollUp
    obtain ⟨frame', hrest, hdisplays'⟩ := ih hdisplays
    refine ⟨frame', ?_, ?_⟩
    · unfold Framebuffer.scrolls
      rw [hscroll]
      exact hrest
    · have htop : p.top + 1 + n = p.top + (n + 1) := by omega
      dsimp only at hdisplays'
      rw [htop] at hdisplays'
      exact hdisplays'

/-- The cursor is set to a place of the screen. -/
theorem Displays.at (h : s.Displays font p) (hx : x < p.columns) (hy : y < p.rows) :
    Shows font { s with
      cursorX := x
      cursorY := y } { p with position := (p.top + y) * p.columns + x } := by
  have hcolumns := h.columns
  have hrows := h.rows
  refine ⟨⟨h.fits, h.columns, h.rows, h.ink, h.ground, h.frame, h.below⟩, ?_, ?_, ?_⟩
  · dsimp only
    omega
  · dsimp only
    omega
  · dsimp only
    rw [hcolumns]
    push_cast
    rfl

/-- Where the window is when the cursor goes to the row `r` below the first one. -/
theorem goTo_eq (p : Paper) (hx : x < p.columns) (r : ℕ) :
    p.goTo ((p.top + r) * p.columns + x) = { p with
      position := (p.top + r) * p.columns + x
      top := p.top + (r + 1 - p.rows) } := by
  have hdiv : ((p.top + r) * p.columns + x) / p.columns = p.top + r := by
    rw [Nat.mul_comm, Nat.mul_add_div (Nat.zero_lt_of_lt hx), Nat.div_eq_of_lt hx, Nat.add_zero]
  unfold Paper.goTo
  rw [hdiv]
  congr 1
  omega

/-- The window follows the cursor to a row that is not on the screen. -/
theorem Displays.follow (h : s.Displays font p) (hx : x < p.columns) (hr : p.rows ≤ r) :
    ∃ t, (Framebuffer.scrolls (r + 1 - p.rows) s).map (fun s => { s with
        cursorX := x
        cursorY := s.rows - 1 }) = some t ∧
      Shows font t (p.goTo ((p.top + r) * p.columns + x)) := by
  obtain ⟨frame, hscrolls, hdisplays⟩ := h.scrolls (r + 1 - p.rows)
  have hrows := h.rows
  have hpos := h.fits.rows_pos
  have hshows := hdisplays.at hx (show p.rows - 1 < p.rows by omega)
  have hlast : ((p.rows - 1 : ℕ) : ℤ) = s.rows - 1 := by omega
  have hrow : p.top + (r + 1 - p.rows) + (p.rows - 1) = p.top + r := by omega
  refine ⟨_, congrArg _ hscrolls, ?_⟩
  dsimp only at hshows ⊢
  rw [hrow] at hshows
  rw [goTo_eq p hx r, ← hlast]
  exact hshows

/-- The window stays where the cursor goes to a row of the screen. -/
theorem Displays.stay (h : s.Displays font p) (hx : x < p.columns) (hr : r < p.rows) :
    Shows font { s with
      cursorX := x
      cursorY := r } (p.goTo ((p.top + r) * p.columns + x)) := by
  have htop : p.top + (r + 1 - p.rows) = p.top := by omega
  rw [goTo_eq p hx r, htop]
  exact h.at hx hr

/-- The start of the row after the one the cursor is in. -/
theorem Displays.nextRow (h : s.Displays font p) (hy : y < p.rows) (hcursor : s.cursorY = y) :
    ∃ t, s.nextRow = some t ∧ Shows font t (p.goTo ((p.top + y + 1) * p.columns)) := by
  have hpos := h.fits.columns_pos
  have hrows := h.rows
  have hcell : (p.top + y + 1) * p.columns = (p.top + (y + 1)) * p.columns + 0 := by
    rw [Nat.add_assoc]
    exact (Nat.add_zero _).symm
  rw [hcell]
  unfold Framebuffer.nextRow
  dsimp only
  by_cases hlast : s.rows ≤ s.cursorY + 1
  · rw [if_pos hlast]
    have hmoved : Displays font { s with
        cursorX := 0
        cursorY := s.cursorY + 1 } p :=
      ⟨h.fits, h.columns, h.rows, h.ink, h.ground, h.frame, h.below⟩
    have hone : y + 1 + 1 - p.rows = 1 := by omega
    obtain ⟨frame, hscroll, _⟩ := hmoved.scrollUp
    obtain ⟨t, ht, hshows⟩ := hmoved.follow hpos (show p.rows ≤ y + 1 by omega)
    refine ⟨t, ?_, hshows⟩
    rw [← ht, hone]
    unfold Framebuffer.scrolls
    rw [hscroll]
    rfl
  · rw [if_neg hlast]
    refine ⟨_, rfl, ?_⟩
    have hshows := h.stay hpos (show y + 1 < p.rows by omega)
    rw [hcursor]
    push_cast at hshows
    exact hshows

theorem Shows.exists_place (h : s.Shows font p) :
    ∃ x y : ℕ, s.cursorX = x ∧ s.cursorY = y ∧ x < p.columns ∧ y < p.rows ∧
      p.position = (p.top + y) * p.columns + x := by
  have hx := h.cursorX
  have hy := h.cursorY
  have hcolumns := h.columns
  have hrows := h.rows
  obtain ⟨x, hcursorX⟩ := Int.eq_ofNat_of_zero_le hx.1
  obtain ⟨y, hcursorY⟩ := Int.eq_ofNat_of_zero_le hy.1
  refine ⟨x, y, hcursorX, hcursorY, by omega, by omega, ?_⟩
  have hposition := h.position
  rw [hcolumns, hcursorX, hcursorY] at hposition
  exact_mod_cast hposition

theorem div_position (hx : x < p.columns) : ((p.top + y) * p.columns + x) / p.columns =
    p.top + y := by
  rw [Nat.mul_comm, Nat.mul_add_div (Nat.zero_lt_of_lt hx), Nat.div_eq_of_lt hx, Nat.add_zero]

theorem Shows.write (h : s.Shows font p) (c : UInt8) :
    ∃ t, s.write font c = some t ∧ Shows font t (p.perform (.write c)) := by
  obtain ⟨x, y, hcursorX, hcursorY, hx, hy, hposition⟩ := h.exists_place
  unfold Framebuffer.write Paper.perform
  by_cases hc : c = '\n'.toUInt8
  · rw [if_pos hc]
    dsimp only
    rw [if_pos hc, hposition, div_position hx]
    exact h.toDisplays.nextRow hy hcursorY
  · rw [if_neg hc]
    dsimp only
    rw [if_neg hc, hcursorX, hcursorY]
    obtain ⟨frame, hdraw, hdisplays⟩ := h.toDisplays.drawChar hx hy c
    have hcolumns := h.columns
    have hpaper : p.draw c = { p with
        cells := Function.update p.cells ((p.top + y) * p.columns + x)
          (some ⟨c, p.ink, p.ground⟩) } := by
      unfold Paper.draw
      rw [hposition]
    rw [← hpaper] at hdisplays
    rw [hdraw]
    change ∃ t, (if s.columns ≤ s.cursorX + 1 then Framebuffer.nextRow { s with
        cursorX := s.cursorX + 1
        frame := frame } else some { s with
        cursorX := s.cursorX + 1
        frame := frame }) = some t ∧ _
    by_cases hlast : s.columns ≤ s.cursorX + 1
    · rw [if_pos hlast]
      have hmoved : Displays font { s with
          cursorX := s.cursorX + 1
          frame := frame } (p.draw c) :=
        ⟨hdisplays.fits, hdisplays.columns, hdisplays.rows, hdisplays.ink, hdisplays.ground,
          hdisplays.frame, hdisplays.below⟩
      have hnext : p.position + 1 = ((p.draw c).top + y + 1) * (p.draw c).columns := by
        have hend : x + 1 = p.columns := by omega
        rw [hposition]
        change _ = (p.top + y + 1) * p.columns
        rw [Nat.add_mul _ 1, Nat.one_mul]
        omega
      rw [hnext]
      exact hmoved.nextRow hy hcursorY
    · rw [if_neg hlast]
      refine ⟨_, rfl, ?_⟩
      have hshows := hdisplays.stay (show x + 1 < (p.draw c).columns by
        change x + 1 < p.columns
        omega) hy
      have hnext : p.position + 1 =
          ((p.draw c).top + y) * (p.draw c).columns + (x + 1) := by
        rw [hposition]
        rfl
      rw [hnext, hcursorX]
      push_cast at hshows
      rw [← hcursorY] at hshows
      exact hshows

theorem Shows.remove (h : s.Shows font p) :
    ∃ t, s.remove font = some t ∧ Shows font t (p.perform .remove) := by
  obtain ⟨x, y, hcursorX, hcursorY, hx, hy, hposition⟩ := h.exists_place
  obtain ⟨frame, hdraw, hdisplays⟩ := h.toDisplays.drawChar hx hy ' '.toUInt8
  have hpaper : p.perform .remove = { p with
      cells := Function.update p.cells ((p.top + y) * p.columns + x)
        (some ⟨' '.toUInt8, p.ink, p.ground⟩) } := by
    unfold Paper.perform Paper.draw
    rw [← hposition]
  unfold Framebuffer.remove
  rw [hcursorX, hcursorY, hpaper]
  exact ⟨_, hdraw, hdisplays, h.cursorX, h.cursorY, h.position⟩

theorem Shows.backspace (h : s.Shows font p) :
    ∃ t, s.backspace font = some t ∧ Shows font t (p.perform .backspace) := by
  obtain ⟨x, y, hcursorX, hcursorY, hx, hy, hposition⟩ := h.exists_place
  have hmod : p.position % p.columns = x := by
    rw [hposition, Nat.mul_comm, Nat.mul_add_mod, Nat.mod_eq_of_lt hx]
  unfold Framebuffer.backspace Paper.perform
  dsimp only
  rw [hmod]
  cases x with
  | zero =>
    rw [if_neg (by omega), if_pos rfl]
    exact ⟨s, rfl, h⟩
  | succ x =>
    rw [if_pos (by omega), if_neg (Nat.succ_ne_zero x)]
    have hback : s.cursorX - 1 = x := by omega
    have hmoved := h.toDisplays.at (show x < p.columns by omega) hy
    have hposition' : p.position - 1 = (p.top + y) * p.columns + x := by omega
    rw [hback, hcursorY, hposition']
    exact hmoved.remove

theorem Shows.clean (h : s.Shows font p) : Shows font s.clean (p.perform .clean) := by
  have hclear : s.clearPixels = { s with
      frame := fun i => if i < s.mode.bpsl * s.mode.resY then 0 else s.frame i } :=
    if_neg h.fits.driven.lfb
  have hdisplays : Displays font s.clearPixels { p with cells := fun _ => none } := by
    rw [hclear]
    refine ⟨h.fits, h.columns, h.rows, h.ink, h.ground, fun i hi => ?_, fun _ _ => rfl⟩
    have hsize := h.fits.size_eq
    change i < s.mode.size at hi
    dsimp only
    rw [if_pos (by omega)]
    unfold picture
    dsimp only
    split <;> rfl
  have hshows := hdisplays.at h.fits.columns_pos h.fits.rows_pos
  exact hshows

/-- What the claim of an `int` without overflow asks of an operation. -/
def Near : ScreenOp → Prop
  | .setCursor x y => |x| < 2 ^ 30 ∧ |y| < 2 ^ 30
  | .write _ | .remove | .backspace | .clean => True

theorem Shows.setCursor (h : s.Shows font p) {a b : ℤ} (hab : Near (.setCursor a b)) :
    ∃ t, s.setCursor a b = some t ∧ Shows font t (p.perform (.setCursor a b)) := by
  obtain ⟨ha, hb⟩ := hab
  rw [abs_lt] at ha hb
  have hcolumns := h.columns
  have hrows := h.rows
  have hpos := h.fits.columns_pos
  have hpos' := h.fits.rows_pos
  have hx : (if a < 0 then 0 else a) = (a.toNat : ℤ) := by
    split <;> omega
  have hy : (if b < 0 then 0 else b) = (b.toNat : ℤ) := by
    split <;> omega
  have hdiv : a.toNat / p.columns ≤ a.toNat := Nat.div_le_self _ _
  have hrow : (if s.columns ≤ (a.toNat : ℤ) then
      ((b.toNat : ℤ) + a.toNat / s.columns).bmod (2 ^ 32) else (b.toNat : ℤ)) =
        ((b.toNat + a.toNat / p.columns : ℕ) : ℤ) := by
    rw [hcolumns]
    split
    · rw [← Int.natCast_ediv]
      generalize a.toNat / p.columns = quotient at hdiv
      rw [Int.bmod_eq_of_le (by omega) (by omega)]
      push_cast
      rfl
    · rw [Nat.div_eq_of_lt (by omega), Nat.add_zero]
  have hcolumn : (if s.columns ≤ (a.toNat : ℤ) then (a.toNat : ℤ) % s.columns
      else (a.toNat : ℤ)) = ((a.toNat % p.columns : ℕ) : ℤ) := by
    rw [hcolumns]
    split
    · push_cast
      rfl
    · rw [Nat.mod_eq_of_lt (by omega)]
  have hlt := Nat.mod_lt a.toNat hpos
  have hcell : (p.top + b.toNat) * p.columns + a.toNat =
      (p.top + (b.toNat + a.toNat / p.columns)) * p.columns + a.toNat % p.columns := by
    have hdecompose := Nat.div_add_mod' a.toNat p.columns
    rw [← Nat.add_assoc, Nat.add_mul (p.top + b.toNat)]
    omega
  unfold Framebuffer.setCursor Paper.perform
  rw [if_neg (by omega)]
  dsimp only
  rw [hx, hy, hrow, hcolumn, hcell]
  by_cases hlast : s.rows ≤ ((b.toNat + a.toNat / p.columns : ℕ) : ℤ)
  · rw [if_pos hlast]
    obtain ⟨t, ht, hshows⟩ := h.toDisplays.follow hlt
      (show p.rows ≤ b.toNat + a.toNat / p.columns by omega)
    have hcount : (((b.toNat + a.toNat / p.columns : ℕ) : ℤ) - (s.rows - 1)).toNat =
        b.toNat + a.toNat / p.columns + 1 - p.rows := by omega
    obtain ⟨frame, hscrolls, _⟩ := h.toDisplays.scrolls
      (b.toNat + a.toNat / p.columns + 1 - p.rows)
    refine ⟨t, ?_, hshows⟩
    rw [← ht, hcount, hscrolls]
  · rw [if_neg hlast]
    exact ⟨_, rfl, h.toDisplays.stay hlt (by omega)⟩

/-- Every operation is defined and shows what the reference terminal writes. -/
theorem Shows.exec (h : s.Shows font p) {op : ScreenOp} (hop : Near op) :
    ∃ t, s.exec font op = some t ∧ Shows font t (p.perform op) := by
  cases op with
  | write c => exact h.write c
  | remove => exact h.remove
  | backspace => exact h.backspace
  | clean => exact ⟨_, rfl, h.clean⟩
  | setCursor a b => exact h.setCursor hop

/-- After any operations the screen shows the paper that they leave. -/
theorem Shows.run (h : s.Shows font p) {ops : List ScreenOp} (hops : ∀ op ∈ ops, Near op) :
    ∃ t, ops.foldlM (Framebuffer.exec font) s = some t ∧
      Shows font t (ops.foldl Paper.perform p) := by
  induction ops generalizing s p with
  | nil => exact ⟨s, rfl, h⟩
  | cons op ops ih =>
    obtain ⟨t, ht, hshows⟩ := h.exec (hops op List.mem_cons_self)
    obtain ⟨u, hu, hshows'⟩ := ih hshows fun o ho => hops o (List.mem_cons_of_mem op ho)
    refine ⟨u, ?_, hshows'⟩
    rw [List.foldlM_cons, ht]
    exact hu

/-- A screen that is initialized shows an empty paper. -/
theorem exists_started (font : ℕ → ℕ → UInt8) {mode : VideoMode} {columns rows : ℕ}
    (hfits : mode.Fits columns rows) (hcolumns : mode.resX / bitmapFontCharWidth = columns)
    (hrows : mode.resY / bitmapFontCharHeight = rows) (memory : ℕ → UInt8) :
    ∃ s, (construct memory).initializeScreen mode = some s ∧
      Shows font s (Paper.blank columns rows s.fgColor s.bgColor) := by
  have hcolumnsPos := hfits.columns_pos
  have hrowsPos := hfits.rows_pos
  let started : Framebuffer := { construct memory with
    mode := mode
    columns := columns
    rows := rows
    fgColor := mapColor (UInt8.ofInt SC_WHITE)
    bgColor := mapColor (UInt8.ofInt SC_BLACK)
    frame := fun i => if i < mode.bpsl * mode.resY then 0 else memory i }
  have hstart : (construct memory).initializeScreen mode = some started := by
    unfold initializeScreen initializeVideo
    dsimp only
    rw [← Int.natCast_ediv, ← Int.natCast_ediv, hcolumns, hrows, if_neg (by omega)]
    refine congrArg some ?_
    unfold clearPixels
    dsimp only
    rw [if_neg hfits.driven.lfb]
    rfl
  have hdisplays : started.Displays font
      (Paper.blank columns rows started.fgColor started.bgColor) := by
    refine ⟨hfits, rfl, rfl, rfl, rfl, fun i hi => ?_, fun _ _ => rfl⟩
    have hsize := hfits.size_eq
    change i < mode.size at hi
    change (if i < mode.bpsl * mode.resY then 0 else memory i) = _
    rw [if_pos (by omega)]
    unfold picture
    dsimp only
    split <;> rfl
  have hat := hdisplays.at hcolumnsPos hrowsPos
  have hposition : ((Paper.blank columns rows started.fgColor started.bgColor).top + 0) *
      (Paper.blank columns rows started.fgColor started.bgColor).columns + 0 = 0 :=
    Nat.zero_mul _
  rw [hposition] at hat
  exact ⟨started, hstart, hat⟩

/-- A screen that is initialized with a mode of at least one column and row. Each
operation writes inside the framebuffer, the cursor stays on the screen, and the
screen shows what the reference terminal shows. -/
theorem confined (font : ℕ → ℕ → UInt8) (mode : VideoMode) (hdriven : mode.Driven)
    (hbpp : mode.bpp = 24 ∨ mode.bpp = 32) (hbpsl : mode.resX * mode.bpp / 8 ≤ mode.bpsl)
    (hcolumns : 0 < mode.resX / bitmapFontCharWidth)
    (hrows : 0 < mode.resY / bitmapFontCharHeight) (memory : ℕ → UInt8) (ops : List ScreenOp)
    (hops : ∀ op ∈ ops, Near op) :
    ∃ s t, (construct memory).initializeScreen mode = some s ∧
      ops.foldlM (Framebuffer.exec font) s = some t ∧
      (0 ≤ t.cursorX ∧ t.cursorX < t.columns) ∧ (0 ≤ t.cursorY ∧ t.cursorY < t.rows) ∧
      Shows font t (ops.foldl Paper.perform (Paper.blank (mode.resX / bitmapFontCharWidth)
        (mode.resY / bitmapFontCharHeight) s.fgColor s.bgColor)) := by
  have hfits : mode.Fits (mode.resX / bitmapFontCharWidth) (mode.resY / bitmapFontCharHeight) :=
    ⟨hdriven, hbpp, hbpsl, hcolumns, hrows, Nat.div_mul_le_self _ _, Nat.div_mul_le_self _ _⟩
  obtain ⟨s, hstart, hshows⟩ := exists_started font hfits rfl rfl memory
  obtain ⟨t, ht, hfinal⟩ := hshows.run hops
  exact ⟨s, t, hstart, ht, hfinal.cursorX, hfinal.cursorY, hfinal⟩

/-- The mode the screen asks for, a character, and the cursor set below the screen. -/
theorem confined_scrolling :
    ∃ s t, (construct fun _ => 0).initializeScreen ⟨1024, 768, 32, 4096, 0xE0000000⟩ = some s ∧
      [ScreenOp.write 'a'.toUInt8, .setCursor 200 50].foldlM
        (Framebuffer.exec fun _ _ => 0) s = some t ∧
      (0 ≤ t.cursorX ∧ t.cursorX < t.columns) ∧ (0 ≤ t.cursorY ∧ t.cursorY < t.rows) ∧
      Shows (fun _ _ => 0) t ([ScreenOp.write 'a'.toUInt8, .setCursor 200 50].foldl Paper.perform
        (Paper.blank (1024 / bitmapFontCharWidth) (768 / bitmapFontCharHeight)
          s.fgColor s.bgColor)) := by
  refine confined (fun _ _ => 0) ⟨1024, 768, 32, 4096, 0xE0000000⟩ ⟨by decide, by decide⟩
    (by decide) (by decide) (by decide) (by decide) (fun _ => 0) _ ?_
  refine List.forall_mem_cons.mpr ⟨trivial, List.forall_mem_singleton.mpr ?_⟩
  exact ⟨by decide, by decide⟩

end Framebuffer

end Heartix.Terminal
