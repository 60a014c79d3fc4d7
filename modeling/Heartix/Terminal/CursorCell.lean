import Heartix.Terminal.Gui
import Heartix.Terminal.Paint

/-!
The cell that takes the next character, and the cell at which the cursor is painted.
The document counts its lines from the last one back, and `paint` adds the line of
the cursor to the number of the last row: the two agree on the last row only. The
column of the cursor is never the first one of a row, except in an empty line.
-/

namespace Heartix.Terminal

open Pieces

namespace Document

variable {d : Document} {list : List ℕ} {p i columns s : ℕ} {x y offsetY : ℤ}

/-- Whatever character is inserted, it is found at a position of a line. -/
def Receives (d : Document) (x y : ℤ) (p i : ℕ) : Prop :=
  ∀ c, c ≠ '\n'.toUInt8 → ∃ t, d.insert x y c = some t ∧ (t.textOf p)[i]? = some c

/-- The line that a row is part of, and the position it begins at. -/
def rowPlace (offsetY : ℤ) (columns : ℕ) (d : Document) : Option (ℕ × ℕ) :=
  (d.rowWalk columns (countdown offsetY) d.lines (d.lengthOf d.lines)).bind fun (p, rem) =>
    if p = 0 then none else some (p, lastCut columns rem)

/-- The rows below a position of a line: those of the lines behind it, and those behind
it in the line. -/
def rowNumber (d : Document) (columns p i : ℕ) : ℕ :=
  ((d.addresses.takeWhile (· ≠ p)).map fun a => pieceCount columns (d.lengthOf a)).sum +
    (pieceCount columns (d.lengthOf p) - 1 - i / columns)

/-- The row that is acquired begins at its place. -/
theorem Holds.rowPlace_of_acquireRow (h : d.Holds list) (hcolumns : 0 < columns) {n : ℕ}
    (hrow : d.acquireRow offsetY columns = some ⟨some (p, s), n⟩) :
    d.rowPlace offsetY columns = some (p, s) := by
  obtain ⟨q, rem, hwalk, ⟨_, hnull⟩ | ⟨hq, hplace, heq⟩⟩ := h.acquireRow_cases hcolumns offsetY
  · rw [hnull] at hrow
    cases hrow
  · obtain ⟨line, hline⟩ := h.alive q hplace.mem
    rw [heq, rowEnding_eq hline] at hrow
    have hstart := congrArg Row.start (Option.some.inj hrow)
    dsimp only at hstart
    unfold rowPlace
    rw [hwalk, Option.bind_some]
    dsimp only
    rw [if_neg hq]
    split at hstart
    · cases hstart
    · exact hstart

/-- The number that a row is acquired with, by a position in it. -/
theorem Holds.countdown_of_rowPlace (h : d.Holds list) (hcolumns : 0 < columns)
    (hplace : d.rowPlace offsetY columns = some (p, s)) (hle : s ≤ i) (hlt : i < s + columns) :
    countdown offsetY = d.rowNumber columns p i := by
  obtain ⟨⟨q, rem⟩, hwalk, hrow⟩ := Option.bind_eq_some_iff.mp hplace
  dsimp only at hrow
  split at hrow
  · cases hrow
  · rename_i hq
    obtain ⟨rfl, rfl⟩ := Prod.mk.inj (Option.some.inj hrow)
    have hat := (h.atPlace_start columns).rowWalk h hcolumns hq hwalk
    rw [Nat.zero_add] at hat
    obtain ⟨front, back, hlist, hpassed⟩ := hat.passed
    have hfront : d.addresses.takeWhile (· ≠ q) = front := by
      have hnodup := h.chained.nodup
      rw [hlist] at hnodup
      have hnot : ∀ a ∈ front, decide (a ≠ q) = true := by
        intro a ha
        apply decide_eq_true
        rintro rfl
        exact (List.nodup_append.mp hnodup).2.2 a ha a List.mem_cons_self rfl
      rw [h.addresses_eq, hlist, List.takeWhile_append_of_pos hnot,
        List.takeWhile_cons_of_neg (by simp), List.append_nil]
    have hpiece := div_of_lastCut hle hlt
    have hcount := pieceCount_le columns hat.rowEnd.le
    have hpos : 0 < pieceCount columns rem := by
      rw [pieceCount_eq]
      exact Nat.succ_pos _
    unfold rowNumber
    rw [hfront, hpiece]
    omega

/-- What an insertion leaves of the lines: only one position depends on the character. -/
theorem Holds.textOf_insert (h : d.Holds list) (x y : ℤ) (p i : ℕ) :
    ∃ rest : Option UInt8, ∀ c, c ≠ '\n'.toUInt8 → ∀ t, d.insert x y c = some t →
      (t.textOf p)[i]? = if d.getLine y = some p ∧ p ≠ 0 ∧ (i : ℤ) = x then some c else rest := by
  rcases h.getLine_addressed y with ⟨_, hget⟩ | ⟨a, _, hmem, ha, hget⟩
  · refine ⟨(d.textOf p)[i]?, fun c _ t ht => ?_⟩
    rw [insert_of_getLine_null hget] at ht
    obtain rfl := Option.some.inj ht
    rw [if_neg]
    rintro ⟨hline, hp, _⟩
    exact hp (Option.some.inj (hline.symm.trans hget))
  · obtain ⟨line, hline⟩ := h.alive a hmem
    refine ⟨if p = a then
        (if i < line.length then line.buffer[i]? else if (i : ℤ) < x then some 0 else none)
      else (d.textOf p)[i]?, fun c hc t ht => ?_⟩
    rw [insert_of_getLine ha hget, if_neg hc] at ht
    obtain ⟨changed, hchanged, rfl⟩ := modify_eq_some hline ht
    by_cases hp : p = a
    · subst hp
      rw [textOf_put, if_pos rfl,
        TerminalLine.insert_text_eq (h.allocated p line hline) hchanged, if_pos rfl]
      by_cases hi : (i : ℤ) = x
      · rw [if_pos hi, if_pos ⟨hget, ha, hi⟩]
      · have hnot : ¬ (d.getLine y = some p ∧ p ≠ 0 ∧ (i : ℤ) = x) := fun hand => hi hand.2.2
        rw [if_neg hi, if_neg hnot]
    · rw [textOf_put, if_neg hp, if_neg hp, if_neg]
      rintro ⟨hline', _, _⟩
      exact hp (Option.some.inj (hline'.symm.trans hget))

/-- The position that takes the character is the one of the cursor in its line. -/
theorem Holds.receives_iff (h : d.Holds list) :
    d.Receives x y p i ↔ d.getLine y = some p ∧ p ≠ 0 ∧ (i : ℤ) = x ∧
      (x + 1 < 2 ^ 31 ∨ x < d.lengthOf p) := by
  obtain ⟨rest, hrest⟩ := h.textOf_insert x y p i
  have hmem : d.getLine y = some p → p ≠ 0 → p ∈ list := by
    intro hget hp
    rcases h.getLine_addressed y with ⟨_, hget'⟩ | ⟨a, _, ha, _, hget'⟩
    · exact absurd (Option.some.inj (hget.symm.trans hget')) hp
    · obtain rfl := Option.some.inj (hget.symm.trans hget')
      exact ha
  constructor
  · intro hreceives
    obtain ⟨t, ht, htext⟩ := hreceives 'a'.toUInt8 (by decide)
    by_cases hcell : d.getLine y = some p ∧ p ≠ 0 ∧ (i : ℤ) = x
    · obtain ⟨hget, hp, hx⟩ := hcell
      have hdefined := (insert_isSome_iff h (hmem hget hp) hp hget (by decide)).mp
        (Option.isSome_of_mem ht)
      exact ⟨hget, hp, hx, hdefined.2⟩
    · obtain ⟨t', ht', htext'⟩ := hreceives 'b'.toUInt8 (by decide)
      rw [hrest _ (by decide) t ht, if_neg hcell] at htext
      rw [hrest _ (by decide) t' ht', if_neg hcell, htext] at htext'
      exact absurd (Option.some.inj htext') (by decide)
  · rintro ⟨hget, hp, hx, hdefined⟩ c hc
    have hsome := (insert_isSome_iff h (hmem hget hp) hp hget hc).mpr ⟨by omega, hdefined⟩
    obtain ⟨t, ht⟩ := Option.isSome_iff_exists.mp hsome
    exact ⟨t, ht, by rw [hrest c hc t ht, if_pos ⟨hget, hp, hx⟩]⟩

end Document

section Coordinates

theorem bmod_eq_iff_emod {n v : ℤ} (hpos : 0 ≤ v) (hlt : v < 2 ^ 31) :
    n.bmod (2 ^ 32) = v ↔ n % 2 ^ 32 = v := by
  have hmod : (((2 ^ 32 : ℕ) : ℤ)) = 2 ^ 32 := rfl
  constructor
  · intro h
    have hemod := Int.bmod_emod (x := n) (m := 2 ^ 32)
    rw [h, hmod] at hemod
    omega
  · intro h
    have hbmod := Int.emod_bmod n (2 ^ 32)
    rw [hmod, h] at hbmod
    rw [← hbmod]
    exact Int.bmod_eq_of_le (by omega) (by omega)

/-- The column of the cursor is the one of the cell, unless that one is the first of
its row. In an empty row, only a view of one column has it elsewhere. -/
theorem column_iff {i columns : ℕ} (hcolumns : 0 < columns) :
    ((i : ℤ) - 1).tmod columns + 1 = (i % columns : ℕ) ↔
      i % columns ≠ 0 ∨ i = 0 ∧ 1 < columns := by
  cases i with
  | zero =>
    have hneg : ((0 : ℕ) : ℤ) - 1 = -(1 : ℕ) := rfl
    rw [hneg, Int.neg_tmod, ← Int.ofNat_tmod, Nat.zero_mod]
    by_cases hone : columns = 1
    · rw [hone, Nat.mod_self]
      omega
    · rw [Nat.mod_eq_of_lt (by omega)]
      omega
  | succ i =>
    have hpred : ((i + 1 : ℕ) : ℤ) - 1 = (i : ℕ) := by omega
    have hlt := Nat.mod_lt i hcolumns
    rw [hpred, ← Int.ofNat_tmod, ← Nat.mod_add_mod]
    by_cases hlast : i % columns + 1 = columns
    · rw [hlast, Nat.mod_self]
      omega
    · rw [Nat.mod_eq_of_lt (show i % columns + 1 < columns by omega)]
      omega

end Coordinates

theorem GuiScreen.linked_of_run {ops : List ScreenOp} {g : GuiScreen}
    (hrun : ops.foldlM GuiScreen.exec GuiScreen.construct = some g) :
    ∃ list, g.document.Holds list := by
  have hstart : ∃ list, GuiScreen.construct.document.Holds list := ⟨[1], Document.construct_holds⟩
  generalize GuiScreen.construct = first at hrun hstart
  induction ops generalizing first with
  | nil =>
    obtain rfl := Option.some.inj hrun
    exact hstart
  | cons op ops ih =>
    rw [List.foldlM_cons] at hrun
    obtain ⟨next, hnext, hrest⟩ := Option.bind_eq_some_iff.mp hrun
    obtain ⟨list, hholds⟩ := hstart
    exact ih next hrest (GuiScreen.exec_holds hholds hnext)

namespace Scene

/-- A position of a line is in a row of the view. -/
def ShowsCell (scene : Scene) (v p i : ℕ) : Prop :=
  ∃ s, scene.document.rowPlace (scene.currentRow v) scene.visibleCols.toNat = some (p, s) ∧
    s ≤ i ∧ i < s + scene.visibleCols.toNat

/-- Where a visible row shows the cell that takes the next character, the cursor is
painted at that cell. -/
def CursorPainted (scene : Scene) : Prop :=
  ∀ p i, scene.document.Receives scene.cursorX scene.cursorY p i →
    ∀ v : ℕ, v < scene.visibleRows → scene.ShowsCell v p i →
      scene.cursorView = some (((i % scene.visibleCols.toNat : ℕ) : ℤ), (v : ℤ))

/-- Where a visible row shows the cell that takes the next character, the cell does not
begin its row, or it begins its line and the view has a second column. The line of the
cursor and the number of rows below the cell add up to 0, as 32-bit numbers. -/
def OnLastRow (scene : Scene) : Prop :=
  ∀ p i, scene.document.Receives scene.cursorX scene.cursorY p i →
    ∀ v : ℕ, v < scene.visibleRows → scene.ShowsCell v p i →
      (i % scene.visibleCols.toNat ≠ 0 ∨ i = 0 ∧ 1 < scene.visibleCols) ∧
        2 ^ 32 ∣ scene.cursorY + scene.document.rowNumber scene.visibleCols.toNat p i

theorem visibleRows_lt (scene : Scene) : scene.visibleRows < 2 ^ 31 := by
  have hheight := scene.bounds.height_lt
  unfold visibleRows
  rw [CanvasBounds.getRows_eq]
  omega

/-- The place of the cursor compared with a cell that a visible row shows. -/
theorem cursorView_iff (scene : Scene) (hcolumns : 1 ≤ scene.visibleCols) {p i v : ℕ}
    (hcell : (i : ℤ) = scene.cursorX) (hv : v < scene.visibleRows)
    (hshows : scene.ShowsCell v p i) :
    scene.cursorView = some (((i % scene.visibleCols.toNat : ℕ) : ℤ), (v : ℤ)) ↔
      (i % scene.visibleCols.toNat ≠ 0 ∨ i = 0 ∧ 1 < scene.visibleCols) ∧
        2 ^ 32 ∣ scene.cursorY + scene.document.rowNumber scene.visibleCols.toNat p i := by
  obtain ⟨list, h⟩ := scene.linked
  obtain ⟨s, hplace, hle, hlt⟩ := hshows
  obtain ⟨columns, heq⟩ := Int.eq_ofNat_of_zero_le (show 0 ≤ scene.visibleCols by omega)
  rw [heq, Int.toNat_natCast] at hplace hlt ⊢
  have hpos : 0 < columns := by omega
  have hnumber := h.countdown_of_rowPlace hpos hplace hle hlt
  have hrows := scene.visibleRows_lt
  have hx := scene.cursorX_int
  have hcolumn := column_iff (i := i) hpos
  unfold cursorView
  rw [heq, if_neg (by omega), ← hcell, Option.some.injEq, Prod.mk.injEq,
    Int.bmod_eq_of_le (by omega) (by omega), hcolumn, bmod_eq_iff_emod (by omega) (by omega)]
  have hwrap : scene.currentRow v % 2 ^ 32 = (scene.renderStartRow - v - 1) % 2 ^ 32 :=
    Int.bmod_emod
  rw [← hnumber]
  unfold countdown
  rw [hwrap]
  exact and_congr (by omega) (by omega)

/-- The cursor is painted at the cell that takes the next character exactly on the last
row of the document, and not where its column is a multiple of those of the view. -/
theorem cursor_painted_iff (scene : Scene) (hcolumns : 1 ≤ scene.visibleCols) :
    scene.CursorPainted ↔ scene.OnLastRow := by
  obtain ⟨list, h⟩ := scene.linked
  have hview {p i v : ℕ} (hreceives : scene.document.Receives scene.cursorX scene.cursorY p i) :=
    scene.cursorView_iff hcolumns (p := p) (v := v) (h.receives_iff.mp hreceives).2.2.1
  constructor
  · intro hpainted p i hreceives v hv hshows
    exact (hview hreceives hv hshows).mp (hpainted p i hreceives v hv hshows)
  · intro hlast p i hreceives v hv hshows
    exact (hview hreceives hv hshows).mpr (hlast p i hreceives v hv hshows)

/-- The window as it is painted after a run, not scrolled. -/
def after (bounds : CanvasBounds) (ops : List ScreenOp) (g : GuiScreen)
    (hrun : ops.foldlM GuiScreen.exec GuiScreen.construct = some g)
    (cursorX_int : -2 ^ 31 ≤ g.cursorX ∧ g.cursorX < 2 ^ 31)
    (cursorY_int : -2 ^ 31 ≤ g.cursorY ∧ g.cursorY < 2 ^ 31) : Scene where
  bounds := bounds
  document := g.document
  linked := GuiScreen.linked_of_run hrun
  documentRows := (g.document.getRowCount bounds.getColumns.toNat).getD 0
  scrollY := 0
  cursorX := g.cursorX
  cursorY := g.cursorY
  cursorX_int := cursorX_int
  cursorY_int := cursorY_int

/-- One line, with the cursor behind its character. -/
theorem cursor_painted_iff_behind :
    (after ⟨700, 500, by decide, by decide⟩ [.write 'a'.toUInt8] _ rfl ⟨by decide, by decide⟩
      ⟨by decide, by decide⟩).CursorPainted := by
  let scene := after ⟨700, 500, by decide, by decide⟩ [.write 'a'.toUInt8] _ rfl
    ⟨by decide, by decide⟩ ⟨by decide, by decide⟩
  apply (cursor_painted_iff scene (by decide)).mpr
  intro p i hreceives v _ _
  obtain ⟨list, hholds⟩ := scene.linked
  obtain ⟨hline, _, hi, _⟩ := hholds.receives_iff.mp hreceives
  obtain rfl : 1 = p := Option.some.inj hline
  obtain rfl : i = 1 := Int.ofNat_inj.mp hi
  decide

/-- Two lines, with the cursor behind the character of the first one. -/
theorem cursor_painted_below : ¬ ∀ scene : Scene, 1 ≤ scene.visibleCols → 1 ≤ scene.visibleRows →
    scene.CursorPainted := by
  intro h
  let scene := after ⟨700, 500, by decide, by decide⟩
    [.write 'a'.toUInt8, .write '\n'.toUInt8, .setCursor 1 1] _ rfl ⟨by decide, by decide⟩
    ⟨by decide, by decide⟩
  obtain ⟨list, hholds⟩ := scene.linked
  have hreceives : scene.document.Receives scene.cursorX scene.cursorY 1 1 :=
    hholds.receives_iff.mpr ⟨rfl, by decide, rfl, Or.inl (by decide)⟩
  have hpainted := h scene (by decide) (by decide) 1 1 hreceives 0 (by decide)
    ⟨0, by decide, by decide, by decide⟩
  revert hpainted
  decide

end Scene

end Heartix.Terminal
