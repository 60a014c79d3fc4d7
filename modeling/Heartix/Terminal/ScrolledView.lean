import Heartix.Terminal.CursorCell

/-!
What the window keeps for painting: the number of the document's rows and how far it
is scrolled. Both are recalculated by the operations that change the document or the
canvas, and a row from which painting starts is computed from them.
-/

namespace Heartix.Terminal

open Document Pieces

structure GuiView where
  screen : GuiScreen
  bounds : CanvasBounds
  documentRows : ℤ
  scrollY : ℤ

/-- The operations of the window. `edit` are those of a `GuiScreen`. -/
inductive ViewOp
  | edit (op : ScreenOp)
  | setCanvasBounds (bounds : CanvasBounds)
  | setScrollAreaScreen
  | setScrollArea (start stop : ℤ)
  | scroll (value : ℤ)

namespace GuiView

def construct : GuiView where
  screen := GuiScreen.construct
  bounds := ⟨0, 0, by decide, by decide⟩
  documentRows := 0
  scrollY := 0

def normalizeScroll (v : GuiView) : GuiView :=
  let viewRows := v.bounds.getRows
  let scrollY := if v.documentRows < v.scrollY then v.documentRows else v.scrollY
  { v with
    scrollY :=
      if viewRows < v.documentRows then
        if v.documentRows - viewRows < scrollY then v.documentRows - viewRows
        else if scrollY < -viewRows + 1 then -viewRows + 1
        else scrollY
      else 0 }

def recalculateView (v : GuiView) : Option GuiView :=
  (v.screen.document.getRowCount v.bounds.getColumns.toNat).map fun documentRows =>
    { v with documentRows := documentRows }.normalizeScroll

/-- A character that is not printed is dropped, and the cursor alone is no reason to
recalculate the view. -/
def recalculates : ScreenOp → Bool
  | .write c => charIsUtf8 c
  | .remove => true
  | .backspace => true
  | .clean => true
  | .setCursor _ _ => false

def exec : GuiView → ViewOp → Option GuiView
  | v, .edit op => (v.screen.exec op).bind fun screen =>
      if recalculates op then { v with screen := screen }.recalculateView
      else some { v with screen := screen }
  | v, .setCanvasBounds bounds => { v with bounds := bounds }.recalculateView
  | v, .setScrollAreaScreen => some { v with scrollY := 0 }.normalizeScroll
  | v, .setScrollArea _ stop => some { v with scrollY := stop }.normalizeScroll
  | v, .scroll value =>
      some { v with scrollY := (v.scrollY + value).bmod (2 ^ 32) }.normalizeScroll

/-- What `paint` sees of the window. -/
def scene (v : GuiView) (linked : ∃ list, v.screen.document.Holds list)
    (cursorX_int : -2 ^ 31 ≤ v.screen.cursorX ∧ v.screen.cursorX < 2 ^ 31)
    (cursorY_int : -2 ^ 31 ≤ v.screen.cursorY ∧ v.screen.cursorY < 2 ^ 31) : Scene where
  bounds := v.bounds
  document := v.screen.document
  linked := linked
  documentRows := v.documentRows
  scrollY := v.scrollY
  cursorX := v.screen.cursorX
  cursorY := v.screen.cursorY
  cursorX_int := cursorX_int
  cursorY_int := cursorY_int

/-- The row that `paint` starts from. -/
def renderStartRow (v : GuiView) : ℤ :=
  if v.documentRows < v.bounds.getRows then v.documentRows
  else (v.bounds.getRows + v.scrollY).bmod (2 ^ 32)

theorem renderStartRow_scene (v : GuiView) (linked : ∃ list, v.screen.document.Holds list)
    (cursorX_int : -2 ^ 31 ≤ v.screen.cursorX ∧ v.screen.cursorX < 2 ^ 31)
    (cursorY_int : -2 ^ 31 ≤ v.screen.cursorY ∧ v.screen.cursorY < 2 ^ 31) :
    (v.scene linked cursorX_int cursorY_int).renderStartRow = v.renderStartRow := rfl

/-- The rows of the document at the width of the canvas, the last one first. -/
def rows (v : GuiView) : List (List UInt8) :=
  v.screen.document.rows v.bounds.getColumns.toNat

/-- What is painted starts at a row of the document, and goes on above it. -/
structure InDocument (v : GuiView) : Prop where
  start : 1 ≤ v.renderStartRow ∧ v.renderStartRow ≤ v.documentRows
  unscrolled : v.documentRows ≤ v.bounds.getRows → v.scrollY = 0
  topmost : ∀ y : ℕ, v.renderStartRow - y - 1 ≤ v.documentRows - 1
  shown : ∃ row text, v.screen.document.acquireRow (v.renderStartRow - 1)
      v.bounds.getColumns.toNat = some row ∧ v.screen.document.rowText row = some text ∧
    v.rows[(v.renderStartRow - 1).toNat]? = some text

/-- How far the view may be scrolled. -/
structure Normal (v : GuiView) : Prop where
  scrolled : v.bounds.getRows < v.documentRows →
    -v.bounds.getRows + 1 ≤ v.scrollY ∧ v.scrollY ≤ v.documentRows - v.bounds.getRows
  unscrolled : v.documentRows ≤ v.bounds.getRows → v.scrollY = 0

/-- The lines are linked, their rows have been counted in `int` arithmetic, and the
scrolling is normal. -/
structure Recalculated (v : GuiView) : Prop where
  linked : ∃ list, v.screen.document.Holds list
  counted : 1 ≤ v.bounds.getColumns → v.documentRows = (v.rows.length : ℤ).bmod (2 ^ 32)
  normal : v.Normal

variable {v t : GuiView}

theorem getRows_bounds (bounds : CanvasBounds) : 0 ≤ bounds.getRows ∧ bounds.getRows < 2 ^ 31 := by
  have hheight := bounds.height_lt
  rw [CanvasBounds.getRows_eq]
  omega

/-- Scrolling is clamped to what it may be. -/
theorem normalizeScroll_normal (v : GuiView) : v.normalizeScroll.Normal := by
  have hrows := getRows_bounds v.bounds
  constructor
  · intro hlarge
    unfold normalizeScroll at hlarge ⊢
    dsimp only at hlarge ⊢
    rw [if_pos hlarge]
    split <;> omega
  · intro hsmall
    unfold normalizeScroll at hsmall ⊢
    dsimp only at hsmall ⊢
    rw [if_neg (Int.not_lt.mpr hsmall)]

theorem Recalculated.scrolled (h : v.Recalculated) (scrollY : ℤ) :
    ({ v with scrollY := scrollY }.normalizeScroll).Recalculated :=
  ⟨h.linked, h.counted, normalizeScroll_normal _⟩

theorem recalculateView_recalculated (linked : ∃ list, v.screen.document.Holds list)
    (ht : v.recalculateView = some t) : t.Recalculated := by
  obtain ⟨n, hcount, rfl⟩ := Option.map_eq_some_iff.mp ht
  refine ⟨linked, fun hcolumns => ?_, normalizeScroll_normal _⟩
  obtain ⟨list, h⟩ := linked
  have hcolumns : 1 ≤ v.bounds.getColumns := hcolumns
  rw [h.getRowCount_spec (by omega)] at hcount
  exact (Option.some.inj hcount).symm

theorem document_of_not_recalculates {g g' : GuiScreen} {op : ScreenOp}
    (hop : recalculates op = false) (hrun : g.exec op = some g') : g'.document = g.document := by
  cases op with
  | write c =>
    have hchar : charIsUtf8 c = false := hop
    change g.write c = some g' at hrun
    unfold GuiScreen.write at hrun
    rw [hchar, if_neg Bool.false_ne_true] at hrun
    obtain rfl := Option.some.inj hrun
    rfl
  | remove => cases hop
  | backspace => cases hop
  | clean => cases hop
  | setCursor x y =>
    obtain rfl := Option.some.inj hrun
    rfl

/-- Every operation leaves the view recalculated. -/
theorem exec_recalculated (h : v.Recalculated) {op : ViewOp} (ht : v.exec op = some t) :
    t.Recalculated := by
  cases op with
  | edit op =>
    obtain ⟨g, hrun, ht⟩ := Option.bind_eq_some_iff.mp ht
    obtain ⟨list, hholds⟩ := h.linked
    by_cases hop : recalculates op = true
    · rw [if_pos hop] at ht
      exact recalculateView_recalculated (GuiScreen.exec_holds hholds hrun) ht
    · rw [if_neg hop] at ht
      obtain rfl := Option.some.inj ht
      have hsame := document_of_not_recalculates (Bool.not_eq_true _ ▸ hop) hrun
      refine ⟨⟨list, hsame ▸ hholds⟩, ?_, h.normal.scrolled, h.normal.unscrolled⟩
      unfold rows
      dsimp only
      rw [hsame]
      exact h.counted
  | setCanvasBounds bounds =>
    exact recalculateView_recalculated (v := { v with bounds := bounds }) h.linked ht
  | setScrollAreaScreen =>
    obtain rfl := Option.some.inj ht
    exact h.scrolled 0
  | setScrollArea start stop =>
    obtain rfl := Option.some.inj ht
    exact h.scrolled stop
  | scroll value =>
    obtain rfl := Option.some.inj ht
    exact h.scrolled _

theorem construct_recalculated : construct.Recalculated where
  linked := ⟨[1], Document.construct_holds⟩
  counted := by
    intro hcolumns
    cases hcolumns
  normal := ⟨fun hlarge => absurd hlarge (by decide), fun _ => rfl⟩

theorem recalculated_of_run {ops : List ViewOp} (h : v.Recalculated)
    (hrun : ops.foldlM exec v = some t) : t.Recalculated := by
  induction ops generalizing v with
  | nil =>
    obtain rfl := Option.some.inj hrun
    exact h
  | cons op ops ih =>
    rw [List.foldlM_cons] at hrun
    obtain ⟨next, hnext, hrest⟩ := Option.bind_eq_some_iff.mp hrun
    exact ih (exec_recalculated h hnext) hrest

theorem bmod_le (n : ℕ) : (n : ℤ).bmod (2 ^ 32) ≤ n := by
  unfold Int.bmod
  dsimp only
  split <;> omega

/-- Where painting starts, if the document has a row by its count. -/
theorem Recalculated.renderStartRow_bounds (h : v.Recalculated) (hrows : 1 ≤ v.documentRows)
    (hlt : v.documentRows < 2 ^ 31) :
    1 ≤ v.renderStartRow ∧ v.renderStartRow ≤ v.documentRows := by
  have hview := getRows_bounds v.bounds
  unfold renderStartRow
  by_cases hfits : v.documentRows < v.bounds.getRows
  · rw [if_pos hfits]
    exact ⟨hrows, le_refl _⟩
  · rw [if_neg hfits]
    rcases Int.lt_or_eq_of_le (Int.not_lt.mp hfits) with hlarge | hequal
    · obtain ⟨hlow, hhigh⟩ := h.normal.scrolled hlarge
      rw [Int.bmod_eq_of_le (by omega) (by omega)]
      omega
    · rw [h.normal.unscrolled hequal.ge, Int.add_zero, Int.bmod_eq_of_le (by omega) (by omega)]
      omega

/-- What is painted is in the document exactly when the count of its rows is positive. -/
theorem Recalculated.inDocument_iff (h : v.Recalculated) (hcolumns : 1 ≤ v.bounds.getColumns)
    (hview : 1 ≤ v.bounds.getRows) :
    v.InDocument ↔ 1 ≤ (v.rows.length : ℤ).bmod (2 ^ 32) := by
  have hcounted := h.counted hcolumns
  rw [← hcounted]
  constructor
  · intro hin
    exact hin.start.1.trans hin.start.2
  · intro hrows
    have hlt : v.documentRows < 2 ^ 31 := by
      rw [hcounted]
      exact Int.bmod_lt (by decide)
    have hle : v.documentRows ≤ v.rows.length := by
      rw [hcounted]
      exact bmod_le v.rows.length
    have hstart := h.renderStartRow_bounds hrows hlt
    refine ⟨hstart, h.normal.unscrolled, fun y => by omega, ?_⟩
    obtain ⟨list, hholds⟩ := h.linked
    have hcountdown : countdown (v.renderStartRow - 1) = (v.renderStartRow - 1).toNat := by
      unfold countdown
      rw [Int.emod_eq_of_lt (by omega) (by omega)]
    rcases hholds.acquireRow_spec (show 0 < v.bounds.getColumns.toNat by omega)
      (v.renderStartRow - 1) with ⟨row, text, hrow, htext, hget⟩ | ⟨_, hbeyond⟩
    · exact ⟨row, text, hrow, htext, hcountdown ▸ hget⟩
    · have hbeyond : v.rows.length ≤ countdown (v.renderStartRow - 1) := hbeyond
      omega

theorem one_le_bmod_iff (n : ℕ) :
    1 ≤ (n : ℤ).bmod (2 ^ 32) ↔ 0 < n % 2 ^ 32 ∧ n % 2 ^ 32 < 2 ^ 31 := by
  unfold Int.bmod
  dsimp only
  split <;> omega

/-- In every state a run leads to, what is painted is in the document, unless the rows
are so many that their count overflows. -/
theorem view_in_document_iff (ops : List ViewOp) (hrun : ops.foldlM exec construct = some v)
    (hcolumns : 1 ≤ v.bounds.getColumns) (hview : 1 ≤ v.bounds.getRows) :
    v.InDocument ↔ 0 < v.rows.length % 2 ^ 32 ∧ v.rows.length % 2 ^ 32 < 2 ^ 31 := by
  have hrecalculated := recalculated_of_run construct_recalculated hrun
  rw [hrecalculated.inDocument_iff hcolumns hview, one_le_bmod_iff]

/-- Two lines in a canvas of one row, scrolled up. -/
theorem view_in_document_iff_scrolled :
    ∃ v : GuiView, [ViewOp.setCanvasBounds ⟨700, 40, by decide, by decide⟩,
        .edit (.write 'a'.toUInt8), .edit (.write '\n'.toUInt8), .scroll 5].foldlM exec construct =
          some v ∧
      (v.InDocument ↔ 0 < v.rows.length % 2 ^ 32 ∧ v.rows.length % 2 ^ 32 < 2 ^ 31) := by
  have hsize : ([ViewOp.setCanvasBounds ⟨700, 40, by decide, by decide⟩,
      .edit (.write 'a'.toUInt8), .edit (.write '\n'.toUInt8), .scroll 5].foldlM exec
        construct).map (fun v => (v.bounds.getColumns, v.bounds.getRows)) = some (86, 1) := by
    decide +kernel
  obtain ⟨v, hrun, heq⟩ := Option.map_eq_some_iff.mp hsize
  obtain ⟨hcolumns, hrows⟩ := Prod.mk.inj heq
  exact ⟨v, hrun, view_in_document_iff _ hrun (by rw [hcolumns]; decide) (by rw [hrows])⟩

/-- In a canvas of one column, a line of the greatest length and another one. -/
theorem view_leaves_document : ¬ ∀ (ops : List ViewOp) (v : GuiView),
    ops.foldlM exec construct = some v → 1 ≤ v.bounds.getColumns → 1 ≤ v.bounds.getRows →
      v.InDocument := by
  intro h
  have hstart : ([ViewOp.setCanvasBounds ⟨14, 500, by decide, by decide⟩,
      .edit (.setCursor 2147483646 0), .edit (.write 'a'.toUInt8),
      .edit (.write '\n'.toUInt8)].foldlM exec construct).map (fun v =>
        (v.bounds.getColumns, v.bounds.getRows, v.renderStartRow)) =
      some (1, 27, -2147483648) := by
    decide +kernel
  obtain ⟨v, hrun, heq⟩ := Option.map_eq_some_iff.mp hstart
  obtain ⟨hcolumns, hrest⟩ := Prod.mk.inj heq
  obtain ⟨hrows, hrow⟩ := Prod.mk.inj hrest
  have hin := (h _ v hrun (by rw [hcolumns]) (by rw [hrows]; decide)).start.1
  rw [hrow] at hin
  exact absurd hin (by decide)

end GuiView

end Heartix.Terminal
