import Heartix.Terminal.DocumentRows

/-!
An iteration of the window's painting: the view buffer follows the size of the
canvas and takes the characters of the visible rows, and the place of the cursor is
computed. A remainder by zero and an index outside the view buffer are undefined.
What is drawn is left out; it reads the cells that have been written.
-/

namespace Heartix.Terminal

open DoublyLinked Pieces Runs

/-- The size of the canvas, in pixels. -/
structure CanvasBounds where
  width : ℕ
  height : ℕ
  width_lt : width < 2 ^ 31
  height_lt : height < 2 ^ 31

namespace CanvasBounds

def padding : ℤ := 3
def charsWidth : ℤ := 8
def charsHeight : ℤ := 18

def getColumns (bounds : CanvasBounds) : ℤ := (bounds.width - 2 * padding).tdiv charsWidth

def getRows (bounds : CanvasBounds) : ℤ := (bounds.height - 2 * padding).tdiv charsHeight

/-- A canvas smaller than its padding has nothing in it. -/
theorem sub_tdiv {k : ℕ} (hk : 6 < k) (n : ℕ) : ((n : ℤ) - 2 * padding).tdiv k =
    ((n - 6) / k : ℕ) := by
  unfold padding
  rcases Nat.le_total 6 n with hle | hlt
  · have hsub : (n : ℤ) - 2 * 3 = (n - 6 : ℕ) := by omega
    rw [hsub, ← Int.ofNat_tdiv]
  · have hsub : (n : ℤ) - 2 * 3 = -(6 - n : ℕ) := by omega
    rw [hsub, Int.neg_tdiv, ← Int.ofNat_tdiv, Nat.div_eq_of_lt (by omega),
      Nat.sub_eq_zero_of_le hlt, Nat.zero_div]
    rfl

theorem getColumns_eq (bounds : CanvasBounds) : bounds.getColumns = ((bounds.width - 6) / 8 : ℕ) :=
  sub_tdiv (by decide) bounds.width

theorem getRows_eq (bounds : CanvasBounds) : bounds.getRows = ((bounds.height - 6) / 18 : ℕ) :=
  sub_tdiv (by decide) bounds.height

end CanvasBounds

namespace Document

/-- One step back, undefined where a remainder by zero is taken. -/
def stepBackChecked (d : Document) (columns p rem : ℕ) : Option (ℕ × ℕ) :=
  if columns = 0 ∧ (rem ≠ 0 ∨ d.lengthOf p ≠ 0) then none else d.stepBack columns p rem

def rowWalkChecked (d : Document) (columns : ℕ) : ℕ → ℕ → ℕ → Option (ℕ × ℕ)
  | 0, p, rem => some (p, rem)
  | n + 1, p, rem =>
      if p = 0 then some (0, rem)
      else (d.stepBackChecked columns p rem).bind fun (p, rem) => d.rowWalkChecked columns n p rem

/-- `acquireRow`, undefined where a remainder by zero is taken. -/
def acquireRowChecked (offsetY : ℤ) (columns : ℕ) (d : Document) : Option Row :=
  match d.memory d.lines with
  | none => none
  | some line =>
      match d.rowWalkChecked columns (countdown offsetY) d.lines line.length with
      | none => none
      | some (0, _) => some nullRow
      | some (p, rem) => if columns = 0 ∧ rem ≠ 0 then none else d.rowEnding columns p rem

/-- The character of a row at a column, undefined outside the buffer of the line. -/
def rowChar (d : Document) (row : Row) (x : ℕ) : Option UInt8 :=
  match row.start with
  | none => some 0
  | some (p, start) =>
      if x < row.length then (d.memory p).bind fun line => line.buffer[start + x]? else some 0

section Places

variable {d : Document} {list : List ℕ} {columns p q rem rem' k n : ℕ} {offsetY : ℤ}

/-- The walk is at the row of the line `p` that ends at `rem`, and has passed `k` rows:
those of the lines behind it, and those behind it in the line. -/
structure AtPlace (d : Document) (list : List ℕ) (columns p rem k : ℕ) : Prop where
  rowEnd : RowEnd columns (d.lengthOf p) rem
  passed : ∃ front back, list = front ++ p :: back ∧
    k + pieceCount columns rem = (front.map fun a => pieceCount columns (d.lengthOf a)).sum +
      pieceCount columns (d.lengthOf p)

theorem AtPlace.mem (h : d.AtPlace list columns p rem k) : p ∈ list := by
  obtain ⟨front, back, rfl, _⟩ := h.passed
  exact List.mem_append_right front List.mem_cons_self

theorem Holds.atPlace_start (h : d.Holds list) (columns : ℕ) :
    d.AtPlace list columns d.lines (d.lengthOf d.lines) 0 := by
  obtain ⟨a, rest, rfl⟩ := List.exists_cons_of_ne_nil h.nonempty
  have hlines : d.lines = a := h.chained.1
  refine ⟨Or.inl rfl, [], rest, ?_, ?_⟩
  · rw [hlines]
    rfl
  · rw [List.map_nil, List.sum_nil]

/-- A step back passes one row. -/
theorem AtPlace.stepBack (h : d.Holds list) (hcolumns : 0 < columns)
    (hat : d.AtPlace list columns p rem k) (hq : q ≠ 0)
    (hstep : d.stepBack columns p rem = some (q, rem')) :
    d.AtPlace list columns q rem' (k + 1) := by
  obtain ⟨hend, front, back, hlist, hpassed⟩ := hat
  obtain ⟨line, hline⟩ := h.alive p (hlist ▸ List.mem_append_right front List.mem_cons_self)
  rw [stepBack_eq hline (lengthOf_of_memory hline ▸ hend)] at hstep
  by_cases hlt : columns < rem
  · rw [if_pos hlt] at hstep
    obtain ⟨rfl, rfl⟩ := Prod.mk.inj (Option.some.inj hstep)
    have hle := hend.le
    have hbefore := lastCut_lt hcolumns (show 0 < rem by omega)
    have hge := le_lastCut hcolumns hlt
    have hcount := pieceCount_lastCut hcolumns hlt
    exact ⟨Or.inr ⟨by omega, by omega, dvd_lastCut columns rem⟩, front, back, hlist, by omega⟩
  · rw [if_neg hlt] at hstep
    have hone := pieceCount_of_le hcolumns (show rem ≤ columns by omega)
    obtain ⟨before, hlinked⟩ := Linked.of_append (hlist ▸ h.chained)
    have hrest := hlinked.2.2.2
    rw [previousOf_of_memory hline] at hrest
    by_cases hprevious : line.previous = 0
    · rw [if_pos hprevious] at hstep
      exact absurd (Prod.mk.inj (Option.some.inj hstep)).1.symm hq
    · rw [if_neg hprevious] at hstep
      obtain ⟨previous, hmemory, heq⟩ := Option.map_eq_some_iff.mp hstep
      obtain ⟨rfl, rfl⟩ := Prod.mk.inj heq
      cases back with
      | nil => exact absurd hrest hprevious
      | cons b back =>
        have hb : line.previous = b := hrest.1
        refine ⟨Or.inl (lengthOf_of_memory hmemory).symm, front ++ [p], back, ?_, ?_⟩
        · rw [hlist, hb, List.append_assoc]
          rfl
        · rw [← lengthOf_of_memory hmemory, List.map_append, List.sum_append, List.map_singleton,
            List.sum_singleton]
          omega

theorem AtPlace.rowWalk (h : d.Holds list) (hcolumns : 0 < columns) (hq : q ≠ 0)
    (hat : d.AtPlace list columns p rem k) (hwalk : d.rowWalk columns n p rem = some (q, rem')) :
    d.AtPlace list columns q rem' (k + n) := by
  induction n generalizing p rem k with
  | zero =>
    obtain ⟨rfl, rfl⟩ := Prod.mk.inj (Option.some.inj hwalk)
    exact hat
  | succ n ih =>
    unfold Document.rowWalk at hwalk
    by_cases hp : p = 0
    · rw [if_pos hp] at hwalk
      exact absurd (Prod.mk.inj (Option.some.inj hwalk)).1.symm hq
    · rw [if_neg hp] at hwalk
      obtain ⟨⟨r, between⟩, hstep, hrest⟩ := Option.bind_eq_some_iff.mp hwalk
      have hr : r ≠ 0 := by
        intro hr
        cases n with
        | zero => exact hq ((Prod.mk.inj (Option.some.inj hrest)).1.symm.trans hr)
        | succ n =>
          unfold Document.rowWalk at hrest
          dsimp only at hrest
          rw [if_pos hr] at hrest
          exact hq (Prod.mk.inj (Option.some.inj hrest)).1.symm
      have hplace := ih (hat.stepBack h hcolumns hr hstep) hrest
      rw [Nat.add_right_comm] at hplace
      exact hplace

/-- The row that `acquireRow` returns is the one the walk ends at. -/
theorem Holds.acquireRow_cases (h : d.Holds list) (hcolumns : 0 < columns) (offsetY : ℤ) :
    ∃ p rem, d.rowWalk columns (countdown offsetY) d.lines (d.lengthOf d.lines) = some (p, rem) ∧
      (p = 0 ∧ d.acquireRow offsetY columns = some nullRow ∨
        p ≠ 0 ∧ d.AtPlace list columns p rem (countdown offsetY) ∧
          d.acquireRow offsetY columns = d.rowEnding columns p rem) := by
  obtain ⟨line, hline⟩ := h.alive _ (h.atPlace_start columns).mem
  have hsome : (d.acquireRow offsetY columns).isSome := by
    rcases h.acquireRow_spec hcolumns offsetY with ⟨row, _, hrow, _⟩ | ⟨hnull, _⟩
    · exact Option.isSome_of_mem hrow
    · exact Option.isSome_of_mem hnull
  have hstart := h.atPlace_start columns
  rw [lengthOf_of_memory hline] at hstart ⊢
  unfold acquireRow at hsome ⊢
  rw [hline] at hsome ⊢
  dsimp only at hsome ⊢
  cases hwalk : d.rowWalk columns (countdown offsetY) d.lines line.length with
  | none =>
    rw [hwalk] at hsome
    cases hsome
  | some place =>
    obtain ⟨p, rem⟩ := place
    refine ⟨p, rem, rfl, ?_⟩
    cases p with
    | zero => exact Or.inl ⟨rfl, rfl⟩
    | succ p =>
      have hplace := hstart.rowWalk h hcolumns (Nat.succ_ne_zero p) hwalk
      rw [Nat.zero_add] at hplace
      exact Or.inr ⟨Nat.succ_ne_zero p, hplace, rfl⟩

/-- Every character of a row can be read. -/
theorem Holds.acquireRow_readable (h : d.Holds list) (hcolumns : 0 < columns) (offsetY : ℤ) :
    ∃ row, d.acquireRow offsetY columns = some row ∧ ∀ x, (d.rowChar row x).isSome := by
  obtain ⟨p, rem, _, ⟨_, hnull⟩ | ⟨_, hplace, hrow⟩⟩ := h.acquireRow_cases hcolumns offsetY
  · exact ⟨nullRow, hnull, fun _ => rfl⟩
  · obtain ⟨line, hline⟩ := h.alive p hplace.mem
    have hrem := hplace.rowEnd.le
    have hallocated := h.allocated p line hline
    rw [lengthOf_of_memory hline] at hrem
    rw [rowEnding_eq hline] at hrow
    refine ⟨_, hrow, fun x => ?_⟩
    unfold rowChar
    dsimp only
    by_cases hnull : line.buffer = []
    · rw [if_pos hnull]
      rfl
    · rw [if_neg hnull]
      dsimp only
      by_cases hx : x < rem - lastCut columns rem
      · rw [if_pos hx, hline, Option.bind_some, List.getElem?_eq_getElem (by omega)]
        rfl
      · rw [if_neg hx]
        rfl

theorem rowWalkChecked_eq (hcolumns : 0 < columns) (n p rem : ℕ) :
    d.rowWalkChecked columns n p rem = d.rowWalk columns n p rem := by
  induction n generalizing p rem with
  | zero => rfl
  | succ n ih =>
    unfold rowWalkChecked rowWalk stepBackChecked
    rw [if_neg (show ¬ (columns = 0 ∧ _) from fun h => hcolumns.ne' h.1)]
    simp only [ih]

/-- With a column, no remainder is one by zero. -/
theorem acquireRowChecked_eq (hcolumns : 0 < columns) (offsetY : ℤ) (d : Document) :
    d.acquireRowChecked offsetY columns = d.acquireRow offsetY columns := by
  unfold acquireRowChecked acquireRow
  cases d.memory d.lines with
  | none => rfl
  | some line =>
    dsimp only
    rw [rowWalkChecked_eq hcolumns]
    cases d.rowWalk columns (countdown offsetY) d.lines line.length with
    | none => rfl
    | some place =>
      obtain ⟨p, rem⟩ := place
      cases p with
      | zero => rfl
      | succ p => exact if_neg fun h => hcolumns.ne' h.1

end Places

end Document

/-- What an iteration reads: the canvas, a document with a list of lines, the
results of the last recalculation, and the cursor. -/
structure Scene where
  bounds : CanvasBounds
  document : Document
  linked : ∃ list, document.Holds list
  documentRows : ℤ
  scrollY : ℤ
  cursorX : ℤ
  cursorY : ℤ
  cursorX_int : -2 ^ 31 ≤ cursorX ∧ cursorX < 2 ^ 31
  cursorY_int : -2 ^ 31 ≤ cursorY ∧ cursorY < 2 ^ 31

namespace Scene

def visibleCols (scene : Scene) : ℤ := scene.bounds.getColumns

def visibleRows (scene : Scene) : ℤ := scene.bounds.getRows

def renderStartRow (scene : Scene) : ℤ :=
  if scene.documentRows < scene.visibleRows then scene.documentRows
  else (scene.visibleRows + scene.scrollY).bmod (2 ^ 32)

/-- The number of the document's row that is shown in a row of the view. -/
def currentRow (scene : Scene) (y : ℕ) : ℤ := (scene.renderStartRow - y - 1).bmod (2 ^ 32)

/-- The column and the row of the view at which the cursor is painted. -/
def cursorView (scene : Scene) : Option (ℤ × ℤ) :=
  if scene.visibleCols = 0 then none
  else some (((scene.cursorX - 1).bmod (2 ^ 32)).tmod scene.visibleCols + 1,
    (scene.renderStartRow + scene.cursorY - 1).bmod (2 ^ 32))

end Scene

structure ViewBuffer where
  max : ℕ
  buffer : ℕ → UInt8
  columns : ℤ
  rows : ℤ

namespace ViewBuffer

/-- The view buffer before the first iteration. -/
def construct (memory : ℕ → UInt8) : ViewBuffer where
  max := 300 * 80
  buffer := memory
  columns := 0
  rows := 0

/-- The buffer is checked when the size of the view has changed. A new one holds what
was in the memory until it is cleared. -/
def resize (memory : ℕ → UInt8) (visibleCols visibleRows : ℤ) (v : ViewBuffer) :
    Option ViewBuffer :=
  if v.columns ≠ visibleCols ∨ v.rows ≠ visibleRows then
    let newLen := ((visibleRows * visibleCols).bmod (2 ^ 32) % 2 ^ 64).toNat
    let v := if v.max < newLen then { v with
      max := v.max * 2 % 2 ^ 64
      buffer := memory } else v
    if newLen ≤ v.max then
      some { v with
        buffer := fun i => if i < newLen then 0 else v.buffer i
        columns := visibleCols
        rows := visibleRows }
    else none
  else some v

/-- A cell takes a character, if it holds another one. -/
def setCell (i : ℤ) (c : UInt8) (v : ViewBuffer) : Option ViewBuffer :=
  if 0 ≤ i ∧ i < v.max then
    if v.buffer i.toNat ≠ c then some { v with buffer := Function.update v.buffer i.toNat c }
    else some v
  else none

/-- The index of a cell, in `int` arithmetic. -/
def cellIndex (visibleCols : ℤ) (y x : ℕ) : ℤ := (y * visibleCols + x).bmod (2 ^ 32)

/-- The loop over the cells of a row. -/
def prepareRow (scene : Scene) (v : ViewBuffer) (y : ℕ) : Option ViewBuffer :=
  (scene.document.acquireRowChecked (scene.currentRow y) scene.visibleCols.toNat).bind fun row =>
    (List.range scene.visibleCols.toNat).foldlM (fun v x =>
      (scene.document.rowChar row x).bind fun c =>
        v.setCell (cellIndex scene.visibleCols y x) c) v

/-- The new view buffer, and where the cursor is painted. -/
def paint (memory : ℕ → UInt8) (scene : Scene) (v : ViewBuffer) :
    Option ((ℤ × ℤ) × ViewBuffer) :=
  (v.resize memory scene.visibleCols scene.visibleRows).bind fun v =>
    ((List.range scene.visibleRows.toNat).foldlM (prepareRow scene) v).bind fun v =>
      scene.cursorView.map fun cursor => (cursor, v)

end ViewBuffer

end Heartix.Terminal
