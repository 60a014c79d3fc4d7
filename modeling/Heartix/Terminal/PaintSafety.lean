import Heartix.Terminal.Paint

/-!
The view buffer along the iterations of the painting, at changing sizes of the canvas.
The buffer is doubled once when the new size does not fit, so a size fits if it has at
most twice the cells the buffer has. Without a column the cursor has no place.
-/

namespace Heartix.Terminal

open Runs

namespace ViewBuffer

/-- One iteration; a new buffer would hold what the memory of the iteration holds. -/
def step (v : ViewBuffer) : Scene × (ℕ → UInt8) → Option ViewBuffer
  | (scene, memory) => (v.paint memory scene).map Prod.snd

/-- The buffer has a byte for every cell. -/
def Covers (v : ViewBuffer) : Prop := v.rows * v.columns ≤ v.max

/-- A view with a column, whose cells are counted by an `int` and by twice the buffer. -/
def Fits (v : ViewBuffer) (scene : Scene) : Prop :=
  1 ≤ scene.visibleCols ∧ scene.visibleRows * scene.visibleCols < 2 ^ 31 ∧
    scene.visibleRows * scene.visibleCols ≤ 2 * v.max

/-- What the iterations keep. -/
structure Sound (v : ViewBuffer) : Prop where
  covers : v.Covers
  cells_lt : v.rows * v.columns < 2 ^ 31
  max_le : v.max ≤ 2 ^ 32

/-- Another content of the same buffer. -/
structure SameSize (v u : ViewBuffer) : Prop where
  max : u.max = v.max
  columns : u.columns = v.columns
  rows : u.rows = v.rows

variable {u v : ViewBuffer} {scene : Scene} {memory : ℕ → UInt8} {columns rows x y : ℕ} {i : ℤ}
  {c : UInt8}

theorem SameSize.refl (v : ViewBuffer) : v.SameSize v := ⟨rfl, rfl, rfl⟩

theorem SameSize.trans {w : ViewBuffer} (h : v.SameSize u) (h' : u.SameSize w) : v.SameSize w :=
  ⟨h'.max.trans h.max, h'.columns.trans h.columns, h'.rows.trans h.rows⟩

theorem setCell_of_lt (hpos : 0 ≤ i) (hlt : i < v.max) (c : UInt8) :
    ∃ u, v.setCell i c = some u ∧ v.SameSize u := by
  unfold setCell
  rw [if_pos ⟨hpos, hlt⟩]
  split
  · exact ⟨_, rfl, rfl, rfl, rfl⟩
  · exact ⟨v, rfl, SameSize.refl v⟩

theorem setCell_of_neg (h : i < 0) : v.setCell i c = none := if_neg fun hand => by omega

/-- Where the cells are counted by an `int`, the index of a cell is its number. -/
theorem cellIndex_eq (hcells : rows * columns < 2 ^ 31) (hy : y < rows) (hx : x < columns) :
    cellIndex columns y x = (y * columns + x : ℕ) ∧ y * columns + x < rows * columns := by
  have hrow := Nat.mul_le_mul_right columns (Nat.succ_le_of_lt hy)
  rw [Nat.succ_mul] at hrow
  refine ⟨?_, by omega⟩
  unfold cellIndex
  rw [← Int.natCast_mul, ← Int.natCast_add]
  exact Int.bmod_eq_of_le (by omega) (by omega)

/-- A row is prepared inside a buffer that covers the cells. -/
theorem prepareRow_of_covers (hcolumns : scene.visibleCols = columns) (hpos : 0 < columns)
    (hcells : rows * columns < 2 ^ 31) (hmax : rows * columns ≤ v.max) (hy : y < rows) :
    ∃ u, prepareRow scene v y = some u ∧ v.SameSize u := by
  obtain ⟨list, hholds⟩ := scene.linked
  obtain ⟨row, hrow, hread⟩ := hholds.acquireRow_readable hpos (scene.currentRow y)
  have halong : Along (fun v x => (scene.document.rowChar row x).bind fun c =>
      v.setCell (cellIndex columns y x) c) v.SameSize (List.range columns) v := by
    refine Guarded.along (G := fun _ x => x < columns) ?_ (SameSize.refl v)
      (Guarded.of_forall (fun x hx => List.mem_range.mp hx) v)
    intro u x hsame hx
    obtain ⟨c, hc⟩ := Option.isSome_iff_exists.mp (hread x)
    obtain ⟨hindex, hlt⟩ := cellIndex_eq hcells hy hx
    obtain ⟨w, hw, hsame'⟩ := setCell_of_lt (v := u) (i := cellIndex columns y x)
      (by rw [hindex]; omega) (by rw [hindex, hsame.max]; omega) c
    exact ⟨w, by rw [hc, Option.bind_some, hw], hsame.trans hsame'⟩
  unfold prepareRow
  rw [hcolumns, Int.toNat_natCast, Document.acquireRowChecked_eq hpos, hrow]
  exact halong.foldlM

theorem cells_nonneg (scene : Scene) : 0 ≤ scene.visibleRows * scene.visibleCols := by
  unfold Scene.visibleRows Scene.visibleCols
  rw [CanvasBounds.getRows_eq, CanvasBounds.getColumns_eq]
  exact Int.mul_nonneg (Int.natCast_nonneg _) (Int.natCast_nonneg _)

theorem newLen_eq {n : ℤ} (hpos : 0 ≤ n) (hlt : n < 2 ^ 31) :
    (n.bmod (2 ^ 32) % 2 ^ 64).toNat = n.toNat := by
  rw [Int.bmod_eq_of_le (by omega) (by omega), Int.emod_eq_of_lt hpos (by omega)]

/-- The buffer after a change of the size, if it fits. -/
theorem resize_of_fits (h : v.Sound) (hfits : v.Fits scene) (memory : ℕ → UInt8) :
    ∃ u, v.resize memory scene.visibleCols scene.visibleRows = some u ∧ u.Sound ∧
      u.columns = scene.visibleCols ∧ u.rows = scene.visibleRows := by
  obtain ⟨_, hcells, htwice⟩ := hfits
  have hnonneg := cells_nonneg scene
  have hmax := h.max_le
  unfold resize
  by_cases hchanged : v.columns ≠ scene.visibleCols ∨ v.rows ≠ scene.visibleRows
  · rw [if_pos hchanged]
    dsimp only
    rw [newLen_eq hnonneg hcells]
    by_cases hgrow : v.max < (scene.visibleRows * scene.visibleCols).toNat
    · rw [if_pos hgrow]
      dsimp only
      have hdouble : v.max * 2 % 2 ^ 64 = v.max * 2 := Nat.mod_eq_of_lt (by omega)
      rw [hdouble, if_pos (by omega)]
      refine ⟨_, rfl, ⟨?_, hcells, ?_⟩, rfl, rfl⟩
      · unfold Covers
        dsimp only
        omega
      · dsimp only
        omega
    · rw [if_neg hgrow, if_pos (by omega)]
      refine ⟨_, rfl, ⟨?_, hcells, hmax⟩, rfl, rfl⟩
      unfold Covers
      dsimp only
      omega
  · rw [if_neg hchanged]
    push Not at hchanged
    exact ⟨v, rfl, h, hchanged.1, hchanged.2⟩

/-- A view that fits is painted, and leaves a buffer that covers it. -/
theorem step_of_fits (h : v.Sound) (hfits : v.Fits scene) (memory : ℕ → UInt8) :
    ∃ u, v.step (scene, memory) = some u ∧ u.Sound := by
  obtain ⟨u, hresize, hsound, hcolumns, hrows⟩ := resize_of_fits h hfits memory
  obtain ⟨hpos, _, _⟩ := hfits
  obtain ⟨columns, hcols⟩ := Int.eq_ofNat_of_zero_le (show 0 ≤ scene.visibleCols by omega)
  have hrowsNat : scene.visibleRows = ((scene.bounds.height - 6) / 18 : ℕ) :=
    CanvasBounds.getRows_eq scene.bounds
  generalize (scene.bounds.height - 6) / 18 = rows at hrowsNat
  have hcells : rows * columns < 2 ^ 31 := by
    have hlt := hsound.cells_lt
    rw [hcolumns, hrows, hcols, hrowsNat] at hlt
    exact_mod_cast hlt
  have hmax : rows * columns ≤ u.max := by
    have hcovers := hsound.covers
    unfold Covers at hcovers
    rw [hcolumns, hrows, hcols, hrowsNat] at hcovers
    exact_mod_cast hcovers
  have halong : Along (prepareRow scene) u.SameSize (List.range rows) u := by
    refine Guarded.along (G := fun _ y => y < rows) ?_ (SameSize.refl u)
      (Guarded.of_forall (fun y hy => List.mem_range.mp hy) u)
    intro w y hsame hy
    obtain ⟨w', hw', hsame'⟩ := prepareRow_of_covers hcols (by omega) hcells
      (by rw [hsame.max]; exact hmax) hy
    exact ⟨w', hw', hsame.trans hsame'⟩
  obtain ⟨w, hw, hsame⟩ := halong.foldlM
  refine ⟨w, ?_, ?_, ?_, ?_⟩
  · unfold step paint Scene.cursorView
    dsimp only
    rw [hresize, Option.bind_some, hrowsNat, Int.toNat_natCast, hw, Option.bind_some,
      if_neg (by omega)]
    rfl
  · unfold Covers
    rw [hsame.max, hsame.columns, hsame.rows]
    exact hsound.covers
  · rw [hsame.columns, hsame.rows]
    exact hsound.cells_lt
  · rw [hsame.max]
    exact hsound.max_le

/-- A size for which twice the buffer is too small. -/
theorem resize_of_large {visibleCols visibleRows : ℤ} (hmax : v.max ≤ 2 ^ 32)
    (hchanged : v.columns ≠ visibleCols ∨ v.rows ≠ visibleRows)
    (hlarge : 2 * v.max < ((visibleRows * visibleCols).bmod (2 ^ 32) % 2 ^ 64).toNat)
    (memory : ℕ → UInt8) : v.resize memory visibleCols visibleRows = none := by
  have hdouble : v.max * 2 % 2 ^ 64 = v.max * 2 := Nat.mod_eq_of_lt (by omega)
  unfold resize
  rw [if_pos hchanged]
  dsimp only
  generalize ((visibleRows * visibleCols).bmod (2 ^ 32) % 2 ^ 64).toNat = newLen at hlarge ⊢
  rw [if_pos (show v.max < newLen by omega)]
  dsimp only
  rw [hdouble, if_neg (by omega)]

/-- With more than 2^31 cells, one of them has a negative index. -/
theorem foldlM_prepareRow_of_overflow (hcolumns : scene.visibleCols = columns)
    (hrows : scene.visibleRows = rows) (hcells : 2 ^ 31 < rows * columns) (v : ViewBuffer) :
    (List.range scene.visibleRows.toNat).foldlM (prepareRow scene) v = none := by
  have hpos : 0 < columns := Nat.pos_of_ne_zero fun hzero => by
    rw [hzero, Nat.mul_zero] at hcells
    omega
  have hdecomp := Nat.div_add_mod' (2 ^ 31) columns
  have hx := Nat.mod_lt (2 ^ 31) hpos
  have hy : 2 ^ 31 / columns < rows := (Nat.div_lt_iff_lt_mul hpos).mpr hcells
  generalize 2 ^ 31 / columns = y at hdecomp hy
  generalize 2 ^ 31 % columns = x at hdecomp hx
  have hindex : cellIndex columns y x < 0 := by
    have hsum : (y : ℤ) * columns + x = 2 ^ 31 := by exact_mod_cast hdecomp
    unfold cellIndex
    rw [hsum]
    decide
  have hcell : ∀ (row : Row) (u : ViewBuffer), ((scene.document.rowChar row x).bind fun c =>
      u.setCell (cellIndex columns y x) c) = none := by
    intro row u
    cases scene.document.rowChar row x with
    | none => rfl
    | some c =>
      rw [Option.bind_some]
      exact setCell_of_neg hindex
  have hrow : ∀ u : ViewBuffer, prepareRow scene u y = none := by
    intro u
    unfold prepareRow
    rw [hcolumns, Int.toNat_natCast]
    cases scene.document.acquireRowChecked (scene.currentRow y) columns with
    | none => rfl
    | some row =>
      exact foldlM_eq_none (P := fun _ => True) (fun _ _ _ _ _ => trivial)
        (List.mem_range.mpr hx) (fun u _ => hcell row u) trivial
  rw [hrows, Int.toNat_natCast]
  exact foldlM_eq_none (P := fun _ => True) (fun _ _ _ _ _ => trivial)
    (List.mem_range.mpr hy) (fun u _ => hrow u) trivial

/-- Without a column, the place of the cursor is a remainder by zero. -/
theorem paint_of_no_column (hcolumns : scene.visibleCols = 0) (memory : ℕ → UInt8)
    (v : ViewBuffer) : v.paint memory scene = none := by
  have hcursor : scene.cursorView = none := if_pos hcolumns
  unfold paint
  rw [hcursor]
  cases v.resize memory scene.visibleCols scene.visibleRows with
  | none => rfl
  | some u =>
    rw [Option.bind_some]
    cases (List.range scene.visibleRows.toNat).foldlM (prepareRow scene) u with
    | none => rfl
    | some w => rfl

theorem paint_of_overflow (hcells : 2 ^ 31 < scene.visibleRows * scene.visibleCols)
    (memory : ℕ → UInt8) (v : ViewBuffer) : v.paint memory scene = none := by
  have hcolumns : scene.visibleCols = ((scene.bounds.width - 6) / 8 : ℕ) :=
    CanvasBounds.getColumns_eq scene.bounds
  have hrows : scene.visibleRows = ((scene.bounds.height - 6) / 18 : ℕ) :=
    CanvasBounds.getRows_eq scene.bounds
  rw [hcolumns, hrows] at hcells
  unfold paint
  cases v.resize memory scene.visibleCols scene.visibleRows with
  | none => rfl
  | some u =>
    rw [Option.bind_some, foldlM_prepareRow_of_overflow hcolumns hrows (by exact_mod_cast hcells)]
    rfl

/-- The length of the new buffer, as far as it is computed: exactly 2^31 cells count as
almost 2^64. -/
theorem lt_newLen {n : ℤ} (hpos : 0 ≤ n) (hle : n ≤ 2 ^ 31) {max : ℕ} (hmax : max ≤ 2 ^ 32)
    (hlarge : n < 2 ^ 31 → 2 * max < n) : 2 * max < (n.bmod (2 ^ 32) % 2 ^ 64).toNat := by
  by_cases hend : n = 2 ^ 31
  · have hwrapped : (((2 : ℤ) ^ 31).bmod (2 ^ 32) % 2 ^ 64).toNat = 2 ^ 64 - 2 ^ 31 := by
      decide
    rw [hend, hwrapped]
    omega
  · rw [newLen_eq hpos (by omega)]
    have hlt := hlarge (by omega)
    omega

/-- A view that does not fit divides by zero, or leaves the buffer. -/
theorem paint_of_not_fits (h : v.Sound) (hfits : ¬ v.Fits scene) (memory : ℕ → UInt8) :
    v.paint memory scene = none := by
  have hnonneg := cells_nonneg scene
  have hcovers := h.covers
  have hlt := h.cells_lt
  unfold Covers at hcovers
  have hcolumns : 0 ≤ scene.visibleCols := by
    unfold Scene.visibleCols
    rw [CanvasBounds.getColumns_eq]
    exact Int.natCast_nonneg _
  by_cases hzero : scene.visibleCols = 0
  · exact paint_of_no_column hzero memory v
  · by_cases hoverflow : 2 ^ 31 < scene.visibleRows * scene.visibleCols
    · exact paint_of_overflow hoverflow memory v
    · have hlarge : scene.visibleRows * scene.visibleCols < 2 ^ 31 →
          2 * v.max < scene.visibleRows * scene.visibleCols := by
        intro hcells
        by_contra hle
        exact hfits ⟨by omega, hcells, by omega⟩
      have hchanged : v.columns ≠ scene.visibleCols ∨ v.rows ≠ scene.visibleRows := by
        by_contra hsame
        push Not at hsame
        rw [hsame.1, hsame.2] at hcovers hlt
        exact hfits ⟨by omega, hlt, by omega⟩
      unfold paint
      rw [resize_of_large h.max_le hchanged (lt_newLen hnonneg (by omega) h.max_le hlarge)]
      rfl

theorem step_of_not_fits (h : v.Sound) (hfits : ¬ v.Fits scene) (memory : ℕ → UInt8) :
    v.step (scene, memory) = none := by
  unfold step
  dsimp only
  rw [paint_of_not_fits h hfits]
  rfl

theorem construct_sound (memory : ℕ → UInt8) : (construct memory).Sound := by
  refine ⟨?_, ?_, ?_⟩
  · change (0 : ℤ) * 0 ≤ (300 * 80 : ℕ)
    omega
  · change (0 : ℤ) * 0 < 2 ^ 31
    omega
  · change 300 * 80 ≤ 2 ^ 32
    omega

/-- Along exactly the iterations whose views fit, nothing is divided by zero, every
access is inside the view buffer, and the buffer covers the cells. -/
theorem painting_safe_iff (memory : ℕ → UInt8) (scenes : List (Scene × (ℕ → UInt8))) :
    Along step Covers scenes (construct memory) ↔
      Guarded step (fun v scene => v.Fits scene.1) scenes (construct memory) := by
  refine along_iff_guarded (fun _ h => h.covers) ?_ ?_ scenes (construct_sound memory)
  · intro v scene h hfits
    exact step_of_fits h hfits scene.2
  · intro v scene h hfits t ht
    rw [step_of_not_fits h hfits scene.2] at ht
    cases ht

/-- An empty document in a large window, at the first iteration. -/
def largeScene : Scene where
  bounds := ⟨4000, 4000, by decide, by decide⟩
  document := Document.construct
  linked := ⟨[1], Document.construct_holds⟩
  documentRows := 1
  scrollY := 0
  cursorX := 0
  cursorY := 0
  cursorX_int := by decide
  cursorY_int := by decide

theorem painting_out_of_range : ¬ ∀ memory scenes, Along step Covers scenes (construct memory) := by
  intro h
  obtain ⟨_, u, hu, _⟩ := h (fun _ => 0) [(largeScene, fun _ => 0)]
  have hfits : ¬ (construct fun _ => 0).Fits largeScene :=
    fun hfits => absurd hfits.2.2 (by decide)
  rw [step_of_not_fits (construct_sound _) hfits] at hu
  cases hu

end ViewBuffer

end Heartix.Terminal
