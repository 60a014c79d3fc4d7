import Mathlib.Data.Finset.Insert
import Mathlib.Data.List.Basic
import Mathlib.Tactic.Ring
import Heartix.Lib.FirstFree

/-!
The organizer of the desktop's items. Each item snaps to the cell that its centre
is nearest to, and keeps it if the flag of the cell is not taken; the others get
the first cell whose flag is free. The flags lie in rows of `maxX`, but the columns
go up to `maxX`, so the last cell of a row shares its flag with the first cell of
the next row.
-/

namespace Heartix.Desktop

structure Rectangle where
  x : ℤ
  y : ℤ
  width : ℤ
  height : ℤ
  deriving DecidableEq, Repr

/-- The grid is constructed with the size of its cells. The padding is not used. -/
structure ItemOrganizer where
  cellWidth : ℤ
  cellHeight : ℤ
  width_int : 0 < cellWidth ∧ cellWidth < 2 ^ 31
  height_int : 0 < cellHeight ∧ cellHeight < 2 ^ 31

/-- The organizer that the background constructs. -/
def ItemOrganizer.ofBackground : ItemOrganizer where
  cellWidth := 100
  cellHeight := 100
  width_int := by decide
  height_int := by decide

/-- The first variables of `organize`. -/
structure Cells where
  cw : ℤ
  ch : ℤ
  maxX : ℤ
  maxY : ℤ

/-- The last index along one side of the background. -/
def maxIndex (extent cell : ℤ) : ℤ := extent.tdiv cell - if extent.tmod cell = 0 then 0 else 1

def ItemOrganizer.cells (o : ItemOrganizer) (background : Rectangle) : Cells where
  cw := o.cellWidth
  ch := o.cellHeight
  maxX := maxIndex background.width o.cellWidth
  maxY := maxIndex background.height o.cellHeight

/-- The index of the cell a coordinate snaps to, in `int` arithmetic. -/
def gridIndex (cell maxIndex v : ℤ) : ℤ :=
  let grid := ((v + cell.tdiv 2).bmod (2 ^ 32)).tdiv cell
  let grid := if grid < 0 then 0 else grid
  if maxIndex < grid then maxIndex else grid

/-- The variables that the loops of `organize` change. -/
structure Layout where
  allBounds : List Rectangle
  taken : List Bool
  resortIndexes : List ℕ

/-- An access to a flag, undefined outside the array. -/
def flagAt (taken : List Bool) (i : ℤ) : Option Bool := if 0 ≤ i then taken[i.toNat]? else none

namespace Cells

/-- The first loop: the item at an index snaps to its cell. -/
def snap (c : Cells) (s : Layout) (i : ℕ) : Option Layout :=
  match s.allBounds[i]? with
  | none => none
  | some bounds =>
      let gridX := gridIndex c.cw c.maxX bounds.x
      let gridY := gridIndex c.ch c.maxY bounds.y
      let s := { s with
        allBounds := s.allBounds.set i { bounds with
          x := gridX * c.cw
          y := gridY * c.ch } }
      match flagAt s.taken (gridY * c.maxX + gridX) with
      | none => none
      | some true => some { s with resortIndexes := s.resortIndexes ++ [i] }
      | some false => some { s with taken := s.taken.set (gridY * c.maxX + gridX).toNat true }

/-- The search for a free flag: `n` flags from `t` on. -/
def freeFlag (taken : List Bool) : ℕ → ℕ → Option (Option ℕ)
  | 0, _ => some none
  | n + 1, t =>
      match taken[t]? with
      | none => none
      | some true => freeFlag taken n (t + 1)
      | some false => some (some t)

/-- The second loop: the item at an index gets the first cell that is free. -/
def resort (c : Cells) (s : Layout) (i : ℕ) : Option Layout :=
  match freeFlag s.taken (c.maxX * c.maxY).toNat 0, s.allBounds[i]? with
  | some none, some _ => some s
  | some (some t), some bounds => some { s with
      allBounds := s.allBounds.set i { bounds with
        x := t % c.maxX * c.cw
        y := t / c.maxX * c.ch }
      taken := s.taken.set t true }
  | _, _ => none

/-- How many flags there are. -/
def size (c : Cells) : ℤ := (c.maxX + 1) * (c.maxY + 1)

end Cells

/-- The new bounds of the items, undefined where the number of flags is no positive
`int`. -/
def ItemOrganizer.organize (o : ItemOrganizer) (items : List Rectangle) (background : Rectangle) :
    Option (List Rectangle) :=
  let c := o.cells background
  if 0 < c.size ∧ c.size < 2 ^ 31 then
    ((List.range items.length).foldlM c.snap ⟨items, List.replicate c.size.toNat false, []⟩).bind
      fun s => (s.resortIndexes.foldlM c.resort s).map Layout.allBounds
  else none

namespace Cells

def column (c : Cells) (b : Rectangle) : ℤ := gridIndex c.cw c.maxX b.x

def row (c : Cells) (b : Rectangle) : ℤ := gridIndex c.ch c.maxY b.y

/-- The number of the flag of the cell an item snaps to. -/
def flag (c : Cells) (b : Rectangle) : ℕ := (c.row b * c.maxX + c.column b).toNat

/-- An item in the cell it snaps to. -/
def snapped (c : Cells) (b : Rectangle) : Rectangle :=
  { b with
    x := c.column b * c.cw
    y := c.row b * c.ch }

/-- An item in the cell that a free flag stands for. -/
def inCell (c : Cells) (t : ℕ) (b : Rectangle) : Rectangle :=
  { b with
    x := t % c.maxX * c.cw
    y := t / c.maxX * c.ch }

/-- An item snaps to a flag that an earlier item has taken. -/
def Displaced (c : Cells) (items : List Rectangle) (i : ℕ) : Prop :=
  ∃ b, items[i]? = some b ∧ c.flag b ∈ (items.take i).map c.flag

instance (c : Cells) (items : List Rectangle) (i : ℕ) : Decidable (c.Displaced items i) :=
  match h : items[i]? with
  | none => isFalse fun ⟨b, hb, _⟩ => by rw [h] at hb; cases hb
  | some b => decidable_of_iff (c.flag b ∈ (items.take i).map c.flag) <| by
      constructor
      · intro hmem
        exact ⟨b, h, hmem⟩
      · rintro ⟨b', hb', hmem⟩
        rw [h] at hb'
        cases hb'
        exact hmem

/-- The displaced ones of the first `k` items. -/
def displaced (c : Cells) (items : List Rectangle) (k : ℕ) : List ℕ :=
  (List.range k).filter fun i => decide (c.Displaced items i)

/-- The flags of the cells that items snap to. -/
def flags (c : Cells) (items : List Rectangle) : Finset ℕ := (items.map c.flag).toFinset

/-- The grid has cells, and the background has more than one in each direction. -/
structure Valid (c : Cells) : Prop where
  cw : 0 < c.cw
  ch : 0 < c.ch
  maxX : 1 ≤ c.maxX
  maxY : 1 ≤ c.maxY

/-- The array of flags says which flags are taken. -/
def Marks (c : Cells) (array : List Bool) (taken : Finset ℕ) : Prop :=
  ∀ f, f < c.size.toNat → array[f]? = some (decide (f ∈ taken))

variable {c : Cells} {items : List Rectangle} {array : List Bool} {taken : Finset ℕ}
  {i j k t : ℕ} {a b : Rectangle} {s : Layout}

theorem gridIndex_bounds {maxIndex : ℤ} (h : 0 ≤ maxIndex) (cell v : ℤ) :
    0 ≤ gridIndex cell maxIndex v ∧ gridIndex cell maxIndex v ≤ maxIndex := by
  unfold gridIndex
  dsimp only
  split <;> split <;> omega

theorem Valid.column_bounds (h : c.Valid) (b : Rectangle) :
    0 ≤ c.column b ∧ c.column b ≤ c.maxX :=
  gridIndex_bounds (le_trans (by decide) h.maxX) _ _

theorem Valid.row_bounds (h : c.Valid) (b : Rectangle) : 0 ≤ c.row b ∧ c.row b ≤ c.maxY :=
  gridIndex_bounds (le_trans (by decide) h.maxY) _ _

theorem Valid.flag_cast (h : c.Valid) (b : Rectangle) :
    (c.flag b : ℤ) = c.row b * c.maxX + c.column b := by
  have hmul := Int.mul_nonneg (h.row_bounds b).1 (le_trans (by decide) h.maxX)
  have hcolumn := (h.column_bounds b).1
  exact Int.toNat_of_nonneg (by omega)

theorem Valid.flag_lt (h : c.Valid) (b : Rectangle) : c.flag b < c.size.toNat := by
  have hcast := h.flag_cast b
  have hcolumn := (h.column_bounds b).2
  have hX := h.maxX
  have hmul := Int.mul_le_mul_of_nonneg_right (h.row_bounds b).2 (le_trans (by decide) hX)
  have hY := h.maxY
  have hsize : c.size = c.maxY * c.maxX + c.maxX + c.maxY + 1 := by
    unfold size
    ring
  omega

/-- The flags that the second loop looks at are in the array. -/
theorem Valid.product_le_size (h : c.Valid) : (c.maxX * c.maxY).toNat ≤ c.size.toNat := by
  have hX := h.maxX
  have hY := h.maxY
  have hsize : c.size = c.maxX * c.maxY + c.maxX + c.maxY + 1 := by
    unfold size
    ring
  omega

theorem Valid.flagAt (h : c.Valid) (hmarks : c.Marks array taken) (b : Rectangle) :
    flagAt array (c.row b * c.maxX + c.column b) = some (decide (c.flag b ∈ taken)) := by
  have hcast := h.flag_cast b
  unfold Desktop.flagAt
  rw [if_pos (by omega)]
  exact hmarks (c.flag b) (h.flag_lt b)

theorem Marks.set (h : c.Marks array taken) (f : ℕ) :
    c.Marks (array.set f true) (insert f taken) := by
  intro g hg
  by_cases heq : f = g
  · subst heq
    have hlt : f < array.length := by
      by_contra hge
      have hnone := h f hg
      rw [List.getElem?_eq_none (Nat.le_of_not_lt hge)] at hnone
      cases hnone
    rw [List.getElem?_set_self hlt]
    exact congrArg some (decide_eq_true (Finset.mem_insert_self f taken)).symm
  · rw [List.getElem?_set_ne heq, h g hg]
    refine congrArg some (decide_eq_decide.mpr ?_)
    rw [Finset.mem_insert]
    exact (or_iff_right fun hgf => heq hgf.symm).symm

/-- The search finds the first number that is not taken. -/
theorem Marks.freeFlag (h : c.Marks array taken) (n t : ℕ) (hbound : t + n ≤ c.size.toNat) :
    freeFlag array n t = some ((List.range' t n).find? fun u => decide (u ∉ taken)) := by
  induction n generalizing t with
  | zero => rfl
  | succ n ih =>
    unfold Cells.freeFlag
    rw [h t (by omega), List.range'_succ, List.find?_cons]
    by_cases htaken : t ∈ taken
    · rw [decide_eq_true htaken, decide_eq_false (not_not.mpr htaken)]
      exact ih (t + 1) (by omega)
    · rw [decide_eq_false htaken, decide_eq_true htaken]

theorem Marks.firstFree (h : c.Marks array taken) (hvalid : c.Valid) :
    Cells.freeFlag array (c.maxX * c.maxY).toNat 0 =
      some (FirstFree.firstFree taken (c.maxX * c.maxY).toNat) := by
  rw [h.freeFlag _ 0 (by rw [Nat.zero_add]; exact hvalid.product_le_size)]
  unfold FirstFree.firstFree
  rw [List.range_eq_range']

theorem flags_take_succ (h : items[k]? = some b) :
    c.flags (items.take (k + 1)) = insert (c.flag b) (c.flags (items.take k)) := by
  unfold flags
  rw [List.take_add_one, h, Option.toList_some, List.map_append, List.map_singleton,
    List.toFinset_append]
  ext f
  simp [or_comm]

theorem displaced_succ (c : Cells) (items : List Rectangle) (k : ℕ) :
    c.displaced items (k + 1) =
      c.displaced items k ++ if c.Displaced items k then [k] else [] := by
  unfold displaced
  rw [List.range_succ, List.filter_append]
  by_cases h : c.Displaced items k
  · rw [if_pos h, List.filter_singleton, decide_eq_true h]
    rfl
  · rw [if_neg h, List.filter_singleton, decide_eq_false h]
    rfl

theorem displaced_iff (h : items[k]? = some b) :
    c.Displaced items k ↔ c.flag b ∈ c.flags (items.take k) := by
  unfold flags
  rw [List.mem_toFinset]
  constructor
  · rintro ⟨b', hb', hmem⟩
    rw [h] at hb'
    cases hb'
    exact hmem
  · intro hmem
    exact ⟨b, h, hmem⟩

/-- The first `k` items have snapped to their cells. -/
structure Snapped (c : Cells) (items : List Rectangle) (k : ℕ) (s : Layout) : Prop where
  allBounds : s.allBounds = (items.take k).map c.snapped ++ items.drop k
  marks : c.Marks s.taken (c.flags (items.take k))
  resortIndexes : s.resortIndexes = c.displaced items k
  count : (c.flags (items.take k)).card + (c.displaced items k).length = k

theorem set_snapped (h : items[k]? = some b) :
    ((items.take k).map c.snapped ++ items.drop k).set k (c.snapped b) =
      (items.take (k + 1)).map c.snapped ++ items.drop (k + 1) := by
  obtain ⟨hlt, hget⟩ := List.getElem?_eq_some_iff.mp h
  have hlength : ((items.take k).map c.snapped).length = k := by
    rw [List.length_map, List.length_take_of_le (Nat.le_of_lt hlt)]
  rw [List.set_append_right _ _ (Nat.le_of_eq hlength), hlength, Nat.sub_self,
    List.drop_eq_getElem_cons hlt, hget, List.set_cons_zero, List.take_add_one, h,
    Option.toList_some, List.map_append, List.map_singleton, List.append_assoc,
    List.singleton_append]

/-- One more item snaps. -/
theorem Snapped.snap (hvalid : c.Valid) (hs : c.Snapped items k s) (hb : items[k]? = some b) :
    ∃ t, c.snap s k = some t ∧ c.Snapped items (k + 1) t := by
  obtain ⟨hlt, _⟩ := List.getElem?_eq_some_iff.mp hb
  have hget : s.allBounds[k]? = some b := by
    have hlength : ((items.take k).map c.snapped).length = k := by
      rw [List.length_map, List.length_take_of_le (Nat.le_of_lt hlt)]
    rw [hs.allBounds, List.getElem?_append_right (Nat.le_of_eq hlength), hlength, Nat.sub_self,
      List.getElem?_drop, Nat.add_zero, hb]
  have hflags := flags_take_succ (c := c) hb
  have hnext := displaced_succ c items k
  have hcount := hs.count
  have hbounds : s.allBounds.set k (c.snapped b) =
      (items.take (k + 1)).map c.snapped ++ items.drop (k + 1) := by
    rw [hs.allBounds]
    exact set_snapped hb
  unfold Cells.snap
  rw [hget]
  dsimp only
  have hflag := hvalid.flagAt hs.marks b
  unfold row column at hflag
  rw [hflag]
  by_cases hdisplaced : c.Displaced items k
  · have hmem := (displaced_iff hb).mp hdisplaced
    rw [if_pos hdisplaced] at hnext
    rw [decide_eq_true hmem]
    refine ⟨_, rfl, hbounds, ?_, ?_, ?_⟩
    · rw [hflags, Finset.insert_eq_of_mem hmem]
      exact hs.marks
    · rw [hnext, ← hs.resortIndexes]
    · rw [hflags, Finset.insert_eq_of_mem hmem, hnext, List.length_append, List.length_singleton]
      omega
  · have hmem := mt (displaced_iff hb).mpr hdisplaced
    rw [if_neg hdisplaced, List.append_nil] at hnext
    rw [decide_eq_false hmem]
    refine ⟨_, rfl, hbounds, ?_, ?_, ?_⟩
    · rw [hflags]
      exact hs.marks.set (c.flag b)
    · rw [hnext]
      exact hs.resortIndexes
    · rw [hflags, Finset.card_insert_of_notMem hmem, hnext]
      omega

/-- After the first loop all items have snapped to their cells. -/
theorem Valid.snapAll (hvalid : c.Valid) (hk : k ≤ items.length) :
    ∃ s, (List.range k).foldlM c.snap ⟨items, List.replicate c.size.toNat false, []⟩ = some s ∧
      c.Snapped items k s := by
  induction k with
  | zero =>
    refine ⟨_, rfl, rfl, fun f hf => ?_, rfl, rfl⟩
    rw [List.getElem?_replicate_of_lt hf]
    rfl
  | succ k ih =>
    obtain ⟨s, hrun, hs⟩ := ih (Nat.le_of_succ_le hk)
    obtain ⟨t, ht, hsnapped⟩ := hs.snap hvalid (List.getElem?_eq_getElem hk)
    refine ⟨t, ?_, hsnapped⟩
    rw [List.range_succ, List.foldlM_append, hrun]
    change List.foldlM c.snap s [k] = some t
    rw [List.foldlM_cons, ht]
    rfl

end Cells

end Heartix.Desktop
