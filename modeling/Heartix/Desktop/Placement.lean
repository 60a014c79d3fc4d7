import Heartix.Desktop.ItemOrganizer

/-!
Where the organizer puts the items. An item that is not displaced is in the cell it
snaps to, a displaced one in the cell of a free flag. All flags are then different,
and so are the cells, but an item can be displaced from a cell that no other item
snaps to.
-/

namespace Heartix.Desktop

open FirstFree

namespace Cells

/-- How many cells the second loop can give out. -/
def capacity (c : Cells) : ℕ := (c.maxX * c.maxY).toNat

/-- The free flag that a displaced item gets. -/
def seat (c : Cells) (items : List Rectangle) (i : ℕ) : Option ℕ :=
  (seats c.capacity (c.flags items) (c.displaced items items.length).length)[
    (c.displaced items i).length]?.join

def seated (c : Cells) (b : Rectangle) : Option ℕ → Rectangle
  | none => b
  | some t => c.inCell t b

/-- An item is in the cell of a column and a row. -/
structure In (c : Cells) (b : Rectangle) (column row : ℤ) : Prop where
  column_bounds : 0 ≤ column ∧ column ≤ c.maxX
  row_bounds : 0 ≤ row ∧ row ≤ c.maxY
  x : b.x = column * c.cw
  y : b.y = row * c.ch

/-- Where an item ends up. -/
def placed (c : Cells) (items : List Rectangle) (i : ℕ) (b : Rectangle) : Rectangle :=
  if c.Displaced items i then c.seated (c.snapped b) (c.seat items i) else c.snapped b

variable {c : Cells} {items : List Rectangle} {taken : Finset ℕ} {indexes : List ℕ}
  {i j k r t : ℕ} {a b : Rectangle} {s : Layout}

theorem placed_of_not (h : ¬ c.Displaced items i) : c.placed items i b = c.snapped b := if_neg h

/-- A round of the second loop gives its item the first free place. -/
theorem Valid.resort (hvalid : c.Valid) (hmarks : c.Marks s.taken taken)
    (hb : s.allBounds[k]? = some b) (n : ℕ) :
    ∃ u taken', c.resort s k = some u ∧ u.allBounds.length = s.allBounds.length ∧
      (∀ i, i ≠ k → u.allBounds[i]? = s.allBounds[i]?) ∧
      u.allBounds[k]? = some (c.seated b (firstFree taken c.capacity)) ∧
      c.Marks u.taken taken' ∧
      seats c.capacity taken (n + 1) =
        firstFree taken c.capacity :: seats c.capacity taken' n := by
  obtain ⟨hlt, _⟩ := List.getElem?_eq_some_iff.mp hb
  unfold Cells.resort
  rw [hmarks.firstFree hvalid, hb, show (c.maxX * c.maxY).toNat = c.capacity from rfl]
  cases hplace : firstFree taken c.capacity with
  | none =>
    refine ⟨s, taken, rfl, rfl, fun i _ => rfl, hb, hmarks, ?_⟩
    rw [seats, hplace]
  | some t =>
    refine ⟨_, insert t taken, rfl, List.length_set, fun i hi => ?_, ?_, hmarks.set t, ?_⟩
    · exact List.getElem?_set_ne hi.symm
    · exact List.getElem?_set_self hlt
    · rw [seats, hplace]

/-- The second loop puts each of its items into the cell of its place. -/
theorem Valid.resortAll (hvalid : c.Valid) (hmarks : c.Marks s.taken taken)
    (hnodup : indexes.Nodup) (hbounds : ∀ i ∈ indexes, i < s.allBounds.length) :
    ∃ t, indexes.foldlM c.resort s = some t ∧ t.allBounds.length = s.allBounds.length ∧
      (∀ i, i ∉ indexes → t.allBounds[i]? = s.allBounds[i]?) ∧
      ∀ (r i : ℕ) b place, indexes[r]? = some i → s.allBounds[i]? = some b →
        (seats c.capacity taken indexes.length)[r]? = some place →
        t.allBounds[i]? = some (c.seated b place) := by
  induction indexes generalizing s taken with
  | nil =>
    refine ⟨s, rfl, rfl, fun i _ => rfl, fun r i b place hr => ?_⟩
    cases hr
  | cons k indexes ih =>
    obtain ⟨hk, hrest⟩ := List.nodup_cons.mp hnodup
    have hlt := hbounds k List.mem_cons_self
    obtain ⟨b, hb⟩ : ∃ b, s.allBounds[k]? = some b := ⟨_, List.getElem?_eq_getElem hlt⟩
    obtain ⟨u, taken', hstep, hlength, hother, hself, hmarks', hseats⟩ :=
      hvalid.resort hmarks hb indexes.length
    obtain ⟨t, hrun, hlength', hother', hplaced⟩ := ih hmarks' hrest fun i hi => by
      rw [hlength]
      exact hbounds i (List.mem_cons_of_mem k hi)
    refine ⟨t, ?_, hlength'.trans hlength, fun i hi => ?_, fun r i b' place hr hb' hplace => ?_⟩
    · rw [List.foldlM_cons, hstep]
      exact hrun
    · rw [hother' i fun hmem => hi (List.mem_cons_of_mem k hmem),
        hother i fun heq => hi (heq ▸ List.mem_cons_self)]
    · rw [List.length_cons, hseats] at hplace
      cases r with
      | zero =>
        cases hr
        cases hplace
        rw [hb] at hb'
        cases hb'
        rw [hother' k hk, hself]
      | succ r =>
        have hi : i ≠ k := by
          rintro rfl
          exact hk (List.mem_of_getElem? hr)
        exact hplaced r i b' place hr (by rw [hother i hi, hb']) hplace

theorem mem_displaced_iff : i ∈ c.displaced items k ↔ i < k ∧ c.Displaced items i := by
  unfold displaced
  rw [List.mem_filter, List.mem_range, decide_eq_true_iff]

theorem nodup_displaced (c : Cells) (items : List Rectangle) (k : ℕ) :
    (c.displaced items k).Nodup := List.nodup_range.filter _

/-- An item has the place in the list of displaced ones that those before it leave. -/
theorem getElem?_displaced (hlt : i < k) (h : c.Displaced items i) :
    (c.displaced items k)[(c.displaced items i).length]? = some i := by
  induction k with
  | zero => cases hlt
  | succ k ih =>
    rw [displaced_succ]
    rcases Nat.lt_succ_iff_lt_or_eq.mp hlt with hlt | rfl
    · have hget := ih hlt
      rw [List.getElem?_append_left (List.getElem?_eq_some_iff.mp hget).1]
      exact hget
    · rw [if_pos h, List.getElem?_append_right (Nat.le_refl _), Nat.sub_self]
      rfl

/-- Among the displaced items, the later ones come later. -/
theorem length_displaced_lt (hij : i < j) (h : c.Displaced items i) :
    (c.displaced items i).length < (c.displaced items j).length :=
  (List.getElem?_eq_some_iff.mp (getElem?_displaced hij h)).1

/-- The place of a displaced item, among all that are given out. -/
theorem seat_spec (hlt : i < items.length) (h : c.Displaced items i) :
    (seats c.capacity (c.flags items) (c.displaced items items.length).length)[
      (c.displaced items i).length]? = some (c.seat items i) := by
  have hr : (c.displaced items i).length <
      (seats c.capacity (c.flags items) (c.displaced items items.length).length).length := by
    rw [length_seats]
    exact length_displaced_lt hlt h
  unfold seat
  rw [List.getElem?_eq_getElem hr]
  rfl

end Cells

open Cells

variable {o : ItemOrganizer} {items after : List Rectangle} {background : Rectangle}
  {i j t : ℕ} {a b : Rectangle}

/-- The centre of the cell that an item snaps to is an `int`. -/
def Cells.Centred (c : Cells) (b : Rectangle) : Prop :=
  c.column b * c.cw + c.cw.tdiv 2 < 2 ^ 31 ∧ c.row b * c.ch + c.ch.tdiv 2 < 2 ^ 31

/-- No other item snaps to the cell of the item at an index. -/
def Cells.Uncontested (c : Cells) (items : List Rectangle) (i : ℕ) : Prop :=
  ∀ (j : ℕ) a b, j ≠ i → items[j]? = some a → items[i]? = some b →
    (c.column a, c.row a) ≠ (c.column b, c.row b)

/-- The items are in different cells, and they stay there when they are organized
again. -/
def ItemOrganizer.Organizes (o : ItemOrganizer) (items : List Rectangle)
    (background : Rectangle) : Prop :=
  ∃ after, o.organize items background = some after ∧ after.length = items.length ∧
    (∀ (i j : ℕ) (a b : Rectangle), after[i]? = some a → after[j]? = some b →
      (a.x, a.y) = (b.x, b.y) → i = j) ∧
    (∀ b ∈ after, ∃ column row, (o.cells background).In b column row) ∧
    o.organize after background = some after

/-- Each item that has its cell for itself is put into it. -/
def ItemOrganizer.KeepsUncontested (o : ItemOrganizer) (items : List Rectangle)
    (background : Rectangle) : Prop :=
  ∃ after, o.organize items background = some after ∧
    ∀ i b, items[i]? = some b → (o.cells background).Uncontested items i →
      after[i]? = some ((o.cells background).snapped b)

/-- What the organizer needs of the background: more than one cell in each direction. -/
def ItemOrganizer.HasCells (o : ItemOrganizer) (background : Rectangle) : Prop :=
  1 ≤ (o.cells background).maxX ∧ 1 ≤ (o.cells background).maxY

theorem ItemOrganizer.HasCells.valid (h : o.HasCells background) : (o.cells background).Valid :=
  ⟨o.width_int.1, o.height_int.1, h.1, h.2⟩

/-- All items, each where it ends up. -/
theorem ItemOrganizer.HasCells.organize (h : o.HasCells background)
    (hsize : (o.cells background).size < 2 ^ 31) :
    o.organize items background = some (items.mapIdx ((o.cells background).placed items)) := by
  have hvalid := h.valid
  have hpos : 0 < (o.cells background).size := by
    have hX := h.1
    have hY := h.2
    exact Int.mul_pos (by omega) (by omega)
  obtain ⟨s, hsnap, hs⟩ := hvalid.snapAll (Nat.le_refl items.length)
  generalize hc : o.cells background = c at *
  have hallBounds := hs.allBounds
  have hmarks := hs.marks
  rw [List.take_length, List.drop_length, List.append_nil] at hallBounds
  rw [List.take_length] at hmarks
  obtain ⟨t, hresort, hlength, hkept, hplaced⟩ := hvalid.resortAll hmarks
    (nodup_displaced c items items.length) fun i hi => by
      rw [hallBounds, List.length_map]
      exact (mem_displaced_iff.mp hi).1
  unfold ItemOrganizer.organize
  dsimp only
  rw [hc, if_pos ⟨hpos, hsize⟩, hsnap]
  change Option.map Layout.allBounds (s.resortIndexes.foldlM c.resort s) = _
  rw [hs.resortIndexes, hresort]
  refine congrArg some (List.ext_getElem? fun i => ?_)
  rw [List.getElem?_mapIdx]
  by_cases hlt : i < items.length
  · have hb := List.getElem?_eq_getElem hlt
    have hsnapped : s.allBounds[i]? = some (c.snapped items[i]) := by
      rw [hallBounds, List.getElem?_map, hb]
      rfl
    rw [hb]
    change t.allBounds[i]? = some (c.placed items i items[i])
    unfold placed
    by_cases hdisplaced : c.Displaced items i
    · rw [if_pos hdisplaced]
      exact hplaced _ i _ _ (getElem?_displaced hlt hdisplaced) hsnapped
        (seat_spec hlt hdisplaced)
    · rw [if_neg hdisplaced, hkept i (fun hmem => hdisplaced (mem_displaced_iff.mp hmem).2)]
      exact hsnapped
  · have hge := Nat.le_of_not_lt hlt
    rw [List.getElem?_eq_none hge, List.getElem?_eq_none]
    · rfl
    · rw [hlength, hallBounds, List.length_map]
      exact hge

theorem ItemOrganizer.organize_of_size (h : ¬ (o.cells background).size < 2 ^ 31)
    (items : List Rectangle) : o.organize items background = none := by
  unfold ItemOrganizer.organize
  exact if_neg fun hsize => h hsize.2

namespace Cells

variable {c : Cells}

theorem Valid.in_snapped (hvalid : c.Valid) (b : Rectangle) :
    c.In (c.snapped b) (c.column b) (c.row b) :=
  ⟨hvalid.column_bounds b, hvalid.row_bounds b, rfl, rfl⟩

/-- A free flag stands for a cell that is not in the last column or row. -/
theorem Valid.in_inCell (hvalid : c.Valid) (ht : t < c.capacity) (b : Rectangle) :
    c.In (c.inCell t b) (t % c.maxX) (t / c.maxX) ∧
      (t : ℤ) % c.maxX < c.maxX ∧ (t : ℤ) / c.maxX < c.maxY := by
  have hX : 0 < c.maxX := hvalid.maxX
  have hmod := Int.emod_lt_of_pos t hX
  have hdiv : (t : ℤ) / c.maxX < c.maxY := by
    apply Int.ediv_lt_of_lt_mul hX
    unfold capacity at ht
    rw [Int.mul_comm]
    omega
  refine ⟨⟨⟨Int.emod_nonneg t (by omega), Int.le_of_lt hmod⟩,
    ⟨Int.ediv_nonneg (by omega) (Int.le_of_lt hX), Int.le_of_lt hdiv⟩, rfl, rfl⟩, hmod, hdiv⟩

/-- The flag of the cell an item ends up in. -/
def number (c : Cells) (items : List Rectangle) (i : ℕ) (b : Rectangle) : ℕ :=
  if c.Displaced items i then (c.seat items i).getD (c.flag b) else c.flag b

theorem seat_free (hlt : i < items.length) (h : c.Displaced items i)
    (hseat : c.seat items i = some t) : t < c.capacity ∧ t ∉ c.flags items := by
  have hspec := seat_spec hlt h
  rw [hseat] at hspec
  exact seats_free hspec

/-- An item ends up in the cell of its number. -/
theorem Valid.in_placed (hvalid : c.Valid) (hb : items[i]? = some b) :
    ∃ column row, c.In (c.placed items i b) column row ∧
      (c.number items i b : ℤ) = row * c.maxX + column ∧
      (c.placed items i b = c.snapped b ∧ column = c.column b ∧ row = c.row b ∨
        c.Displaced items i ∧ column < c.maxX ∧ row < c.maxY) := by
  obtain ⟨hlt, _⟩ := List.getElem?_eq_some_iff.mp hb
  unfold placed number
  by_cases hdisplaced : c.Displaced items i
  · rw [if_pos hdisplaced, if_pos hdisplaced]
    cases hseat : c.seat items i with
    | none =>
      exact ⟨_, _, hvalid.in_snapped b, hvalid.flag_cast b, Or.inl ⟨rfl, rfl, rfl⟩⟩
    | some t =>
      obtain ⟨ht, _⟩ := seat_free hlt hdisplaced hseat
      obtain ⟨hin, hcolumn, hrow⟩ := hvalid.in_inCell ht (c.snapped b)
      refine ⟨_, _, hin, ?_, Or.inr ⟨hdisplaced, hcolumn, hrow⟩⟩
      rw [Int.mul_comm]
      exact (Int.mul_ediv_add_emod t c.maxX).symm
  · rw [if_neg hdisplaced, if_neg hdisplaced]
    exact ⟨_, _, hvalid.in_snapped b, hvalid.flag_cast b, Or.inl ⟨rfl, rfl, rfl⟩⟩

theorem flag_mem_flags (hb : items[i]? = some b) : c.flag b ∈ c.flags items := by
  unfold flags
  rw [List.mem_toFinset]
  exact List.mem_map_of_mem (List.mem_of_getElem? hb)

/-- Of two items with one flag, the later one is displaced. -/
theorem displaced_of_flag_eq (hij : i < j) (ha : items[i]? = some a) (hb : items[j]? = some b)
    (h : c.flag a = c.flag b) : c.Displaced items j := by
  refine ⟨b, hb, ?_⟩
  rw [← h]
  apply List.mem_map_of_mem
  apply List.mem_of_getElem? (i := i)
  rw [List.getElem?_take_of_lt hij]
  exact ha

/-- With as many cells as items, every displaced item gets one. -/
theorem exists_seat (hvalid : c.Valid) (hcount : items.length ≤ c.capacity)
    (hlt : i < items.length) (h : c.Displaced items i) : ∃ t, c.seat items i = some t := by
  obtain ⟨s, _, hs⟩ := hvalid.snapAll (Nat.le_refl items.length)
  have hsum := hs.count
  rw [List.take_length] at hsum
  have hoccupied := occupied_le_card (c.flags items) c.capacity
  obtain ⟨t, ht⟩ := FirstFree.exists_seat (length_displaced_lt hlt h)
    (show occupied (c.flags items) c.capacity + (c.displaced items items.length).length ≤
      c.capacity by omega)
  rw [seat_spec hlt h] at ht
  exact ⟨t, Option.some.inj ht⟩

/-- Different items have different numbers. -/
theorem Valid.number_injective (hvalid : c.Valid) (hcount : items.length ≤ c.capacity)
    (hij : i < j) (ha : items[i]? = some a) (hb : items[j]? = some b) :
    c.number items i a ≠ c.number items j b := by
  obtain ⟨hi, _⟩ := List.getElem?_eq_some_iff.mp ha
  obtain ⟨hj, _⟩ := List.getElem?_eq_some_iff.mp hb
  unfold number
  by_cases hdi : c.Displaced items i
  · obtain ⟨t, ht⟩ := exists_seat hvalid hcount hi hdi
    rw [if_pos hdi, ht, Option.getD_some]
    by_cases hdj : c.Displaced items j
    · obtain ⟨u, hu⟩ := exists_seat hvalid hcount hj hdj
      rw [if_pos hdj, hu, Option.getD_some]
      rintro rfl
      have hsi := seat_spec hi hdi
      have hsj := seat_spec hj hdj
      rw [ht] at hsi
      rw [hu] at hsj
      have hsame := seats_injective hsi hsj
      have hlater := length_displaced_lt hij hdi
      omega
    · rw [if_neg hdj]
      rintro rfl
      exact (seat_free hi hdi ht).2 (flag_mem_flags hb)
  · rw [if_neg hdi]
    by_cases hdj : c.Displaced items j
    · obtain ⟨u, hu⟩ := exists_seat hvalid hcount hj hdj
      rw [if_pos hdj, hu, Option.getD_some]
      rintro rfl
      exact (seat_free hj hdj hu).2 (flag_mem_flags ha)
    · rw [if_neg hdj]
      exact fun heq => hdj (displaced_of_flag_eq hij ha hb heq)

/-- The cell of an item can be read off its position. -/
theorem Valid.in_unique (hvalid : c.Valid) {column row column' row' : ℤ}
    (h : c.In a column row) (h' : c.In b column' row') (hposition : (a.x, a.y) = (b.x, b.y)) :
    column = column' ∧ row = row' := by
  obtain ⟨hx, hy⟩ := Prod.mk.inj hposition
  rw [h.x, h'.x] at hx
  rw [h.y, h'.y] at hy
  have hcw := hvalid.cw
  have hch := hvalid.ch
  exact ⟨Int.eq_of_mul_eq_mul_right (by omega) hx, Int.eq_of_mul_eq_mul_right (by omega) hy⟩

/-- The first coordinate of a cell snaps to the cell, if the centre is an `int`. -/
theorem gridIndex_cell {cell maxIndex n : ℤ} (hcell : 0 < cell) (hn : 0 ≤ n ∧ n ≤ maxIndex)
    (hcentre : n * cell + cell.tdiv 2 < 2 ^ 31) : gridIndex cell maxIndex (n * cell) = n := by
  have hmul := Int.mul_nonneg hn.1 (Int.le_of_lt hcell)
  have hhalf : 0 ≤ cell.tdiv 2 ∧ cell.tdiv 2 < cell := by
    rw [Int.tdiv_eq_ediv_of_nonneg (Int.le_of_lt hcell)]
    omega
  have hbmod : (n * cell + cell.tdiv 2).bmod (2 ^ 32) = n * cell + cell.tdiv 2 :=
    Int.bmod_eq_of_le (by omega) (by omega)
  have hdiv : (n * cell + cell.tdiv 2).tdiv cell = n := by
    rw [Int.tdiv_eq_ediv_of_nonneg (by omega), Int.add_comm,
      Int.add_mul_ediv_right _ _ (by omega), Int.ediv_eq_zero_of_lt hhalf.1 hhalf.2,
      Int.zero_add]
  unfold gridIndex
  dsimp only
  rw [hbmod, hdiv, if_neg (Int.not_lt.mpr hn.1), if_neg (Int.not_lt.mpr hn.2)]

/-- It snaps to an earlier cell, if the centre is no `int`. -/
theorem gridIndex_lt {cell m n : ℤ} (hcell : 0 < cell ∧ cell < 2 ^ 31) (hn : 0 ≤ n)
    (hcentre : ¬ n * cell + cell.tdiv 2 < 2 ^ 31) : gridIndex cell m (n * cell) < n := by
  have hhalf : cell.tdiv 2 < 2 ^ 31 := by
    rw [Int.tdiv_eq_ediv_of_nonneg (Int.le_of_lt hcell.1)]
    omega
  have hpos : 0 < n := by
    rcases Int.lt_or_eq_of_le hn with hlt | rfl
    · exact hlt
    · rw [Int.zero_mul] at hcentre
      omega
  have hbmod : (n * cell + cell.tdiv 2).bmod (2 ^ 32) < n * cell := by
    have hdecompose := Int.bmod_add_bdiv (n * cell + cell.tdiv 2) (2 ^ 32)
    have hbound := Int.bmod_lt (x := n * cell + cell.tdiv 2) (m := 2 ^ 32) (by decide)
    omega
  have hdiv : ((n * cell + cell.tdiv 2).bmod (2 ^ 32)).tdiv cell < n := by
    rcases Int.lt_or_le ((n * cell + cell.tdiv 2).bmod (2 ^ 32)) 0 with hneg | hnonneg
    · have hle := Int.tdiv_nonneg (a := -(n * cell + cell.tdiv 2).bmod (2 ^ 32))
        (by omega) (Int.le_of_lt hcell.1)
      rw [Int.neg_tdiv] at hle
      omega
    · rw [Int.tdiv_eq_ediv_of_nonneg hnonneg]
      exact Int.ediv_lt_of_lt_mul hcell.1 hbmod
  unfold gridIndex
  dsimp only
  split <;> split <;> omega

/-- The cell of an item that is in the middle of the `int` range is the one it
snaps to. -/
theorem Valid.snapped_of_in (hvalid : c.Valid) {column row : ℤ} (h : c.In b column row)
    (hcentre : column * c.cw + c.cw.tdiv 2 < 2 ^ 31 ∧ row * c.ch + c.ch.tdiv 2 < 2 ^ 31) :
    c.column b = column ∧ c.row b = row ∧ c.snapped b = b := by
  have hcolumn : c.column b = column := by
    unfold Cells.column
    rw [h.x]
    exact gridIndex_cell hvalid.cw h.column_bounds hcentre.1
  have hrow : c.row b = row := by
    unfold Cells.row
    rw [h.y]
    exact gridIndex_cell hvalid.ch h.row_bounds hcentre.2
  refine ⟨hcolumn, hrow, ?_⟩
  unfold snapped
  rw [hcolumn, hrow, ← h.x, ← h.y]

/-- Before the last cell of a side, the centre is inside the side. -/
theorem centre_lt {cell maxIndex n : ℤ} (hcell : 0 < cell) (hn : n < maxIndex)
    (hside : maxIndex * cell < 2 ^ 31) : n * cell + cell.tdiv 2 < 2 ^ 31 := by
  have hhalf : cell.tdiv 2 < cell := by
    rw [Int.tdiv_eq_ediv_of_nonneg (Int.le_of_lt hcell)]
    omega
  have hmul := Int.mul_le_mul_of_nonneg_right (show n + 1 ≤ maxIndex by omega)
    (Int.le_of_lt hcell)
  rw [Int.add_mul, Int.one_mul] at hmul
  omega

/-- The items stay where they are when they are organized again. -/
theorem Valid.placed_again (hvalid : c.Valid) (hcount : items.length ≤ c.capacity)
    (hside : c.maxX * c.cw < 2 ^ 31 ∧ c.maxY * c.ch < 2 ^ 31)
    (hcentred : ∀ (i : ℕ) b, items[i]? = some b → ¬ c.Displaced items i → c.Centred b) :
    (items.mapIdx (c.placed items)).mapIdx (c.placed (items.mapIdx (c.placed items))) =
      items.mapIdx (c.placed items) := by
  have hcell (i : ℕ) (b : Rectangle) (hb : items[i]? = some b) :
      c.flag (c.placed items i b) = c.number items i b ∧
        c.snapped (c.placed items i b) = c.placed items i b := by
    obtain ⟨column, row, hin, hnumber, hor⟩ := hvalid.in_placed hb
    have hcentre : column * c.cw + c.cw.tdiv 2 < 2 ^ 31 ∧ row * c.ch + c.ch.tdiv 2 < 2 ^ 31 := by
      rcases hor with ⟨hplaced, rfl, rfl⟩ | ⟨_, hcolumn, hrow⟩
      · by_cases hdisplaced : c.Displaced items i
        · obtain ⟨hlt, _⟩ := List.getElem?_eq_some_iff.mp hb
          obtain ⟨t, ht⟩ := exists_seat hvalid hcount hlt hdisplaced
          have hinCell : c.placed items i b = c.inCell t (c.snapped b) := by
            unfold placed
            rw [if_pos hdisplaced, ht]
            rfl
          obtain ⟨hin', hcolumn, hrow⟩ :=
            hvalid.in_inCell (seat_free hlt hdisplaced ht).1 (c.snapped b)
          rw [← hinCell] at hin'
          obtain ⟨hx, hy⟩ := hvalid.in_unique hin hin' rfl
          rw [← hx] at hcolumn
          rw [← hy] at hrow
          exact ⟨centre_lt hvalid.cw hcolumn hside.1, centre_lt hvalid.ch hrow hside.2⟩
        · exact hcentred i b hb hdisplaced
      · exact ⟨centre_lt hvalid.cw hcolumn hside.1, centre_lt hvalid.ch hrow hside.2⟩
    obtain ⟨hcolumn, hrow, hsnapped⟩ := hvalid.snapped_of_in hin hcentre
    refine ⟨?_, hsnapped⟩
    have hcast := hvalid.flag_cast (c.placed items i b)
    rw [hcolumn, hrow, ← hnumber] at hcast
    omega
  apply List.ext_getElem?
  intro i
  rw [List.getElem?_mapIdx]
  cases hb : items[i]? with
  | none =>
    rw [List.getElem?_mapIdx, hb]
    rfl
  | some b =>
    have hafter : (items.mapIdx (c.placed items))[i]? = some (c.placed items i b) := by
      rw [List.getElem?_mapIdx, hb]
      rfl
    rw [hafter]
    refine congrArg some ((placed_of_not ?_).trans (hcell i b hb).2)
    · rintro ⟨a, ha, hmem⟩
      rw [hafter] at ha
      obtain rfl := Option.some.inj ha
      obtain ⟨d, hd, hflag⟩ := List.mem_map.mp hmem
      obtain ⟨j, hj⟩ := List.mem_iff_getElem?.mp hd
      have hji : j < i := by
        have hlt := (List.getElem?_eq_some_iff.mp hj).1
        rw [List.length_take] at hlt
        omega
      rw [List.getElem?_take_of_lt hji, List.getElem?_mapIdx] at hj
      obtain ⟨e, he, rfl⟩ := Option.map_eq_some_iff.mp hj
      rw [(hcell j e he).1, (hcell i b hb).1] at hflag
      exact hvalid.number_injective hcount hji he hb hflag

/-- An item whose centre is no `int` moves when it is organized again. -/
theorem Valid.centred_of_placed_again (hvalid : c.Valid) (hcw : c.cw < 2 ^ 31)
    (hch : c.ch < 2 ^ 31) (hside : c.maxX * c.cw < 2 ^ 31 ∧ c.maxY * c.ch < 2 ^ 31)
    (hb : items[i]? = some (c.snapped b)) (hplaced : c.placed items i (c.snapped b) = c.snapped b) :
    c.Centred b := by
  have hin := hvalid.in_snapped b
  obtain ⟨column, row, hin', _, hor⟩ := hvalid.in_placed hb
  rw [hplaced] at hin'
  obtain ⟨hcolumn, hrow⟩ := hvalid.in_unique hin hin' rfl
  rcases hor with ⟨_, hx, hy⟩ | ⟨_, hx, hy⟩
  · have hsame : c.column b = gridIndex c.cw c.maxX (c.column b * c.cw) := hcolumn.trans hx
    have hsame' : c.row b = gridIndex c.ch c.maxY (c.row b * c.ch) := hrow.trans hy
    constructor
    · by_contra hcentre
      have hlt := gridIndex_lt (m := c.maxX) ⟨hvalid.cw, hcw⟩ hin.column_bounds.1 hcentre
      omega
    · by_contra hcentre
      have hlt := gridIndex_lt (m := c.maxY) ⟨hvalid.ch, hch⟩ hin.row_bounds.1 hcentre
      omega
  · rw [← hcolumn] at hx
    rw [← hrow] at hy
    exact ⟨centre_lt hvalid.cw hx hside.1, centre_lt hvalid.ch hy hside.2⟩

end Cells

/-- The last cell of a side begins inside it. -/
theorem maxIndex_mul_le {extent cell : ℤ} (hcell : 0 < cell) (h : 1 ≤ maxIndex extent cell) :
    maxIndex extent cell * cell ≤ extent := by
  have hdecompose := Int.tdiv_mul_add_tmod extent cell
  have hle : maxIndex extent cell ≤ extent.tdiv cell := by
    unfold maxIndex
    split <;> omega
  have hmul := Int.mul_le_mul_of_nonneg_right hle (Int.le_of_lt hcell)
  have hnonneg : 0 ≤ extent := by
    by_contra hneg
    have hquotient := Int.tdiv_nonneg (a := -extent) (by omega) (Int.le_of_lt hcell)
    rw [Int.neg_tdiv] at hquotient
    omega
  have hmod := Int.tmod_nonneg cell hnonneg
  omega

/-- The organizer puts all items into different cells and would leave them there,
exactly if the flags can be counted in an `int` and no item that keeps its cell is
in one whose centre is no `int`. -/
theorem ItemOrganizer.organizes_iff (o : ItemOrganizer) (items : List Rectangle)
    (background : Rectangle) (hint : background.width < 2 ^ 31 ∧ background.height < 2 ^ 31)
    (hcells : o.HasCells background)
    (hcount : (items.length : ℤ) ≤
      (o.cells background).maxX * (o.cells background).maxY) :
    o.Organizes items background ↔
      (o.cells background).size < 2 ^ 31 ∧ ∀ (i : ℕ) b, items[i]? = some b →
        ¬ (o.cells background).Displaced items i → (o.cells background).Centred b := by
  have hvalid := hcells.valid
  have hside : (o.cells background).maxX * (o.cells background).cw < 2 ^ 31 ∧
      (o.cells background).maxY * (o.cells background).ch < 2 ^ 31 :=
    ⟨lt_of_le_of_lt (maxIndex_mul_le o.width_int.1 hcells.1) hint.1,
      lt_of_le_of_lt (maxIndex_mul_le o.height_int.1 hcells.2) hint.2⟩
  have hcapacity : items.length ≤ (o.cells background).capacity := by
    unfold capacity
    omega
  constructor
  · rintro ⟨after, horganize, _, _, _, hagain⟩
    have hsize : (o.cells background).size < 2 ^ 31 := by
      by_contra hsize
      rw [o.organize_of_size hsize] at horganize
      cases horganize
    refine ⟨hsize, fun i b hb hkept => ?_⟩
    rw [hcells.organize hsize] at horganize hagain
    obtain rfl := Option.some.inj horganize
    have hplaced : (items.mapIdx ((o.cells background).placed items))[i]? =
        some ((o.cells background).snapped b) := by
      rw [List.getElem?_mapIdx, hb]
      exact congrArg some (placed_of_not hkept)
    have hsame := List.ext_getElem?_iff.mp (Option.some.inj hagain) i
    rw [List.getElem?_mapIdx, hplaced] at hsame
    exact hvalid.centred_of_placed_again o.width_int.2 o.height_int.2 hside hplaced
      (Option.some.inj hsame)
  · rintro ⟨hsize, hcentred⟩
    have hget (i : ℕ) (a : Rectangle)
        (ha : (items.mapIdx ((o.cells background).placed items))[i]? = some a) :
        ∃ b, items[i]? = some b ∧ (o.cells background).placed items i b = a := by
      rw [List.getElem?_mapIdx] at ha
      exact Option.map_eq_some_iff.mp ha
    refine ⟨_, hcells.organize hsize, List.length_mapIdx, fun i j a b ha hb hposition => ?_,
      fun a ha => ?_, ?_⟩
    · obtain ⟨a, hia, rfl⟩ := hget i a ha
      obtain ⟨b, hjb, rfl⟩ := hget j b hb
      obtain ⟨column, row, hin, hnumber, _⟩ := hvalid.in_placed hia
      obtain ⟨column', row', hin', hnumber', _⟩ := hvalid.in_placed hjb
      obtain ⟨rfl, rfl⟩ := hvalid.in_unique hin hin' hposition
      have hsame : (o.cells background).number items i a =
          (o.cells background).number items j b := by omega
      rcases Nat.lt_trichotomy i j with hij | hij | hij
      · exact absurd hsame (hvalid.number_injective hcapacity hij hia hjb)
      · exact hij
      · exact absurd hsame.symm (hvalid.number_injective hcapacity hij hjb hia)
    · obtain ⟨i, hi⟩ := List.mem_iff_getElem?.mp ha
      obtain ⟨b, hb, rfl⟩ := hget i a hi
      obtain ⟨column, row, hin, _⟩ := hvalid.in_placed hb
      exact ⟨column, row, hin⟩
    · rw [hcells.organize hsize]
      exact congrArg some (hvalid.placed_again hcapacity hside hcentred)

/-- Four items on a background with two columns and three rows to give out. -/
theorem ItemOrganizer.organizes_iff_icons :
    ItemOrganizer.ofBackground.Organizes
        [⟨0, 0, 100, 100⟩, ⟨30, -20, 100, 100⟩, ⟨900, 60, 100, 100⟩] ⟨0, 0, 200, 300⟩ ↔
      (ItemOrganizer.ofBackground.cells ⟨0, 0, 200, 300⟩).size < 2 ^ 31 ∧ ∀ (i : ℕ) b,
        [⟨0, 0, 100, 100⟩, ⟨30, -20, 100, 100⟩, ⟨900, 60, 100, 100⟩][i]? = some b →
          ¬ (ItemOrganizer.ofBackground.cells ⟨0, 0, 200, 300⟩).Displaced
            [⟨0, 0, 100, 100⟩, ⟨30, -20, 100, 100⟩, ⟨900, 60, 100, 100⟩] i →
          (ItemOrganizer.ofBackground.cells ⟨0, 0, 200, 300⟩).Centred b :=
  ItemOrganizer.organizes_iff _ _ _ (by decide) ⟨by decide, by decide⟩ (by decide)

/-- A background on which the flags are too many for an `int`. -/
theorem ItemOrganizer.organizes_too_large :
    ¬ ∀ (o : ItemOrganizer) (items : List Rectangle) (background : Rectangle),
      background.width < 2 ^ 31 ∧ background.height < 2 ^ 31 → o.HasCells background →
      (items.length : ℤ) ≤ (o.cells background).maxX * (o.cells background).maxY →
      o.Organizes items background := by
  intro h
  obtain ⟨after, horganize, _⟩ := h .ofBackground [] ⟨0, 0, 2 ^ 31 - 1, 2 ^ 31 - 1⟩
    (by decide) ⟨by decide, by decide⟩ (by decide)
  rw [ItemOrganizer.organize_of_size (by decide)] at horganize
  cases horganize

/-- The items that have their cells for themselves are put into them, exactly if the
flags can be counted in an `int` and, wherever such an item snaps to a flag that an
earlier item has taken, the cells to give out are all gone. -/
theorem ItemOrganizer.keepsUncontested_iff (o : ItemOrganizer) (items : List Rectangle)
    (background : Rectangle) (hcells : o.HasCells background) :
    o.KeepsUncontested items background ↔
      (o.cells background).size < 2 ^ 31 ∧ ∀ i, (o.cells background).Uncontested items i →
        (o.cells background).Displaced items i →
        (o.cells background).capacity ≤
          occupied ((o.cells background).flags items) (o.cells background).capacity +
            ((o.cells background).displaced items i).length := by
  have hvalid := hcells.valid
  constructor
  · rintro ⟨after, horganize, hkept⟩
    have hsize : (o.cells background).size < 2 ^ 31 := by
      by_contra hsize
      rw [o.organize_of_size hsize] at horganize
      cases horganize
    refine ⟨hsize, fun i huncontested hdisplaced => ?_⟩
    have hbound := hdisplaced
    obtain ⟨b, hb, _⟩ := hbound
    obtain ⟨hlt, _⟩ := List.getElem?_eq_some_iff.mp hb
    rw [hcells.organize hsize] at horganize
    obtain rfl := Option.some.inj horganize
    have hplaced := hkept i b hb huncontested
    rw [List.getElem?_mapIdx, hb] at hplaced
    have hsnapped : (o.cells background).placed items i b = (o.cells background).snapped b :=
      Option.some.inj hplaced
    cases hseat : (o.cells background).seat items i with
    | none =>
      rw [← seats_eq_none_iff (length_displaced_lt hlt hdisplaced), seat_spec hlt hdisplaced,
        hseat]
    | some t =>
      obtain ⟨ht, hfree⟩ := seat_free hlt hdisplaced hseat
      obtain ⟨hin, _⟩ := hvalid.in_inCell ht ((o.cells background).snapped b)
      have hinCell : (o.cells background).placed items i b =
          (o.cells background).inCell t ((o.cells background).snapped b) := by
        unfold placed
        rw [if_pos hdisplaced, hseat]
        rfl
      rw [← hinCell, hsnapped] at hin
      obtain ⟨hcolumn, hrow⟩ := hvalid.in_unique hin (hvalid.in_snapped b) rfl
      have hflag := hvalid.flag_cast b
      rw [← hcolumn, ← hrow, Int.mul_comm, Int.mul_ediv_add_emod] at hflag
      refine absurd (flag_mem_flags (c := o.cells background) hb) ?_
      rw [Int.ofNat.inj hflag]
      exact hfree
  · rintro ⟨hsize, hfull⟩
    refine ⟨_, hcells.organize hsize, fun i b hb huncontested => ?_⟩
    rw [List.getElem?_mapIdx, hb]
    by_cases hdisplaced : (o.cells background).Displaced items i
    · obtain ⟨hlt, _⟩ := List.getElem?_eq_some_iff.mp hb
      have hnone := (seats_eq_none_iff (length_displaced_lt hlt hdisplaced)).mpr
        (hfull i huncontested hdisplaced)
      rw [seat_spec hlt hdisplaced] at hnone
      refine congrArg some ?_
      unfold placed
      rw [if_pos hdisplaced, Option.some.inj hnone]
      rfl
    · exact congrArg some (placed_of_not hdisplaced)

/-- Two items on a background of two columns and two rows, the first in the last
column and the second in the first one. -/
theorem ItemOrganizer.keepsUncontested_iff_neighbours :
    ItemOrganizer.ofBackground.KeepsUncontested [⟨100, 0, 100, 100⟩, ⟨0, 100, 100, 100⟩]
        ⟨0, 0, 250, 250⟩ ↔
      (ItemOrganizer.ofBackground.cells ⟨0, 0, 250, 250⟩).size < 2 ^ 31 ∧ ∀ i,
        (ItemOrganizer.ofBackground.cells ⟨0, 0, 250, 250⟩).Uncontested
            [⟨100, 0, 100, 100⟩, ⟨0, 100, 100, 100⟩] i →
        (ItemOrganizer.ofBackground.cells ⟨0, 0, 250, 250⟩).Displaced
            [⟨100, 0, 100, 100⟩, ⟨0, 100, 100, 100⟩] i →
        (ItemOrganizer.ofBackground.cells ⟨0, 0, 250, 250⟩).capacity ≤
          occupied ((ItemOrganizer.ofBackground.cells ⟨0, 0, 250, 250⟩).flags
            [⟨100, 0, 100, 100⟩, ⟨0, 100, 100, 100⟩])
            (ItemOrganizer.ofBackground.cells ⟨0, 0, 250, 250⟩).capacity +
          ((ItemOrganizer.ofBackground.cells ⟨0, 0, 250, 250⟩).displaced
            [⟨100, 0, 100, 100⟩, ⟨0, 100, 100, 100⟩] i).length :=
  ItemOrganizer.keepsUncontested_iff _ _ _ ⟨by decide, by decide⟩

/-- The second of them is moved to the first cell, though it had its own for itself. -/
theorem ItemOrganizer.keepsUncontested_fails :
    ¬ ∀ (o : ItemOrganizer) (items : List Rectangle) (background : Rectangle),
      o.HasCells background → o.KeepsUncontested items background := by
  intro h
  obtain ⟨after, horganize, hkept⟩ := h .ofBackground
    [⟨100, 0, 100, 100⟩, ⟨0, 100, 100, 100⟩] ⟨0, 0, 250, 250⟩ ⟨by decide, by decide⟩
  have hafter : ItemOrganizer.ofBackground.organize [⟨100, 0, 100, 100⟩, ⟨0, 100, 100, 100⟩]
      ⟨0, 0, 250, 250⟩ = some [⟨100, 0, 100, 100⟩, ⟨0, 0, 100, 100⟩] := by decide
  rw [hafter] at horganize
  obtain rfl := Option.some.inj horganize
  have hplaced := hkept 1 ⟨0, 100, 100, 100⟩ rfl <| by
    intro j a b hj ha hb
    match j with
    | 0 =>
      cases ha
      cases hb
      decide
    | 1 => exact absurd rfl hj
    | j + 2 => cases ha
  exact absurd hplaced (by decide)

end Heartix.Desktop
