import Mathlib.Algebra.Order.BigOperators.Group.List
import Mathlib.Algebra.BigOperators.Group.List.Basic
import Mathlib.Algebra.Order.Group.Nat
import Heartix.Terminal.DocumentList

/-!
The rows of a document. `acquireRow` walks back over the rows by remainders, and
`getRowCount` counts them by division. Both agree with the lines cut into pieces,
as long as the number of rows is an `int`.
-/

namespace Heartix.Terminal

open DoublyLinked Pieces Runs

namespace Document

/-- The characters of the line at an address. -/
def textOf (d : Document) (p : ℕ) : List UInt8 :=
  match d.memory p with
  | none => []
  | some line => line.buffer.take line.length

/-- The addresses of the lines, met from the last one backwards. -/
def addressesFrom (d : Document) : ℕ → ℕ → List ℕ
  | 0, _ => []
  | fuel + 1, p => if p = 0 then [] else p :: d.addressesFrom fuel (d.previousOf p)

def addresses (d : Document) : List ℕ := d.addressesFrom d.fresh d.lines

/-- The lines in order. -/
def texts (d : Document) : List (List UInt8) := (d.addresses.map d.textOf).reverse

/-- How many rows there are on a screen of one column. -/
def singleRows (d : Document) : ℕ := (d.addresses.map fun a => max 1 (d.lengthOf a)).sum

variable {d t : Document} {list : List ℕ} {p rem columns : ℕ}

theorem textOf_put (line : TerminalLine) (b : ℕ) :
    (d.put p (some line)).textOf b =
      if b = p then line.buffer.take line.length else d.textOf b := by
  unfold textOf
  rw [memory_put]
  by_cases hb : b = p
  · rw [if_pos hb, if_pos hb]
  · rw [if_neg hb, if_neg hb]

theorem textOf_of_memory {line : TerminalLine} (h : d.memory p = some line) :
    d.textOf p = line.buffer.take line.length := by
  unfold textOf
  rw [h]

theorem addressesFrom_eq {before fuel : ℕ} (h : Linked d.previousOf d.nextOf 0 before p list)
    (hfuel : list.length < fuel) : d.addressesFrom fuel p = list := by
  induction list generalizing before p fuel with
  | nil =>
    have hnull : p = 0 := h
    cases fuel with
    | zero => cases hfuel
    | succ fuel =>
      unfold addressesFrom
      rw [if_pos hnull]
  | cons a list ih =>
    obtain ⟨rfl, hnull, _, hrest⟩ := h
    cases fuel with
    | zero => cases hfuel
    | succ fuel =>
      unfold addressesFrom
      rw [if_neg hnull, ih hrest (by simpa using hfuel)]

theorem Holds.addresses_eq (h : d.Holds list) : d.addresses = list :=
  addressesFrom_eq h.chained h.length_lt

theorem Holds.length_textOf (h : d.Holds list) (a : ℕ) : (d.textOf a).length = d.lengthOf a := by
  unfold textOf lengthOf
  cases hline : d.memory a with
  | none => rfl
  | some line =>
    have hallocated := h.allocated a line hline
    dsimp only
    rw [List.length_take]
    omega

/-- The rows of some lines, the last row first. -/
def rowsBack (columns : ℕ) (texts : List (List UInt8)) : List (List UInt8) :=
  texts.flatMap fun text => (pieces columns text).reverse

/-- The rows that are left when the row of the first of some lines that ends at
`rem` is reached. -/
def remaining (d : Document) (columns rem : ℕ) : List ℕ → List (List UInt8)
  | [] => []
  | a :: list =>
      (pieces columns ((d.textOf a).take rem)).reverse ++ rowsBack columns (list.map d.textOf)

/-- A position at the end of a row of a line. -/
def RowEnd (columns length rem : ℕ) : Prop :=
  rem = length ∨ 0 < rem ∧ rem ≤ length ∧ columns ∣ rem

theorem RowEnd.le {length : ℕ} (h : RowEnd columns length rem) : rem ≤ length := by
  rcases h with rfl | ⟨_, hle, _⟩
  · exact le_refl _
  · exact hle

theorem dvd_lastCut (c n : ℕ) : c ∣ lastCut c n := by
  unfold lastCut
  by_cases hzero : n % c = 0
  · rw [if_pos hzero]
    exact Nat.dvd_sub (Nat.dvd_of_mod_eq_zero hzero) (Nat.dvd_refl c)
  · rw [if_neg hzero]
    exact Nat.dvd_sub_mod n

/-- From the end of the first line, all rows are left. -/
theorem remaining_lengthOf (h : d.Holds list) (columns a : ℕ) (rest : List ℕ) :
    d.remaining columns (d.lengthOf a) (a :: rest) =
      rowsBack columns ((a :: rest).map d.textOf) := by
  simp only [remaining, rowsBack, ← h.length_textOf, List.take_length, List.map_cons,
    List.flatMap_cons]

section Walk

variable {a before : ℕ} {row : Row} {line : TerminalLine}

/-- Within a line, the walk goes back by one piece. -/
theorem remaining_of_lt (hcolumns : 0 < columns) (hrem : rem ≤ (d.textOf a).length)
    (hlt : columns < rem) :
    d.remaining columns rem (a :: list) =
      ((d.textOf a).take rem).drop (lastCut columns rem) ::
        d.remaining columns (lastCut columns rem) (a :: list) := by
  have hlength : ((d.textOf a).take rem).length = rem := by
    rw [List.length_take]
    omega
  have hcut := lastCut_lt hcolumns (show 0 < rem by omega)
  dsimp only [remaining]
  rw [pieces_eq_append hcolumns (by rw [hlength]; exact hlt), hlength, List.take_take,
    Nat.min_eq_left (by omega), List.reverse_append]
  rfl

/-- From the first row of a line, the walk goes to the line before it. -/
theorem remaining_of_le (hrem : rem ≤ columns) :
    d.remaining columns rem (a :: list) =
      ((d.textOf a).take rem).drop (lastCut columns rem) ::
        rowsBack columns (list.map d.textOf) := by
  dsimp only [remaining]
  rw [pieces_of_le (by rw [List.length_take]; omega), lastCut_of_le hrem, List.drop_zero]
  rfl

/-- The row that ends at `rem` begins at the last cut. -/
theorem rowEnding_eq (hline : d.memory a = some line) (columns rem : ℕ) :
    d.rowEnding columns a rem = some
      ⟨if line.buffer = [] then none else some (a, lastCut columns rem),
        rem - lastCut columns rem⟩ := by
  have hstart : (if rem = 0 then 0 else if rem % columns = 0 then rem - columns
      else rem - rem % columns) = lastCut columns rem := by
    unfold lastCut
    by_cases hzero : rem = 0
    · subst hzero
      simp
    · rw [if_neg hzero]
  have hlength : (if rem = 0 then 0 else if rem % columns = 0 then columns
      else rem % columns) = rem - lastCut columns rem := by
    have hmod := Nat.mod_le rem columns
    unfold lastCut
    by_cases hzero : rem = 0
    · subst hzero
      simp
    · rw [if_neg hzero]
      by_cases hdvd : rem % columns = 0
      · have hle := Nat.le_of_dvd (Nat.pos_of_ne_zero hzero) (Nat.dvd_of_mod_eq_zero hdvd)
        rw [if_pos hdvd, if_pos hdvd]
        omega
      · rw [if_neg hdvd, if_neg hdvd]
        omega
  unfold rowEnding
  rw [hline]
  dsimp only
  rw [hstart, hlength]
  split <;> rfl

/-- The row that ends at `rem`. -/
theorem Holds.rowEnding_spec (h : d.Holds list) (hline : d.memory a = some line)
    (hrem : rem ≤ line.length) :
    ∃ row, d.rowEnding columns a rem = some row ∧
      d.rowText row = some (((d.textOf a).take rem).drop (lastCut columns rem)) := by
  have hallocated := h.allocated a line hline
  have htext : d.textOf a = line.buffer.take line.length := by
    unfold textOf
    rw [hline]
  refine ⟨_, rowEnding_eq hline columns rem, ?_⟩
  by_cases hnull : line.buffer = []
  · have hzero : rem = 0 := by
      rw [hnull, List.length_nil] at hallocated
      omega
    subst hzero
    simp [rowText, hnull]
  · rw [if_neg hnull]
    unfold rowText
    dsimp only
    rw [hline, htext, List.take_take, Nat.min_eq_left hrem, List.drop_take]
    rfl

/-- The walk has reached the row of the first line of `left` that ends at `rem`. -/
structure AtRow (d : Document) (list : List ℕ) (columns p rem : ℕ) (left : List ℕ) : Prop where
  linked : ∃ before, Linked d.previousOf d.nextOf 0 before p left
  listed : ∀ b ∈ left, b ∈ list
  rowEnd : ∀ b rest, left = b :: rest → RowEnd columns (d.lengthOf b) rem

theorem lengthOf_of_memory (hline : d.memory a = some line) : d.lengthOf a = line.length := by
  unfold lengthOf
  rw [hline]

/-- One step back, from the end of a row: the row before it in the line, or the end of
the previous line. -/
theorem stepBack_eq (hline : d.memory p = some line) (hend : RowEnd columns line.length rem) :
    d.stepBack columns p rem =
      if columns < rem then some (p, lastCut columns rem)
      else if line.previous = 0 then some (0, rem)
      else (d.memory line.previous).map fun previous => (line.previous, previous.length) := by
  have hsame : (if rem = 0 then line.length else rem) = rem := by
    rcases hend with rfl | ⟨hpos, _, _⟩
    · exact ite_self _
    · rw [if_neg (by omega)]
  have hcut : (if rem % columns = 0 then some (p, rem - columns)
      else some (p, rem - rem % columns)) = some (p, lastCut columns rem) := by
    unfold lastCut
    split <;> rfl
  unfold Document.stepBack
  rw [hline]
  dsimp only
  rw [hsame, hcut]

/-- One step back drops the row it starts from. -/
theorem AtRow.stepBack (h : d.Holds list) {rest : List ℕ} (hcolumns : 0 < columns)
    (hat : d.AtRow list columns p rem (a :: rest)) :
    ∃ q rem' left, d.stepBack columns p rem = some (q, rem') ∧
      d.AtRow list columns q rem' left ∧
      d.remaining columns rem (a :: rest) =
        ((d.textOf a).take rem).drop (lastCut columns rem) :: d.remaining columns rem' left := by
  obtain ⟨before, rfl, hnull, hbefore, hrest⟩ := hat.linked
  obtain ⟨line, hline⟩ := h.alive p (hat.listed p List.mem_cons_self)
  have hend := hat.rowEnd p rest rfl
  rw [lengthOf_of_memory hline] at hend
  have hle := hend.le
  rw [stepBack_eq hline hend]
  by_cases hlt : columns < rem
  · rw [if_pos hlt]
    have hcut := lastCut_lt hcolumns (show 0 < rem by omega)
    have hge := le_lastCut hcolumns hlt
    refine ⟨p, lastCut columns rem, p :: rest, rfl, ⟨⟨before, rfl, hnull, hbefore, hrest⟩,
      hat.listed, ?_⟩, ?_⟩
    · intro b tail heq
      obtain ⟨rfl, rfl⟩ := List.cons.inj heq
      rw [lengthOf_of_memory hline]
      exact Or.inr ⟨by omega, by omega, dvd_lastCut columns rem⟩
    · refine remaining_of_lt hcolumns ?_ hlt
      rw [h.length_textOf, lengthOf_of_memory hline]
      exact hle
  · rw [if_neg hlt]
    have hfirst : d.remaining columns rem (p :: rest) =
        ((d.textOf p).take rem).drop (lastCut columns rem) ::
          rowsBack columns (rest.map d.textOf) := remaining_of_le (by omega)
    rw [previousOf_of_memory hline] at hrest
    cases rest with
    | nil =>
      have hprevious : line.previous = 0 := hrest
      rw [if_pos hprevious]
      refine ⟨0, rem, [], rfl, ⟨⟨0, rfl⟩, fun b hb => ?_, fun b tail heq => ?_⟩, hfirst⟩
      · cases hb
      · cases heq
    | cons b tail =>
      have hchain := hrest
      obtain ⟨hb, hbnull, _⟩ := hrest
      have hlisted := fun c hc => hat.listed c (List.mem_cons_of_mem p hc)
      obtain ⟨previous, hprevious⟩ := h.alive b (hlisted b List.mem_cons_self)
      rw [hb, if_neg hbnull, hprevious]
      refine ⟨b, previous.length, b :: tail, rfl, ⟨⟨p, hb ▸ hchain⟩, hlisted, ?_⟩, ?_⟩
      · intro c rest heq
        obtain ⟨rfl, rfl⟩ := List.cons.inj heq
        rw [lengthOf_of_memory hprevious]
        exact Or.inl rfl
      · rw [hfirst, ← lengthOf_of_memory hprevious, remaining_lengthOf h]

/-- After `n` steps the walk is at the row with the number `n`, counted from the
last one, or past the first row. -/
theorem AtRow.rowWalk (h : d.Holds list) (hcolumns : 0 < columns) {left : List ℕ}
    (hat : d.AtRow list columns p rem left) (n : ℕ) :
    ∃ q rem', d.rowWalk columns n p rem = some (q, rem') ∧
      (q = 0 ∧ (d.remaining columns rem left).length ≤ n ∨
        q ≠ 0 ∧ ∃ row text, d.rowEnding columns q rem' = some row ∧
          d.rowText row = some text ∧ (d.remaining columns rem left)[n]? = some text) := by
  induction n generalizing p rem left with
  | zero =>
    refine ⟨p, rem, rfl, ?_⟩
    cases left with
    | nil =>
      obtain ⟨_, hnull⟩ := hat.linked
      exact Or.inl ⟨hnull, Nat.le_refl 0⟩
    | cons a rest =>
      obtain ⟨_, _, _, _, _, hremaining⟩ := hat.stepBack h hcolumns
      obtain ⟨_, rfl, hnull, _⟩ := hat.linked
      obtain ⟨line, hline⟩ := h.alive p (hat.listed p List.mem_cons_self)
      have hend := hat.rowEnd p rest rfl
      rw [lengthOf_of_memory hline] at hend
      obtain ⟨row, hrow, htext⟩ := h.rowEnding_spec hline hend.le
      refine Or.inr ⟨hnull, row, _, hrow, htext, ?_⟩
      rw [hremaining]
      rfl
  | succ n ih =>
    cases left with
    | nil =>
      obtain ⟨_, hempty⟩ := hat.linked
      have hnull : p = 0 := hempty
      refine ⟨0, rem, ?_, Or.inl ⟨rfl, Nat.zero_le _⟩⟩
      unfold Document.rowWalk
      rw [if_pos hnull]
    | cons a rest =>
      obtain ⟨q, rem', left, hstep, hat', hremaining⟩ := hat.stepBack h hcolumns
      obtain ⟨_, rfl, hnull, _⟩ := hat.linked
      obtain ⟨r, rem'', hwalk, hor⟩ := ih hat'
      refine ⟨r, rem'', ?_, ?_⟩
      · unfold Document.rowWalk
        rw [if_neg hnull, hstep]
        exact hwalk
      · rw [hremaining, List.length_cons, List.getElem?_cons_succ]
        rcases hor with ⟨hr, hlen⟩ | hrow
        · exact Or.inl ⟨hr, Nat.succ_le_succ hlen⟩
        · exact Or.inr hrow

end Walk

/-- All rows of the document, the last one first. -/
def rows (d : Document) (columns : ℕ) : List (List UInt8) :=
  (d.texts.flatMap (pieces columns)).reverse

theorem rows_eq (h : d.Holds list) (columns : ℕ) :
    d.rows columns = rowsBack columns (list.map d.textOf) := by
  unfold rows texts rowsBack
  rw [h.addresses_eq, List.reverse_flatMap, List.reverse_reverse]
  rfl

/-- `acquireRow` finds the row with the number the counter stands for. -/
theorem Holds.acquireRow_spec (h : d.Holds list) (hcolumns : 0 < columns) (offsetY : ℤ) :
    (∃ row text, d.acquireRow offsetY columns = some row ∧ d.rowText row = some text ∧
        (d.rows columns)[countdown offsetY]? = some text) ∨
      d.acquireRow offsetY columns = some nullRow ∧
        (d.rows columns).length ≤ countdown offsetY := by
  rw [rows_eq h]
  obtain ⟨a, rest, rfl⟩ := List.exists_cons_of_ne_nil h.nonempty
  obtain ⟨hlines, _⟩ := h.chained
  obtain ⟨line, hline⟩ := h.alive a List.mem_cons_self
  have hat : d.AtRow (a :: rest) columns d.lines line.length (a :: rest) := by
    refine ⟨⟨0, h.chained⟩, fun b hb => hb, fun b tail heq => ?_⟩
    obtain ⟨rfl, rfl⟩ := List.cons.inj heq
    rw [lengthOf_of_memory hline]
    exact Or.inl rfl
  obtain ⟨q, rem, hwalk, hor⟩ := hat.rowWalk h hcolumns (countdown offsetY)
  rw [← lengthOf_of_memory hline, remaining_lengthOf h] at hor
  rw [hlines] at hwalk
  unfold acquireRow
  rw [hlines, hline]
  dsimp only
  rw [hwalk]
  rcases hor with ⟨rfl, hlen⟩ | ⟨hq, row, text, hrow, htext, hget⟩
  · exact Or.inr ⟨rfl, hlen⟩
  · obtain ⟨q, rfl⟩ := Nat.exists_eq_succ_of_ne_zero hq
    exact Or.inl ⟨row, text, hrow, htext, hget⟩

/-- The loop adds the numbers of pieces in `int` arithmetic. -/
theorem rowCountLoop_spec (h : d.Holds list) (hcolumns : 0 < columns) {left : List ℕ}
    {before fuel : ℕ} {rows : ℤ} (hlinked : Linked d.previousOf d.nextOf 0 before p left)
    (hlisted : ∀ b ∈ left, b ∈ list) (hfuel : left.length ≤ fuel)
    (hrows : rows = rows.bmod (2 ^ 32)) :
    d.rowCountLoop columns fuel p rows =
      some ((rows + (rowsBack columns (left.map d.textOf)).length).bmod (2 ^ 32)) := by
  induction left generalizing before p fuel rows with
  | nil =>
    have hnull : p = 0 := hlinked
    unfold rowCountLoop
    rw [if_pos hnull, hrows]
    simp [rowsBack]
  | cons a left ih =>
    obtain ⟨rfl, hnull, _, hrest⟩ := hlinked
    obtain ⟨line, hline⟩ := h.alive p (hlisted p List.mem_cons_self)
    obtain ⟨fuel, rfl⟩ : ∃ n, fuel = n + 1 := ⟨fuel - 1, by
      rw [List.length_cons] at hfuel
      omega⟩
    rw [previousOf_of_memory hline] at hrest
    have hcount : (pieces columns (d.textOf p)).length = line.length / columns +
        if line.length ≠ 0 ∧ line.length % columns = 0 then 0 else 1 := by
      rw [length_pieces hcolumns, h.length_textOf, lengthOf_of_memory hline]
    unfold rowCountLoop
    rw [if_neg hnull, hline]
    dsimp only
    rw [← hcount, ih hrest (fun b hb => hlisted b (List.mem_cons_of_mem p hb))
      (by simpa using hfuel) (Int.bmod_bmod).symm, Int.bmod_add_bmod]
    simp [rowsBack, Int.add_assoc]

theorem Holds.getRowCount_spec (h : d.Holds list) (hcolumns : 0 < columns) :
    d.getRowCount columns = some (((d.rows columns).length : ℤ).bmod (2 ^ 32)) := by
  unfold getRowCount
  rw [if_neg (by omega), rowCountLoop_spec h hcolumns h.chained (fun b hb => hb)
    (Nat.le_of_lt h.length_lt) rfl, ← rows_eq h, Int.zero_add]

theorem Holds.length_rows (h : d.Holds list) (columns : ℕ) :
    (d.rows columns).length = (list.map fun a => (pieces columns (d.textOf a)).length).sum := by
  rw [rows_eq h]
  unfold rowsBack
  rw [List.length_flatMap, List.map_map]
  simp only [Function.comp_def, List.length_reverse]

theorem Holds.length_rows_one (h : d.Holds list) : (d.rows 1).length = d.singleRows := by
  have hone : ∀ a, (pieces 1 (d.textOf a)).length = max 1 (d.lengthOf a) := by
    intro a
    rw [length_pieces Nat.one_pos, h.length_textOf, Nat.div_one, Nat.mod_one]
    split <;> omega
  unfold singleRows
  rw [h.length_rows, h.addresses_eq]
  simp only [hone]

/-- One column gives the most rows. -/
theorem Holds.length_rows_le (h : d.Holds list) (hcolumns : 0 < columns) :
    (d.rows columns).length ≤ d.singleRows := by
  unfold singleRows
  rw [h.length_rows, h.addresses_eq]
  refine List.sum_le_sum fun a _ => ?_
  rw [length_pieces hcolumns, h.length_textOf]
  have hdiv := Nat.div_le_self (d.lengthOf a) columns
  by_cases hzero : d.lengthOf a = 0
  · simp [hzero]
  · by_cases hmod : d.lengthOf a % columns = 0
    · rw [if_pos ⟨hzero, hmod⟩]
      omega
    · have hne : columns ≠ 1 := by
        rintro rfl
        exact hmod (Nat.mod_one _)
      have hlt := Nat.div_lt_self (Nat.pos_of_ne_zero hzero) (show 1 < columns by omega)
      rw [if_neg fun hand => hmod hand.2]
      omega

/-- The lines form a list linked in both directions, and for every number of
columns the rows are the pieces of the lines in order, and no others. -/
structure Faithful (d : Document) : Prop where
  chained : ∃ list, d.Chained list ∧ list ≠ [] ∧ ∀ a ∈ list, (d.memory a).isSome
  rows : ∀ columns, 1 ≤ columns → ∃ n : ℕ, d.getRowCount columns = some (n : ℤ) ∧
    ((List.range n).reverse.map fun k : ℕ =>
        (d.acquireRow (k : ℤ) columns).bind d.rowText) =
      (d.texts.flatMap (pieces columns)).map some ∧
    ∀ k : ℤ, -2 ^ 31 ≤ k → k < 2 ^ 31 → k < 0 ∨ n ≤ k →
      d.acquireRow k columns = some nullRow

theorem countdown_of_nonneg {k : ℤ} (hpos : 0 ≤ k) (hlt : k < 2 ^ 31) :
    countdown k = k.toNat := by
  unfold countdown
  rw [Int.emod_eq_of_lt hpos (by omega)]

theorem countdown_of_neg {k : ℤ} (hge : -2 ^ 31 ≤ k) (hneg : k < 0) :
    2 ^ 31 ≤ countdown k := by
  unfold countdown
  omega

theorem length_flatMap_pieces (d : Document) (columns : ℕ) :
    (d.texts.flatMap (pieces columns)).length = (d.rows columns).length := by
  unfold rows
  rw [List.length_reverse]

/-- With fewer than 2^31 rows in one column, everything is as it should be. -/
theorem Holds.faithful (h : d.Holds list) (hsmall : d.singleRows < 2 ^ 31) : d.Faithful := by
  constructor
  · exact ⟨list, h.chained, h.nonempty, fun a ha => Option.isSome_iff_exists.mpr (h.alive a ha)⟩
  · intro columns hcolumns
    have hle := h.length_rows_le hcolumns
    have hacquire : ∀ k < (d.rows columns).length,
        (d.acquireRow k columns).bind d.rowText = (d.rows columns)[k]? := by
      intro k hk
      have hcountdown : countdown k = k := countdown_of_nonneg (by omega) (by omega)
      rcases h.acquireRow_spec hcolumns k with ⟨row, text, hrow, htext, hget⟩ | ⟨_, hlen⟩
      · rw [hcountdown] at hget
        rw [hrow, hget]
        exact htext
      · rw [hcountdown] at hlen
        omega
    refine ⟨(d.rows columns).length, ?_, ?_, fun k hge hlt hout => ?_⟩
    · rw [h.getRowCount_spec hcolumns, Int.bmod_eq_of_le] <;> omega
    · rw [List.map_reverse, List.reverse_eq_iff]
      have hrows : ((d.texts.flatMap (pieces columns)).map some).reverse =
          (d.rows columns).map some := by
        rw [← List.map_reverse]
        rfl
      rw [hrows]
      refine List.ext_getElem (by simp) fun k hk _ => ?_
      rw [List.length_map, List.length_range] at hk
      rw [List.getElem_map, List.getElem_map, List.getElem_range, hacquire k hk,
        List.getElem?_eq_getElem hk]
    · rcases h.acquireRow_spec hcolumns k with ⟨row, text, _, _, hget⟩ | ⟨hnull, _⟩
      · have hlen := (List.getElem?_eq_some_iff.mp hget).1
        rcases hout with hneg | hpast
        · have hcountdown := countdown_of_neg hge hneg
          omega
        · rw [countdown_of_nonneg (by omega) hlt] at hlen
          omega
      · exact hnull

/-- The row count is an `int`, so it is wrong as soon as there are more rows. -/
theorem Holds.not_faithful (h : d.Holds list) (hlarge : 2 ^ 31 ≤ d.singleRows) :
    ¬ d.Faithful := by
  intro hfaithful
  obtain ⟨n, hcount, hrows, _⟩ := hfaithful.rows 1 (Nat.le_refl 1)
  have hlen := congrArg List.length hrows
  rw [List.length_map, List.length_map, List.length_reverse, List.length_range,
    length_flatMap_pieces, h.length_rows_one] at hlen
  rw [h.getRowCount_spec Nat.one_pos] at hcount
  have hbound := Int.bmod_lt (x := ((d.rows 1).length : ℤ)) (show 0 < 2 ^ 32 by decide)
  rw [Option.some.inj hcount] at hbound
  omega

/-- A newline leaves the lengths of the lines, and the new line is empty. -/
theorem lengthOf_of_inserted {front back : List ℕ} {a : ℕ} (h : Inserted a d t)
    (hd : d.Holds (front ++ a :: back)) :
    (∀ b ∈ front ++ a :: back, t.lengthOf b = d.lengthOf b) ∧ t.lengthOf d.fresh = 0 := by
  constructor
  · intro b hb
    obtain ⟨line, hline⟩ := (h.holds hd).alive b (by
      simp only [List.mem_append, List.mem_cons] at hb ⊢
      exact hb.imp_right Or.inr)
    obtain ⟨old, holdLine, heq⟩ := memory_of_contents hline (h.contents b (hd.ne_fresh hb))
    rw [lengthOf_of_memory hline, lengthOf_of_memory holdLine]
    exact congrArg (fun c => c.2.1) heq
  · obtain ⟨line, hline, heq⟩ := Option.map_eq_some_iff.mp h.contents_new
    rw [lengthOf_of_memory hline]
    exact congrArg (fun c => c.2.1) heq

theorem singleRows_of_inserted {front back : List ℕ} {a : ℕ} (h : Inserted a d t)
    (hd : d.Holds (front ++ a :: back)) : t.singleRows = d.singleRows + 1 := by
  obtain ⟨hold, hnew⟩ := lengthOf_of_inserted h hd
  have hmap : ∀ l : List ℕ, (∀ b ∈ l, b ∈ front ++ a :: back) →
      l.map (fun b => max 1 (t.lengthOf b)) = l.map fun b => max 1 (d.lengthOf b) := by
    intro l hl
    refine List.map_congr_left fun b hb => ?_
    rw [hold b (hl b hb)]
  unfold singleRows
  rw [(h.holds hd).addresses_eq, hd.addresses_eq, List.map_append, List.map_append,
    List.map_cons, hmap front (fun b hb => List.mem_append_left _ hb),
    hmap (a :: back) (fun b hb => List.mem_append_right _ hb), hnew, List.sum_append,
    List.sum_append, List.sum_cons]
  omega

theorem singleRows_put {a : ℕ} {changed : TerminalLine} (h : d.Holds list) (ha : a ∈ list)
    (hput : (d.put a (some changed)).Holds list) :
    (d.put a (some changed)).singleRows + max 1 (d.lengthOf a) =
      d.singleRows + max 1 changed.length := by
  have hrest : ((list.erase a).map fun b => max 1 ((d.put a (some changed)).lengthOf b)) =
      (list.erase a).map fun b => max 1 (d.lengthOf b) := by
    refine List.map_congr_left fun b hb => ?_
    rw [lengthOf_put_of_ne (h.chained.nodup.mem_erase_iff.mp hb).1]
  unfold singleRows
  rw [hput.addresses_eq, h.addresses_eq, ← List.sum_map_erase _ ha, hrest,
    ← List.sum_map_erase (fun b => max 1 (d.lengthOf b)) ha, lengthOf_put_self]
  omega

end Document

theorem Document.Holds.le_singleRows {d : Document} {list : List ℕ} (h : d.Holds list) {a : ℕ}
    (ha : a ∈ list) : max 1 (d.lengthOf a) ≤ d.singleRows := by
  unfold Document.singleRows
  rw [h.addresses_eq]
  exact List.le_sum_of_mem (List.mem_map_of_mem ha)

/-- The operations of the document. -/
inductive DocumentOp where
  | insert (x offsetY : ℤ) (c : UInt8)
  | remove (x offsetY : ℤ)
  | clear
  deriving DecidableEq, Repr

def Document.exec : Document → DocumentOp → Option Document
  | d, .insert x offsetY c => d.insert x offsetY c
  | d, .remove x offsetY => d.remove x offsetY
  | d, .clear => d.clear

/-- A step at a position inside the addressed line, or behind its end for an
insertion, that leaves fewer than 2^31 rows on a screen of one column. -/
def DocumentOp.Kept (d : Document) : DocumentOp → Prop
  | insert x offsetY c => ∀ a, Document.addressed d.addresses offsetY = some a →
      if c = '\n'.toUInt8 then d.singleRows + 1 < 2 ^ 31
      else 0 ≤ x ∧ d.singleRows + ((x + 1).toNat - max 1 (d.lengthOf a)) < 2 ^ 31
  | remove x offsetY => ∀ a, Document.addressed d.addresses offsetY = some a →
      d.lengthOf a = 0 ∨ 0 ≤ x ∧ x < d.lengthOf a
  | clear => True

namespace Document

/-- A document with a list of lines, and as many rows as an `int` can count. -/
def Countable (d : Document) : Prop := (∃ list, d.Holds list) ∧ d.singleRows < 2 ^ 31

theorem Countable.faithful {d : Document} (h : d.Countable) : d.Faithful := by
  obtain ⟨⟨list, hlist⟩, hsmall⟩ := h
  exact hlist.faithful hsmall

variable {d t : Document} {list : List ℕ}

/-- A modified line is put back. -/
theorem modify_eq_some {a : ℕ} {line : TerminalLine} {change : TerminalLine → Option TerminalLine}
    (hline : d.memory a = some line) (ht : d.modify a change = some t) :
    ∃ changed, change line = some changed ∧ t = d.put a (some changed) := by
  rw [modify_of_memory hline] at ht
  obtain ⟨changed, hchanged, heq⟩ := Option.map_eq_some_iff.mp ht
  exact ⟨changed, hchanged, heq.symm⟩

/-- What an insertion into a line leaves, if it is defined. -/
theorem Holds.insert_spec (h : d.Holds list) {x offsetY : ℤ} {c : UInt8} {a : ℕ} (hmem : a ∈ list)
    (ha : a ≠ 0) (hget : d.getLine offsetY = some a) (hc : c ≠ '\n'.toUInt8)
    (ht : d.insert x offsetY c = some t) :
    t.Holds list ∧ 0 ≤ x ∧
      t.singleRows = d.singleRows + ((x + 1).toNat - max 1 (d.lengthOf a)) := by
  obtain ⟨line, hline⟩ := h.alive a hmem
  rw [insert_of_getLine ha hget, if_neg hc] at ht
  obtain ⟨changed, hchanged, rfl⟩ := modify_eq_some hline ht
  obtain ⟨hallocated, hprevious, hnext, hlength⟩ :=
    TerminalLine.insert_spec (h.allocated a line hline) hchanged
  have hpos := TerminalLine.insert_isSome_iff.mp (Option.isSome_iff_exists.mpr ⟨_, hchanged⟩)
  have hput := h.put hline hprevious hnext hallocated
  have hrows := singleRows_put h hmem hput
  rw [hlength, lengthOf_of_memory hline] at hrows
  rw [lengthOf_of_memory hline]
  exact ⟨hput, by omega, by omega⟩

/-- What a removal leaves, if it is defined. -/
theorem Holds.remove_spec (h : d.Holds list) {x offsetY : ℤ} {a : ℕ} (hmem : a ∈ list)
    (ha : a ≠ 0) (hget : d.getLine offsetY = some a) (ht : d.remove x offsetY = some t) :
    t.Holds list ∧ t.singleRows ≤ d.singleRows := by
  obtain ⟨line, hline⟩ := h.alive a hmem
  rw [remove_of_getLine ha hget] at ht
  obtain ⟨changed, hchanged, rfl⟩ := modify_eq_some hline ht
  obtain ⟨hallocated, hprevious, hnext, hlength⟩ :=
    TerminalLine.remove_spec (h.allocated a line hline) hchanged
  have hput := h.put hline hprevious hnext hallocated
  have hrows := singleRows_put h hmem hput
  rw [lengthOf_of_memory hline] at hrows
  exact ⟨hput, by omega⟩

theorem insert_isSome_iff (h : d.Holds list) {x offsetY : ℤ} {c : UInt8} {a : ℕ}
    (hmem : a ∈ list) (ha : a ≠ 0) (hget : d.getLine offsetY = some a)
    (hc : c ≠ '\n'.toUInt8) :
    (d.insert x offsetY c).isSome ↔ 0 ≤ x ∧ (x + 1 < 2 ^ 31 ∨ x < d.lengthOf a) := by
  obtain ⟨line, hline⟩ := h.alive a hmem
  rw [insert_of_getLine ha hget, if_neg hc, modify_of_memory hline, Option.isSome_map,
    TerminalLine.insert_isSome_iff, lengthOf_of_memory hline]
  omega

theorem remove_isSome_iff (h : d.Holds list) {x offsetY : ℤ} {a : ℕ} (hmem : a ∈ list)
    (ha : a ≠ 0) (hget : d.getLine offsetY = some a) :
    (d.remove x offsetY).isSome ↔ d.lengthOf a = 0 ∨ 0 ≤ x ∧ x < d.lengthOf a := by
  obtain ⟨line, hline⟩ := h.alive a hmem
  rw [remove_of_getLine ha hget, modify_of_memory hline, Option.isSome_map,
    TerminalLine.remove_isSome_iff, lengthOf_of_memory hline]

/-- Without an addressed line nothing happens. -/
theorem insert_of_getLine_null {x offsetY : ℤ} {c : UInt8} (hget : d.getLine offsetY = some 0) :
    d.insert x offsetY c = some d := by
  unfold insert
  rw [hget]
  rfl

theorem remove_of_getLine_null {x offsetY : ℤ} (hget : d.getLine offsetY = some 0) :
    d.remove x offsetY = some d := by
  unfold remove
  rw [hget]
  rfl

/-- A newline after a line of the document. -/
theorem Holds.newline_spec (h : d.Holds list) {x offsetY : ℤ} {a : ℕ} (hmem : a ∈ list)
    (ha : a ≠ 0) (hget : d.getLine offsetY = some a) :
    ∃ t list', d.insert x offsetY '\n'.toUInt8 = some t ∧ t.Holds list' ∧
      t.singleRows = d.singleRows + 1 := by
  obtain ⟨t, hrun, hinserted⟩ := h.insertLine_inserted hmem
  obtain ⟨front, back, rfl⟩ := List.append_of_mem hmem
  refine ⟨t, _, ?_, hinserted.holds h, singleRows_of_inserted hinserted h⟩
  rw [insert_of_getLine ha hget, if_pos rfl]
  exact hrun

/-- A kept step leaves a document whose rows can be counted. -/
theorem Countable.exec (h : d.Countable) {op : DocumentOp} (hop : op.Kept d) :
    ∃ t, d.exec op = some t ∧ t.Countable := by
  obtain ⟨⟨list, hlist⟩, hsmall⟩ := h
  cases op with
  | insert x offsetY c =>
    rcases hlist.getLine_addressed offsetY with ⟨_, hget⟩ | ⟨a, haddressed, hmem, ha, hget⟩
    · exact ⟨d, insert_of_getLine_null hget, ⟨list, hlist⟩, hsmall⟩
    · rw [← hlist.addresses_eq] at haddressed
      have hkept := hop a haddressed
      by_cases hc : c = '\n'.toUInt8
      · rw [if_pos hc] at hkept
        obtain ⟨t, list', hrun, hholds, hrows⟩ := hlist.newline_spec (x := x) hmem ha hget
        exact ⟨t, hc ▸ hrun, ⟨list', hholds⟩, by omega⟩
      · rw [if_neg hc] at hkept
        have hle := hlist.le_singleRows hmem
        have hsome := (insert_isSome_iff hlist hmem ha hget hc).mpr ⟨hkept.1, by omega⟩
        obtain ⟨t, ht⟩ := Option.isSome_iff_exists.mp hsome
        obtain ⟨hholds, _, hrows⟩ := hlist.insert_spec hmem ha hget hc ht
        exact ⟨t, ht, ⟨list, hholds⟩, by omega⟩
  | remove x offsetY =>
    rcases hlist.getLine_addressed offsetY with ⟨_, hget⟩ | ⟨a, haddressed, hmem, ha, hget⟩
    · exact ⟨d, remove_of_getLine_null hget, ⟨list, hlist⟩, hsmall⟩
    · rw [← hlist.addresses_eq] at haddressed
      have hsome := (remove_isSome_iff hlist hmem ha hget).mpr (hop a haddressed)
      obtain ⟨t, ht⟩ := Option.isSome_iff_exists.mp hsome
      obtain ⟨hholds, hrows⟩ := hlist.remove_spec hmem ha hget ht
      exact ⟨t, ht, ⟨list, hholds⟩, by omega⟩
  | clear =>
    obtain ⟨t, hrun, hholds, hlength⟩ := hlist.clear
    refine ⟨t, hrun, ⟨_, hholds⟩, ?_⟩
    unfold singleRows
    rw [hholds.addresses_eq, List.map_singleton, List.sum_singleton, hlength]
    decide

/-- The line for which a condition on the addressed line fails. -/
theorem Holds.getLine_of_not {d : Document} {list : List ℕ} (h : d.Holds list) {offsetY : ℤ}
    {P : ℕ → Prop} (hnot : ¬ ∀ a, addressed d.addresses offsetY = some a → P a) :
    ∃ a, a ∈ list ∧ a ≠ 0 ∧ d.getLine offsetY = some a ∧ ¬ P a := by
  obtain ⟨a, hnot⟩ := not_forall.mp hnot
  obtain ⟨haddressed, hnot⟩ := Classical.not_imp.mp hnot
  rw [h.addresses_eq] at haddressed
  rcases h.getLine_addressed offsetY with ⟨hnone, _⟩ | ⟨b, haddressed', hmem, ha, hget⟩
  · rw [hnone] at haddressed
    cases haddressed
  · obtain rfl := Option.some.inj (haddressed.symm.trans haddressed')
    exact ⟨a, hmem, ha, hget, hnot⟩

/-- Every other step is undefined, or leaves too many rows. -/
theorem Countable.not_faithful_of_exec (h : d.Countable) {op : DocumentOp} (hop : ¬ op.Kept d)
    (t : Document) (ht : d.exec op = some t) : ¬ t.Faithful := by
  obtain ⟨⟨list, hlist⟩, hsmall⟩ := h
  cases op with
  | insert x offsetY c =>
    obtain ⟨a, hmem, ha, hget, hnot⟩ := hlist.getLine_of_not hop
    by_cases hc : c = '\n'.toUInt8
    · rw [if_pos hc] at hnot
      obtain ⟨u, list', hrun, hholds, hrows⟩ := hlist.newline_spec (x := x) hmem ha hget
      rw [← hc] at hrun
      obtain rfl := Option.some.inj (hrun.symm.trans ht)
      exact hholds.not_faithful (by omega)
    · rw [if_neg hc] at hnot
      obtain ⟨hholds, hpos, hrows⟩ := hlist.insert_spec hmem ha hget hc ht
      exact hholds.not_faithful (by omega)
  | remove x offsetY =>
    obtain ⟨a, hmem, ha, hget, hnot⟩ := hlist.getLine_of_not hop
    have hsome : (d.remove x offsetY).isSome := Option.isSome_iff_exists.mpr ⟨t, ht⟩
    exact absurd ((remove_isSome_iff hlist hmem ha hget).mp hsome) hnot
  | clear => exact absurd trivial hop

/-- From a new document, every step is defined and leaves consistent lines and
rows along exactly the runs that stay inside the lines and below 2^31 rows. -/
theorem document_faithful_iff (ops : List DocumentOp) :
    Along Document.exec Document.Faithful ops Document.construct ↔
      Guarded Document.exec (fun d op => op.Kept d) ops Document.construct := by
  have hstart : Document.construct.Countable :=
    ⟨⟨[1], construct_holds⟩, by decide⟩
  exact along_iff_guarded (fun _ h => h.faithful) (fun _ _ h => h.exec)
    (fun _ _ h => h.not_faithful_of_exec) ops hstart

/-- A removal behind the end of a line. -/
theorem document_remove_outside :
    ¬ ∀ ops : List DocumentOp, Along Document.exec Document.Faithful ops Document.construct := by
  intro h
  obtain ⟨t, hrun, _⟩ := (h [.insert 0 0 'a'.toUInt8, .remove 5 0]).foldlM
  have hnone : ([DocumentOp.insert 0 0 'a'.toUInt8, .remove 5 0].foldlM Document.exec
      Document.construct).isSome = false := by
    decide
  rw [hrun] at hnone
  cases hnone

end Document

end Heartix.Terminal
