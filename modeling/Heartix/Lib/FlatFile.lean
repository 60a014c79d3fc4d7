import Mathlib.Data.List.GetD
import Mathlib.Data.List.Range
import Mathlib.Tactic.Linarith

/-!
Files as an array of cells with a size. Writing a block replaces cells and may
extend the file; cells beyond the size have a value too, which a gap shows when
the file is extended past it. Reading stops at the size.
-/

namespace Heartix

/-- The cells at positions from `size` on are not part of the file yet. -/
@[ext] structure FlatFile (α : Type*) where
  cell : ℕ → α
  size : ℕ

variable {α : Type*}

namespace FlatFile

def write (f : FlatFile α) (offset : ℕ) (block : List α) : FlatFile α where
  cell i := if offset ≤ i then block.getD (i - offset) (f.cell i) else f.cell i
  size := if block.isEmpty then f.size else max f.size (offset + block.length)

/-- At most `n` cells from `offset` on. -/
def read (f : FlatFile α) (offset n : ℕ) : List α :=
  (List.range (min n (f.size - offset))).map fun i => f.cell (offset + i)

/-- The file that holds a list. -/
def ofList [Inhabited α] (l : List α) : FlatFile α where
  cell i := l.getD i default
  size := l.length

@[simp] theorem write_nil (f : FlatFile α) (offset : ℕ) : f.write offset [] = f := by
  ext i <;> simp [write]

/-- Two adjacent writes are one. -/
theorem write_write (f : FlatFile α) (offset : ℕ) (left right : List α) :
    (f.write offset left).write (offset + left.length) right =
      f.write offset (left ++ right) := by
  ext i
  · simp only [write]
    by_cases hlow : offset ≤ i
    · rw [if_pos hlow, if_pos hlow]
      by_cases hhigh : offset + left.length ≤ i
      · have hdefault : left.getD (i - offset) (f.cell i) = f.cell i :=
          List.getD_eq_default _ _ (by omega)
        have hskip : i - (offset + left.length) = i - offset - left.length := by omega
        rw [if_pos hhigh, hdefault, hskip, List.getD_append_right _ _ _ _ (by omega)]
      · rw [if_neg hhigh, List.getD_append _ _ _ _ (by omega)]
    · rw [if_neg hlow, if_neg (by omega), if_neg hlow]
  · simp only [write]
    cases left with
    | nil => simp
    | cons a left =>
      cases right with
      | nil => simp
      | cons b right =>
        simp only [List.isEmpty_cons, List.cons_append, Bool.false_eq_true, if_false,
          List.length_cons, List.length_append]
        omega

@[simp] theorem length_read (f : FlatFile α) (offset n : ℕ) :
    (f.read offset n).length = min n (f.size - offset) := by
  simp [read]

@[simp] theorem read_zero (f : FlatFile α) (offset : ℕ) : f.read offset 0 = [] := by
  simp [read]

theorem read_of_size_le (f : FlatFile α) {offset : ℕ} (h : f.size ≤ offset) (n : ℕ) :
    f.read offset n = [] := by
  have hzero : f.size - offset = 0 := by omega
  simp [read, hzero]

theorem read_succ (f : FlatFile α) {offset : ℕ} (h : offset < f.size) (n : ℕ) :
    f.read offset (n + 1) = f.cell offset :: f.read (offset + 1) n := by
  have hmin : min (n + 1) (f.size - offset) = min n (f.size - (offset + 1)) + 1 := by omega
  unfold read
  rw [hmin, List.range_succ_eq_map, List.map_cons, List.map_map, Nat.add_zero]
  congr 1
  apply List.map_congr_left
  intro i _
  show f.cell (offset + (i + 1)) = f.cell (offset + 1 + i)
  congr 1
  omega

/-- Reading again exactly as much as was read. -/
theorem read_length_self (f : FlatFile α) (offset n : ℕ) :
    f.read offset (f.read offset n).length = f.read offset n := by
  have hmin : min (min n (f.size - offset)) (f.size - offset) = min n (f.size - offset) := by
    omega
  rw [length_read]
  simp only [read, hmin]

/-- The cells that were read in full and end at `stop`: the first one and the rest. -/
theorem cell_of_read_eq_cons {f : FlatFile α} {a : α} {rest : List α} {stop : ℕ}
    (hle : rest.length + 1 ≤ stop)
    (h : f.read (stop - (rest.length + 1)) (rest.length + 1) = a :: rest) :
    stop - (rest.length + 1) < f.size ∧ f.cell (stop - (rest.length + 1)) = a ∧
      f.read (stop - rest.length) rest.length = rest := by
  have hlt : stop - (rest.length + 1) < f.size := by
    by_contra hge
    rw [read_of_size_le f (by omega)] at h
    cases h
  rw [read_succ f hlt] at h
  obtain ⟨hcell, hrest⟩ := List.cons.inj h
  have hnext : stop - (rest.length + 1) + 1 = stop - rest.length := by omega
  rw [hnext] at hrest
  exact ⟨hlt, hcell, hrest⟩

/-- Writing at the end of a file appends to it. -/
theorem write_ofList [Inhabited α] (l block : List α) :
    (ofList l).write l.length block = ofList (l ++ block) := by
  ext i
  · simp only [write, ofList]
    by_cases hi : l.length ≤ i
    · rw [if_pos hi, List.getD_append_right _ _ _ _ hi, List.getD_eq_default l _ hi]
    · rw [if_neg hi, List.getD_append _ _ _ _ (by omega)]
  · simp only [write, ofList, List.length_append]
    cases block with
    | nil => simp
    | cons b block =>
      simp only [List.isEmpty_cons, Bool.false_eq_true, if_false]
      omega

/-- Two adjacent reads are one. -/
theorem read_append (f : FlatFile α) (offset m n : ℕ) :
    f.read offset m ++ f.read (offset + m) n = f.read offset (m + n) := by
  by_cases hm : m ≤ f.size - offset
  · have hleft : min m (f.size - offset) = m := Nat.min_eq_left hm
    have hall : min (m + n) (f.size - offset) = m + min n (f.size - (offset + m)) := by omega
    unfold read
    rw [hleft, hall, List.range_add, List.map_append, List.map_map]
    congr 1
    apply List.map_congr_left
    intro i _
    show f.cell (offset + m + i) = f.cell (offset + (m + i))
    rw [Nat.add_assoc]
  · have hend : f.size ≤ offset + m := by omega
    rw [read_of_size_le f hend, List.append_nil]
    have hleft : min m (f.size - offset) = min (m + n) (f.size - offset) := by omega
    unfold read
    rw [hleft]

/-- The whole file. -/
def bytes (f : FlatFile α) : List α := f.read 0 f.size

theorem read_all (f : FlatFile α) {n : ℕ} (h : f.size ≤ n) :
    f.read 0 n = f.bytes := by
  have hmin : min n (f.size - 0) = min f.size (f.size - 0) := by omega
  unfold bytes read
  rw [hmin]

@[simp] theorem bytes_ofList [Inhabited α] (l : List α) : (ofList l).bytes = l := by
  apply List.ext_getElem
  · simp [bytes, ofList]
  · intro i _ hi
    simp [bytes, read, ofList, hi]

end FlatFile

end Heartix
