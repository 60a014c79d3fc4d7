import Mathlib.Data.List.Basic
import Mathlib.Tactic.Linarith

/-!
Overwriting a block of a list at an offset that lies inside the list or at its
end. A block that reaches past the end extends the list. This is what storing
into an array, moving memory and writing to a file have in common.
-/

namespace Heartix.Overwrite

variable {α : Type*}

def overwrite (l : List α) (offset : ℕ) (block : List α) : List α :=
  l.take offset ++ block ++ l.drop (offset + block.length)

@[simp] theorem overwrite_nil (l : List α) (offset : ℕ) : overwrite l offset [] = l := by
  simp [overwrite]

theorem length_overwrite {l : List α} {offset : ℕ} {block : List α}
    (h : offset + block.length ≤ l.length) :
    (overwrite l offset block).length = l.length := by
  simp only [overwrite, List.length_append, List.length_take, List.length_drop]
  omega

/-- Up to the end of the block the result is the old front and the block. -/
theorem take_overwrite_end {l : List α} {offset : ℕ} (hoffset : offset ≤ l.length)
    (block : List α) :
    (overwrite l offset block).take (offset + block.length) = l.take offset ++ block := by
  have hlen : (l.take offset ++ block).length = offset + block.length := by
    simp only [List.length_append, List.length_take, Nat.min_eq_left hoffset]
  rw [overwrite, ← hlen, List.take_left]

/-- Reading at the offset yields the block and then the old contents. -/
theorem drop_overwrite {l : List α} {offset : ℕ} (hoffset : offset ≤ l.length)
    (block : List α) :
    (overwrite l offset block).drop offset = block ++ l.drop (offset + block.length) := by
  have hlen : (l.take offset).length = offset := by
    simp only [List.length_take, Nat.min_eq_left hoffset]
  rw [overwrite, List.append_assoc, List.drop_append, hlen]
  simp

/-- Reading back the block. -/
theorem drop_take_overwrite {l : List α} {offset : ℕ} (hoffset : offset ≤ l.length)
    (block : List α) :
    ((overwrite l offset block).take (offset + block.length)).drop offset = block := by
  have hlen : (l.take offset).length = offset := by
    simp only [List.length_take, Nat.min_eq_left hoffset]
  rw [take_overwrite_end hoffset, List.drop_append, hlen, Nat.sub_self]
  simp

/-- Storing one element is an overwrite by a block of one. -/
theorem set_eq_overwrite {l : List α} {i : ℕ} (hi : i < l.length) (a : α) :
    l.set i a = overwrite l i [a] := by
  rw [overwrite, List.set_eq_take_append_cons_drop, if_pos hi]
  simp

theorem drop_set_self {l : List α} {i : ℕ} (hi : i < l.length) (a : α) :
    (l.set i a).drop i = a :: l.drop (i + 1) := by
  rw [List.drop_set, if_neg (lt_irrefl i), Nat.sub_self, List.drop_eq_getElem_cons hi]
  rfl

/-- Storing the element behind a block and then the block stores both. -/
theorem overwrite_set_end {l block : List α} {offset : ℕ} (h : offset + block.length < l.length)
    (a : α) :
    overwrite (l.set (offset + block.length) a) offset block =
      overwrite l offset (block ++ [a]) := by
  unfold overwrite
  rw [List.take_set_of_le (Nat.le_add_right _ _), drop_set_self h, List.length_append,
    List.length_singleton, List.append_assoc, List.append_assoc, List.append_assoc]
  rfl

/-- Storing an element and then the block behind it stores both. -/
theorem overwrite_set_front {l block : List α} {offset : ℕ} (h : offset < l.length) (a : α) :
    overwrite (l.set offset a) (offset + 1) block = overwrite l offset (a :: block) := by
  have hfront : (l.set offset a).take (offset + 1) = l.take offset ++ [a] := by
    rw [List.take_add_one, List.take_set_of_le le_rfl, List.getElem?_set_self h]
    rfl
  unfold overwrite
  rw [hfront, List.drop_set_of_lt (by omega), List.length_cons, List.append_assoc,
    List.append_assoc, List.append_assoc, Nat.add_right_comm, Nat.add_assoc]
  rfl

/-- Inside the block the result is the block, elsewhere the old list. -/
theorem getElem?_overwrite {l block : List α} {offset : ℕ} (h : offset + block.length ≤ l.length)
    (i : ℕ) :
    (overwrite l offset block)[i]? =
      if offset ≤ i ∧ i < offset + block.length then block[i - offset]? else l[i]? := by
  have hlen : (l.take offset).length = offset := by
    rw [List.length_take]
    omega
  unfold overwrite
  rw [List.append_assoc]
  by_cases hfront : i < offset
  · rw [List.getElem?_append_left (by omega), List.getElem?_take_of_lt hfront, if_neg (by omega)]
  · rw [List.getElem?_append_right (by omega), hlen]
    by_cases hblock : i < offset + block.length
    · rw [List.getElem?_append_left (by omega), if_pos ⟨by omega, hblock⟩]
    · rw [List.getElem?_append_right (by omega), List.getElem?_drop, if_neg (by omega)]
      congr 1
      omega

/-- A block and the block behind it are stored like both at once. -/
theorem overwrite_overwrite {l a b : List α} {offset : ℕ} (h : offset + a.length ≤ l.length) :
    overwrite (overwrite l offset a) (offset + a.length) b = overwrite l offset (a ++ b) := by
  have hdrop : (overwrite l offset a).drop (offset + a.length + b.length) =
      l.drop (offset + (a ++ b).length) := by
    rw [Nat.add_assoc, ← List.drop_drop, drop_overwrite (by omega), List.drop_append,
      List.drop_of_length_le (by omega), List.nil_append, Nat.add_sub_cancel_left, List.drop_drop,
      List.length_append, Nat.add_assoc]
  rw [overwrite, take_overwrite_end (by omega), hdrop, List.append_assoc, List.append_assoc,
    overwrite, List.append_assoc, List.append_assoc]

/-- What lies behind the block is the old list. -/
theorem drop_overwrite_of_le {l block : List α} {offset k : ℕ} (hoffset : offset ≤ l.length)
    (hk : offset + block.length ≤ k) : (overwrite l offset block).drop k = l.drop k := by
  obtain ⟨n, rfl⟩ := Nat.exists_eq_add_of_le hk
  rw [Nat.add_assoc, ← List.drop_drop, drop_overwrite hoffset, List.drop_append,
    List.drop_of_length_le (by omega), List.nil_append, Nat.add_sub_cancel_left, List.drop_drop,
    Nat.add_assoc]

end Heartix.Overwrite
