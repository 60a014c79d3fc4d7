import Mathlib.Data.List.DropRight
import Mathlib.Data.List.TakeWhile

/-!
A list with a place in it, as two lists: what is before the place, from the place
backwards, and what is after it. Editing at the place changes the two heads only,
so the place never leaves the list.
-/

namespace Heartix.Editing

structure Zipper (α : Type*) where
  before : List α
  after : List α
  deriving DecidableEq

namespace Zipper

variable {α : Type*}

def toList (z : Zipper α) : List α := z.before.reverse ++ z.after

def position (z : Zipper α) : ℕ := z.before.length

/-- The place at the start of a list. -/
def ofList (l : List α) : Zipper α := ⟨[], l⟩

def insert (a : α) (z : Zipper α) : Zipper α := ⟨a :: z.before, z.after⟩

/-- Deletes the element before the place. -/
def delete (z : Zipper α) : Zipper α := ⟨z.before.tail, z.after⟩

def left : Zipper α → Zipper α
  | ⟨[], after⟩ => ⟨[], after⟩
  | ⟨a :: before, after⟩ => ⟨before, a :: after⟩

def right : Zipper α → Zipper α
  | ⟨before, []⟩ => ⟨before, []⟩
  | ⟨before, a :: after⟩ => ⟨a :: before, after⟩

/-- The elements directly before the place that meet a condition. -/
def word (p : α → Bool) (z : Zipper α) : List α := (z.before.takeWhile p).reverse

/-- Another word in place of these. -/
def replaceWord (p : α → Bool) (w : List α) (z : Zipper α) : Zipper α :=
  ⟨w.reverse ++ z.before.dropWhile p, z.after⟩

variable {z : Zipper α} {a : α} {p : α → Bool} {w : List α}

theorem length_toList (z : Zipper α) : z.toList.length = z.position + z.after.length := by
  rw [toList, List.length_append, List.length_reverse, position]

theorem take_position (z : Zipper α) : z.toList.take z.position = z.before.reverse :=
  List.take_left' (List.length_reverse)

theorem drop_position (z : Zipper α) : z.toList.drop z.position = z.after :=
  List.drop_left' (List.length_reverse)

/-- The element before the place. -/
theorem take_pred_position (h : z.before = a :: w) :
    z.toList.take (z.position - 1) = w.reverse ∧ z.toList[z.position - 1]? = some a := by
  have hlen : z.position - 1 = w.reverse.length := by
    rw [position, h, List.length_cons, List.length_reverse, Nat.add_sub_cancel]
  have hlist : z.toList = w.reverse ++ a :: z.after := by
    rw [toList, h, List.reverse_cons, List.append_assoc, List.singleton_append]
  rw [hlen, hlist]
  exact ⟨List.take_left, by rw [List.getElem?_append_right le_rfl, Nat.sub_self]; rfl⟩

/-- The element after the place. -/
theorem getElem?_position (h : z.after = a :: w) : z.toList[z.position]? = some a := by
  have hlen : z.position = z.before.reverse.length := List.length_reverse.symm
  rw [toList, h, hlen, List.getElem?_append_right le_rfl, Nat.sub_self]
  rfl

theorem toList_insert : (z.insert a).toList = z.before.reverse ++ a :: z.after := by
  rw [toList, insert, List.reverse_cons, List.append_assoc, List.singleton_append]

theorem toList_left : z.left.toList = z.toList := by
  obtain ⟨before, after⟩ := z
  cases before with
  | nil => rfl
  | cons a before =>
    rw [left, toList, toList, List.reverse_cons, List.append_assoc, List.singleton_append]

theorem toList_right : z.right.toList = z.toList := by
  obtain ⟨before, after⟩ := z
  cases after with
  | nil => rfl
  | cons a after =>
    rw [right, toList, toList, List.reverse_cons, List.append_assoc, List.singleton_append]

theorem word_eq : z.word p = (z.toList.take z.position).rtakeWhile p := by
  rw [take_position, List.rtakeWhile_reverse, word]

theorem length_word_le : (z.word p).length ≤ z.position := by
  rw [word, List.length_reverse]
  exact (List.takeWhile_prefix p).length_le

/-- Only the word is replaced. -/
theorem toList_replaceWord :
    (z.replaceWord p w).toList =
      z.toList.take (z.position - (z.word p).length) ++ w ++ z.after := by
  have hsplit := List.takeWhile_append_dropWhile (p := p) (l := z.before)
  have hlen : z.position - (z.word p).length = (z.before.dropWhile p).reverse.length := by
    have hsum := congrArg List.length hsplit
    rw [List.length_append] at hsum
    rw [position, word, List.length_reverse, List.length_reverse]
    omega
  have hlist : z.toList = (z.before.dropWhile p).reverse ++ (z.word p ++ z.after) := by
    rw [toList, word, ← List.append_assoc, ← List.reverse_append, hsplit]
  rw [hlen, hlist, List.take_left, toList, replaceWord, List.reverse_append, List.reverse_reverse]

theorem position_replaceWord :
    (z.replaceWord p w).position = z.position - (z.word p).length + w.length := by
  have hsum := congrArg List.length (List.takeWhile_append_dropWhile (p := p) (l := z.before))
  rw [List.length_append] at hsum
  rw [position, position, replaceWord, word, List.length_append, List.length_reverse,
    List.length_reverse]
  omega

end Zipper

end Heartix.Editing
