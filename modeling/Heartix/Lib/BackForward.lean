import Heartix.Lib.Zipper

/-!
The history of a browser: the place is behind the page that is shown, so that
what is before the place is the way back and what is after it the way forward.
A visit gives up the way forward. A program that keeps the pages in one list,
and how many of them lead to the one that is shown, does the same.
-/

namespace Heartix.Editing.BackForward

variable {α : Type*}

/-- The page that is shown. -/
def current (h : Zipper α) : Option α := h.before.head?

def visit (a : α) (h : Zipper α) : Zipper α := ⟨a :: h.before, []⟩

/-- One page back, if there is one. -/
def back (h : Zipper α) : Zipper α := if h.before.tail.isEmpty then h else h.left

/-- One page forward, if there is one. -/
def forward (h : Zipper α) : Zipper α := h.right

/-- The history whose first `n` pages lead to the one that is shown. -/
def upTo (l : List α) (n : ℕ) : Zipper α := ⟨(l.take n).reverse, l.drop n⟩

section

variable {l : List α} {n : ℕ}

theorem toList_upTo (l : List α) (n : ℕ) : (upTo l n).toList = l := by
  rw [Zipper.toList, upTo, List.reverse_reverse, List.take_append_drop]

theorem position_upTo (h : n ≤ l.length) : (upTo l n).position = n := by
  rw [Zipper.position, upTo, List.length_reverse, List.length_take, Nat.min_eq_left h]

/-- The first pages determine the history. -/
theorem upTo_inj {l' : List α} {n' : ℕ} (hn : n ≤ l.length) (hn' : n' ≤ l'.length) :
    upTo l n = upTo l' n' ↔ l = l' ∧ n = n' := by
  constructor
  · intro h
    constructor
    · rw [← toList_upTo l n, h, toList_upTo]
    · rw [← position_upTo hn, h, position_upTo hn']
  · rintro ⟨rfl, rfl⟩
    rfl

theorem take_succ_reverse (h : n < l.length) :
    (l.take (n + 1)).reverse = l[n] :: (l.take n).reverse := by
  rw [List.take_add_one, List.getElem?_eq_getElem h, Option.toList_some, List.reverse_append,
    List.reverse_singleton, List.singleton_append]

theorem current_succ (h : n < l.length) : current (upTo l (n + 1)) = some l[n] := by
  rw [current, upTo, take_succ_reverse h, List.head?_cons]

theorem visit_upTo (a : α) (h : n ≤ l.length) :
    visit a (upTo l n) = upTo (l.take n ++ [a]) (n + 1) := by
  have hlen : (l.take n ++ [a]).length = n + 1 := by
    rw [List.length_append, List.length_take, Nat.min_eq_left h, List.length_singleton]
  rw [visit, upTo, upTo, List.take_of_length_le hlen.le, List.drop_of_length_le hlen.le,
    List.reverse_append, List.reverse_singleton, List.singleton_append]

theorem back_upTo (h : n + 1 < l.length) : back (upTo l (n + 2)) = upTo l (n + 1) := by
  have hlong := take_succ_reverse h
  have hshort := take_succ_reverse (Nat.lt_of_succ_lt h)
  rw [back, upTo, hlong, List.tail_cons, hshort, List.isEmpty_cons, if_neg Bool.false_ne_true,
    Zipper.left, upTo, hshort, ← List.drop_eq_getElem_cons h]

theorem back_upTo_first (h : n ≤ 1) : back (upTo l n) = upTo l n := by
  have htail : (l.take n).reverse.tail = [] := by
    apply List.eq_nil_of_length_eq_zero
    rw [List.length_tail, List.length_reverse, List.length_take]
    omega
  rw [back, upTo, htail]
  rfl

theorem forward_upTo (h : n < l.length) : forward (upTo l n) = upTo l (n + 1) := by
  rw [forward, upTo, List.drop_eq_getElem_cons h, Zipper.right, upTo, take_succ_reverse h]

theorem forward_upTo_last (h : l.length ≤ n) : forward (upTo l n) = upTo l n := by
  rw [forward, upTo, List.drop_of_length_le h, Zipper.right]

/-- There is a way back exactly if two pages lead to the one that is shown. -/
theorem back_ne_iff (h : n ≤ l.length) : back (upTo l n) ≠ upTo l n ↔ 1 < n := by
  constructor
  · intro hne
    by_contra hle
    exact hne (back_upTo_first (Nat.le_of_not_lt hle))
  · intro hlt
    obtain ⟨m, rfl⟩ := Nat.exists_eq_add_of_le' hlt
    rw [back_upTo (by omega), ne_eq, upTo_inj (by omega) h]
    omega

theorem forward_ne_iff (h : n ≤ l.length) : forward (upTo l n) ≠ upTo l n ↔ n < l.length := by
  constructor
  · intro hne
    by_contra hle
    exact hne (forward_upTo_last (Nat.le_of_not_lt hle))
  · intro hlt
    rw [forward_upTo hlt, ne_eq, upTo_inj hlt h]
    omega

end

end Heartix.Editing.BackForward
