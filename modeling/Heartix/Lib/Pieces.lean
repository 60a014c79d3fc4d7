import Mathlib.Data.List.Basic

/-!
Cutting a list into consecutive pieces of a length. Only the last piece may be
shorter, and the empty list is one empty piece. A reader that starts at the end
finds the last piece by the remainder of the length.
-/

namespace Heartix.Pieces

variable {α : Type*} {c : ℕ} {l : List α}

/-- Consecutive pieces of `c` elements, at least one. -/
def pieces (c : ℕ) (l : List α) : List (List α) :=
  if 0 < c ∧ c < l.length then l.take c :: pieces c (l.drop c) else [l]
termination_by l.length
decreasing_by
  rw [List.length_drop]
  omega

theorem pieces_of_le (h : l.length ≤ c) : pieces c l = [l] := by
  rw [pieces, if_neg (by omega)]

theorem pieces_of_lt (hc : 0 < c) (h : c < l.length) :
    pieces c l = l.take c :: pieces c (l.drop c) := by
  rw [pieces, if_pos ⟨hc, h⟩]

/-- How many pieces there are. -/
theorem length_pieces (hc : 0 < c) (l : List α) :
    (pieces c l).length = l.length / c + if l.length ≠ 0 ∧ l.length % c = 0 then 0 else 1 := by
  fun_induction pieces c l with
  | case1 l h ih =>
    have hdiv : l.length / c = (l.length - c) / c + 1 := Nat.div_eq_sub_div hc (by omega)
    have hmod : l.length % c = (l.length - c) % c := Nat.mod_eq_sub_mod (by omega)
    have hne : l.length - c ≠ 0 := by omega
    have hne' : l.length ≠ 0 := by omega
    rw [List.length_cons, ih, List.length_drop, hdiv, hmod]
    simp only [hne, hne', ne_eq, not_false_eq_true, true_and]
    omega
  | case2 l h =>
    rw [List.length_singleton]
    by_cases heq : l.length = c
    · rw [heq, Nat.div_self hc, Nat.mod_self, if_pos ⟨by omega, rfl⟩]
    · rw [Nat.div_eq_of_lt (by omega), Nat.mod_eq_of_lt (by omega)]
      split <;> omega

/-- Where the last piece of a list of `n` elements begins. -/
def lastCut (c n : ℕ) : ℕ := if n % c = 0 then n - c else n - n % c

theorem lastCut_lt (hc : 0 < c) {n : ℕ} (hn : 0 < n) : lastCut c n < n := by
  unfold lastCut
  split <;> omega

theorem lastCut_of_le {n : ℕ} (h : n ≤ c) : lastCut c n = 0 := by
  unfold lastCut
  rcases Nat.lt_or_eq_of_le h with hlt | rfl
  · rw [Nat.mod_eq_of_lt hlt]
    split <;> omega
  · rw [Nat.mod_self, if_pos rfl, Nat.sub_self]

theorem lastCut_add (hc : 0 < c) {n : ℕ} (hn : 0 < n) : lastCut c (c + n) = c + lastCut c n := by
  have hle := Nat.mod_le n c
  unfold lastCut
  rw [Nat.add_mod_left]
  by_cases hzero : n % c = 0
  · have hge := Nat.le_of_dvd hn (Nat.dvd_of_mod_eq_zero hzero)
    rw [if_pos hzero, if_pos hzero]
    omega
  · have hle := Nat.mod_le n c
    rw [if_neg hzero, if_neg hzero]
    omega

theorem le_lastCut (hc : 0 < c) {n : ℕ} (h : c < n) : c ≤ lastCut c n := by
  have hadd := lastCut_add hc (Nat.sub_pos_of_lt h)
  rw [Nat.add_sub_cancel' (Nat.le_of_lt h)] at hadd
  omega

/-- The last piece, and the ones before it. -/
theorem pieces_eq_append (hc : 0 < c) (h : c < l.length) :
    pieces c l = pieces c (l.take (lastCut c l.length)) ++ [l.drop (lastCut c l.length)] := by
  fun_induction pieces c l with
  | case2 l hnot => exact absurd ⟨hc, h⟩ hnot
  | case1 l hlt ih =>
    have hcut : lastCut c l.length = c + lastCut c (l.length - c) := by
      rw [← lastCut_add hc (by omega)]
      congr 1
      omega
    rw [List.length_drop] at ih
    rw [hcut, ← List.drop_drop]
    by_cases hmore : c < l.length - c
    · have hcut' := lastCut_lt hc (Nat.sub_pos_of_lt h)
      have hle := le_lastCut hc hmore
      have hlong : c < (l.take (c + lastCut c (l.length - c))).length := by
        rw [List.length_take]
        omega
      rw [ih hmore, pieces_of_lt hc hlong, List.take_take, List.drop_take,
        Nat.min_eq_left (by omega), Nat.add_sub_cancel_left]
      rfl
    · have hlast : (l.take c).length ≤ c := by
        rw [List.length_take]
        omega
      rw [lastCut_of_le (by omega), pieces_of_le (by rw [List.length_drop]; omega), Nat.add_zero,
        pieces_of_le hlast, List.drop_zero]
      rfl

section Count

variable {n x : ℕ}

/-- How many pieces a list of `n` elements has. -/
def pieceCount (c n : ℕ) : ℕ := n / c + if n ≠ 0 ∧ n % c = 0 then 0 else 1

theorem pieceCount_eq (c n : ℕ) : pieceCount c n = (n - 1) / c + 1 := by
  unfold pieceCount
  cases n with
  | zero => simp
  | succ n =>
    rw [Nat.add_sub_cancel]
    by_cases hmod : (n + 1) % c = 0
    · rw [Nat.succ_div_of_dvd (Nat.dvd_of_mod_eq_zero hmod), if_pos ⟨Nat.succ_ne_zero n, hmod⟩]
    · rw [Nat.succ_div_of_not_dvd (mt Nat.mod_eq_zero_of_dvd hmod), if_neg fun h => hmod h.2]

theorem lastCut_eq (c n : ℕ) : lastCut c n = (pieceCount c n - 1) * c := by
  rw [pieceCount_eq, Nat.add_sub_cancel]
  unfold lastCut
  cases n with
  | zero => simp
  | succ n =>
    have hdecomp := Nat.div_add_mod' (n + 1) c
    rw [Nat.add_sub_cancel]
    by_cases hmod : (n + 1) % c = 0
    · rw [Nat.succ_div_of_dvd (Nat.dvd_of_mod_eq_zero hmod), hmod, Nat.add_mul,
        Nat.one_mul] at hdecomp
      rw [if_pos hmod]
      omega
    · rw [Nat.succ_div_of_not_dvd (mt Nat.mod_eq_zero_of_dvd hmod)] at hdecomp
      rw [if_neg hmod]
      omega

theorem pieceCount_of_le (hc : 0 < c) (h : n ≤ c) : pieceCount c n = 1 := by
  rw [pieceCount_eq, Nat.div_eq_of_lt (by omega)]

/-- The pieces before the last one. -/
theorem pieceCount_lastCut (hc : 0 < c) (h : c < n) :
    pieceCount c (lastCut c n) + 1 = pieceCount c n := by
  have hge := le_lastCut hc h
  have hcut := lastCut_eq c n
  rw [pieceCount_eq c n] at hcut ⊢
  rw [Nat.add_sub_cancel] at hcut
  rw [pieceCount_eq, hcut]
  have hpos : 0 < (n - 1) / c := Nat.pos_of_ne_zero fun hzero => by
    rw [hzero, Nat.zero_mul] at hcut
    omega
  have hpred : ((n - 1) / c * c - 1) / c = (n - 1) / c - 1 := by
    apply Nat.div_eq_of_lt_le
    · rw [Nat.sub_mul, Nat.one_mul]
      omega
    · rw [Nat.sub_add_cancel hpos]
      omega
  omega

theorem pieceCount_le (c : ℕ) {m : ℕ} (h : m ≤ n) : pieceCount c m ≤ pieceCount c n := by
  rw [pieceCount_eq, pieceCount_eq]
  exact Nat.succ_le_succ (Nat.div_le_div_right (Nat.sub_le_sub_right h 1))

/-- The number of the piece that a place of the last piece is in. -/
theorem div_of_lastCut (hle : lastCut c n ≤ x) (hlt : x < lastCut c n + c) :
    x / c = pieceCount c n - 1 := by
  rw [lastCut_eq] at hle hlt
  exact Nat.div_eq_of_lt_le hle (by rw [Nat.add_mul, Nat.one_mul]; exact hlt)

end Count

end Heartix.Pieces
