import Mathlib.Data.Nat.ModEq
import Mathlib.Tactic.Ring

/-!
Ones' complement arithmetic in a base: a carry out of the highest place is added at
the lowest one. Sums are determined by their remainder modulo `b - 1` and by whether
they are zero. Carries may therefore be added at the end, and the two halves of all
words may be exchanged.
-/

namespace Heartix.OnesComplement

def add (b x y : ℕ) : ℕ := if x + y < b then x + y else x + y - b + 1

def sum (b : ℕ) (words : List ℕ) : ℕ := words.foldl (add b) 0

/-- Adds the carries until there is none. -/
def fold (b n : ℕ) : ℕ := if _ : 1 < b ∧ b ≤ n then fold b (n % b + n / b) else n
termination_by n
decreasing_by
  obtain ⟨hb, hn⟩ := ‹1 < b ∧ b ≤ n›
  have hpos := Nat.div_pos hn (by omega)
  have hmul := Nat.mul_le_mul_right (n / b) hb
  have hdiv := Nat.div_add_mod n b
  omega

variable {b : ℕ}

/-- The words with the same remainder are 0 and `b - 1`, and otherwise equal. -/
theorem eq_of_modEq {x y : ℕ} (hx : x < b) (hy : y < b) (hmod : x ≡ y [MOD b - 1])
    (hzero : x = 0 ↔ y = 0) : x = y := by
  rcases Nat.eq_zero_or_pos x with rfl | hxpos
  · exact (hzero.mp rfl).symm
  · have hypos : 0 < y := Nat.pos_of_ne_zero fun h => hxpos.ne' (hzero.mpr h)
    have hpred : x - 1 ≡ y - 1 [MOD b - 1] := by
      apply Nat.ModEq.add_right_cancel' 1
      rwa [Nat.sub_add_cancel hxpos, Nat.sub_add_cancel hypos]
    have heq := hpred.eq_of_lt_of_lt (by omega) (by omega)
    omega

theorem add_modEq (hb : 1 < b) (x y : ℕ) : add b x y ≡ x + y [MOD b - 1] := by
  unfold add
  split
  · exact Nat.ModEq.refl _
  · have hsum : x + y = x + y - b + 1 + (b - 1) := by omega
    have hright : x + y - b + 1 ≡ x + y - b + 1 + (b - 1) [MOD b - 1] :=
      (Nat.add_modEq_right).symm
    rwa [← hsum] at hright

theorem add_lt (hb : 1 < b) {x y : ℕ} (hx : x < b) (hy : y < b) : add b x y < b := by
  unfold add
  split
  · assumption
  · omega

theorem add_eq_zero (hb : 1 < b) (x y : ℕ) : add b x y = 0 ↔ x + y = 0 := by
  unfold add
  split
  · exact Iff.rfl
  · omega

section Sum

variable {words : List ℕ}

theorem foldl_add_lt (hb : 1 < b) (hwords : ∀ w ∈ words, w < b) {s : ℕ} (hs : s < b) :
    words.foldl (add b) s < b := by
  induction words generalizing s with
  | nil => exact hs
  | cons w words ih =>
    obtain ⟨hw, hrest⟩ := List.forall_mem_cons.mp hwords
    exact ih hrest (add_lt hb hs hw)

theorem foldl_add_modEq (hb : 1 < b) (words : List ℕ) (s : ℕ) :
    words.foldl (add b) s ≡ s + words.sum [MOD b - 1] := by
  induction words generalizing s with
  | nil => exact Nat.ModEq.refl s
  | cons w words ih =>
    rw [List.foldl_cons, List.sum_cons, ← Nat.add_assoc]
    exact (ih (add b s w)).trans ((add_modEq hb s w).add_right words.sum)

theorem foldl_add_eq_zero (hb : 1 < b) (words : List ℕ) (s : ℕ) :
    words.foldl (add b) s = 0 ↔ s + words.sum = 0 := by
  induction words generalizing s with
  | nil => exact Iff.rfl
  | cons w words ih =>
    rw [List.foldl_cons, ih, List.sum_cons, ← Nat.add_assoc, Nat.add_eq_zero_iff, add_eq_zero hb]
    omega

theorem sum_lt (hb : 1 < b) (hwords : ∀ w ∈ words, w < b) : sum b words < b :=
  foldl_add_lt hb hwords (by omega)

theorem sum_modEq (hb : 1 < b) (words : List ℕ) : sum b words ≡ words.sum [MOD b - 1] := by
  have hmod := foldl_add_modEq hb words 0
  rwa [Nat.zero_add] at hmod

theorem sum_eq_zero (hb : 1 < b) (words : List ℕ) : sum b words = 0 ↔ words.sum = 0 := by
  have hzero := foldl_add_eq_zero hb words 0
  rwa [Nat.zero_add] at hzero

end Sum

section Fold

variable {m n : ℕ}

theorem fold_of_le (hb : 1 < b) (h : b ≤ n) : fold b n = fold b (n % b + n / b) := by
  rw [fold, dif_pos ⟨hb, h⟩]

theorem fold_of_lt (h : n < b) : fold b n = n := by
  rw [fold, dif_neg fun hle => Nat.not_le.mpr h hle.2]

theorem fold_lt (hb : 1 < b) (n : ℕ) : fold b n < b := by
  induction n using fold.induct b with
  | case1 n h ih => rwa [fold_of_le hb h.2]
  | case2 n h =>
    have hlt : n < b := Nat.not_le.mp fun hle => h ⟨hb, hle⟩
    rwa [fold_of_lt hlt]

theorem base_modEq (hb : 1 < b) : b ≡ 1 [MOD b - 1] := by
  have hsum : b = 1 + (b - 1) := by omega
  have hmod : 1 + (b - 1) ≡ 1 [MOD b - 1] := Nat.add_modEq_right
  rwa [← hsum] at hmod

theorem fold_modEq (hb : 1 < b) (n : ℕ) : fold b n ≡ n [MOD b - 1] := by
  induction n using fold.induct b with
  | case1 n h ih =>
    rw [fold_of_le hb h.2]
    refine ih.trans ?_
    have hdigits : n % b + 1 * (n / b) ≡ n % b + b * (n / b) [MOD b - 1] :=
      ((base_modEq hb).symm.mul_right (n / b)).add_left (n % b)
    rwa [Nat.one_mul, Nat.mod_add_div] at hdigits
  | case2 n h =>
    rw [fold_of_lt (Nat.not_le.mp fun hle => h ⟨hb, hle⟩)]

theorem fold_eq_zero (hb : 1 < b) (n : ℕ) : fold b n = 0 ↔ n = 0 := by
  induction n using fold.induct b with
  | case1 n h ih =>
    rw [fold_of_le hb h.2, ih]
    have hpos := Nat.div_pos h.2 (by omega)
    omega
  | case2 n h =>
    rw [fold_of_lt (Nat.not_le.mp fun hle => h ⟨hb, hle⟩)]

theorem fold_eq_iff (hb : 1 < b) :
    fold b m = fold b n ↔ m ≡ n [MOD b - 1] ∧ (m = 0 ↔ n = 0) := by
  constructor
  · intro heq
    refine ⟨(fold_modEq hb m).symm.trans (heq ▸ fold_modEq hb n), ?_⟩
    rw [← fold_eq_zero hb m, heq, fold_eq_zero hb n]
  · rintro ⟨hmod, hzero⟩
    refine eq_of_modEq (fold_lt hb m) (fold_lt hb n) ?_ ?_
    · exact (fold_modEq hb m).trans (hmod.trans (fold_modEq hb n).symm)
    · rw [fold_eq_zero hb, fold_eq_zero hb, hzero]

/-- The carries may be added at the end. -/
theorem sum_eq_fold (hb : 1 < b) {words : List ℕ} (hwords : ∀ w ∈ words, w < b) :
    sum b words = fold b words.sum := by
  refine eq_of_modEq (sum_lt hb hwords) (fold_lt hb _) ?_ ?_
  · exact (sum_modEq hb words).trans (fold_modEq hb words.sum).symm
  · rw [sum_eq_zero hb, fold_eq_zero hb]

theorem fold_eq_max_iff (hb : 1 < b) : fold b n = b - 1 ↔ b - 1 ∣ n ∧ n ≠ 0 := by
  have hmax : fold b (b - 1) = b - 1 := fold_of_lt (by omega)
  rw [← hmax, fold_eq_iff hb, hmax]
  have hself : n ≡ b - 1 [MOD b - 1] ↔ b - 1 ∣ n := by
    rw [← Nat.modEq_zero_iff_dvd]
    have hzero : b - 1 ≡ 0 [MOD b - 1] := Nat.modEq_zero_iff_dvd.mpr (dvd_refl _)
    exact ⟨fun h => h.trans hzero, fun h => h.trans hzero.symm⟩
  rw [hself]
  refine and_congr_right fun _ => ?_
  omega

end Fold

section Swap

variable {c x q r : ℕ} {words : List ℕ}

/-- A word of two digits in base `c` with its digits exchanged. -/
def swap (c x : ℕ) : ℕ := x % c * c + x / c

theorem swap_digits (hr : r < c) (q : ℕ) : swap c (q * c + r) = r * c + q := by
  have hpos : 0 < c := by omega
  unfold swap
  rw [Nat.mul_comm q c, Nat.mul_add_mod, Nat.mod_eq_of_lt hr, Nat.mul_add_div hpos,
    Nat.div_eq_of_lt hr, Nat.add_zero]

/-- Every word has two digits. -/
theorem exists_digits (hx : x < c * c) : ∃ q r, q < c ∧ r < c ∧ x = q * c + r := by
  have hpos : 0 < c := Nat.pos_of_ne_zero fun h => by simp [h] at hx
  refine ⟨x / c, x % c, Nat.div_lt_of_lt_mul hx, Nat.mod_lt x hpos, ?_⟩
  rw [Nat.mul_comm]
  exact (Nat.div_add_mod x c).symm

theorem digits_lt (hq : q < c) (hr : r < c) : q * c + r < c * c := by
  have hmul := Nat.mul_le_mul_right c (Nat.succ_le_of_lt hq)
  rw [Nat.succ_mul] at hmul
  omega

theorem swap_lt (hx : x < c * c) : swap c x < c * c := by
  obtain ⟨q, r, hq, hr, rfl⟩ := exists_digits hx
  rw [swap_digits hr]
  exact digits_lt hr hq

theorem swap_swap (hx : x < c * c) : swap c (swap c x) = x := by
  obtain ⟨q, r, hq, hr, rfl⟩ := exists_digits hx
  rw [swap_digits hr, swap_digits hq]

theorem swap_zero (c : ℕ) : swap c 0 = 0 := by
  unfold swap
  rw [Nat.zero_mod, Nat.zero_mul, Nat.zero_div]

theorem swap_eq_zero (hx : x < c * c) : swap c x = 0 ↔ x = 0 := by
  constructor
  · intro h
    rw [← swap_swap hx, h, swap_zero]
  · rintro rfl
    exact swap_zero c

/-- The complement of a word is made digit by digit. -/
theorem swap_complement (hx : x < c * c) : swap c (c * c - 1 - x) = c * c - 1 - swap c x := by
  obtain ⟨q, r, hq, hr, rfl⟩ := exists_digits hx
  have hdigits (q r : ℕ) (hq : q < c) (hr : r < c) :
      c * c - 1 - (q * c + r) = (c - 1 - q) * c + (c - 1 - r) := by
    have hmul := Nat.mul_le_mul_right c (Nat.le_sub_one_of_lt hq)
    have hsquare : c * c = (c - 1) * c + c := by
      rw [← Nat.succ_mul, Nat.succ_eq_add_one, Nat.sub_add_cancel (by omega)]
    rw [Nat.sub_mul (c - 1)]
    omega
  rw [hdigits q r hq hr, swap_digits (by omega), swap_digits hr, hdigits r q hr hq]

theorem one_lt_square (hc : 1 < c) : 1 < c * c := hc.trans_le (Nat.le_mul_self c)

/-- Exchanging the digits multiplies by the base of the digits. -/
theorem swap_modEq (hc : 1 < c) (x : ℕ) : swap c x ≡ c * x [MOD c * c - 1] := by
  have hbase := base_modEq (one_lt_square hc)
  have hdigits : c * x = x % c * c + c * c * (x / c) := by
    calc c * x = c * (x % c + c * (x / c)) := by rw [Nat.mod_add_div]
      _ = x % c * c + c * c * (x / c) := by ring
  have hmod := (hbase.symm.mul_right (x / c)).add_left (x % c * c)
  rw [Nat.one_mul] at hmod
  rw [hdigits]
  exact hmod

theorem sum_swap_modEq (hc : 1 < c) (words : List ℕ) :
    (words.map (swap c)).sum ≡ c * words.sum [MOD c * c - 1] := by
  induction words with
  | nil => exact Nat.ModEq.refl 0
  | cons w words ih =>
    rw [List.map_cons, List.sum_cons, List.sum_cons, Nat.mul_add]
    exact (swap_modEq hc w).add ih

theorem sum_swap_eq_zero (hwords : ∀ w ∈ words, w < c * c) :
    (words.map (swap c)).sum = 0 ↔ words.sum = 0 := by
  induction words with
  | nil => exact Iff.rfl
  | cons w words ih =>
    obtain ⟨hw, hrest⟩ := List.forall_mem_cons.mp hwords
    rw [List.map_cons, List.sum_cons, List.sum_cons, Nat.add_eq_zero_iff, Nat.add_eq_zero_iff,
      swap_eq_zero hw, ih hrest]

/-- The digits of all words may be exchanged. -/
theorem sum_map_swap (hc : 1 < c) (hwords : ∀ w ∈ words, w < c * c) :
    sum (c * c) (words.map (swap c)) = swap c (sum (c * c) words) := by
  have hb := one_lt_square hc
  have hswapped : ∀ w ∈ words.map (swap c), w < c * c := by
    intro w hw
    obtain ⟨v, hv, rfl⟩ := List.mem_map.mp hw
    exact swap_lt (hwords v hv)
  have hlt := sum_lt hb hwords
  refine eq_of_modEq (sum_lt hb hswapped) (swap_lt hlt) ?_ ?_
  · refine (sum_modEq hb _).trans ((sum_swap_modEq hc words).trans ?_)
    exact ((sum_modEq hb words).symm.mul_left c).trans (swap_modEq hc _).symm
  · rw [sum_eq_zero hb, sum_swap_eq_zero hwords, swap_eq_zero hlt, sum_eq_zero hb]

end Swap

end Heartix.OnesComplement
