import Mathlib.Data.Nat.Digits.Defs

/-!
Positional numerals, written from the most significant digit on.
-/

namespace Heartix.Numeral

/-- What some more digits make of a number. -/
def extend (base n : ℕ) (ds : List ℕ) : ℕ := ds.foldl (fun n d => n * base + d) n

/-- The value of a numeral. -/
def value (base : ℕ) (ds : List ℕ) : ℕ := extend base 0 ds

variable {base n : ℕ} {ds : List ℕ}

@[simp] theorem extend_nil : extend base n [] = n := rfl

@[simp] theorem extend_cons {d : ℕ} :
    extend base n (d :: ds) = extend base (n * base + d) ds := rfl

theorem le_extend (hbase : 0 < base) : n ≤ extend base n ds := by
  induction ds generalizing n with
  | nil => exact Nat.le_refl n
  | cons d ds ih =>
    calc n ≤ n * base := Nat.le_mul_of_pos_right n hbase
      _ ≤ n * base + d := Nat.le_add_right _ d
      _ ≤ extend base n (d :: ds) := ih

theorem extend_append (es : List ℕ) :
    extend base n (ds ++ es) = extend base (extend base n ds) es :=
  List.foldl_append

/-- The digits of a number in the other order are a numeral for it. -/
theorem value_reverse_digits (base v : ℕ) : value base (Nat.digits base v).reverse = v := by
  have hvalue (l : List ℕ) : value base l.reverse = Nat.ofDigits base l := by
    induction l with
    | nil => rfl
    | cons d l ih =>
      unfold value at ih ⊢
      rw [List.reverse_cons, extend_append, ih, extend_cons, extend_nil, Nat.ofDigits_cons,
        Nat.mul_comm, Nat.add_comm]
  rw [hvalue, Nat.ofDigits_digits]

end Heartix.Numeral
