import Mathlib.Data.Nat.Basic
import Mathlib.Data.List.Basic
import Mathlib.Tactic.IntervalCases

/-!
Decimal notation as bytes. The text of a number is built from the last digit
backwards, so what a reader computes from it digit by digit is shown by the
induction rule at the end.
-/

namespace Heartix.Decimal

/-- The byte of a digit. -/
def digit (d : ℕ) : UInt8 := '0'.toUInt8 + d.toUInt8

/-- A number in decimal notation. -/
def text (n : ℕ) : List UInt8 := (Nat.toDigits 10 n).map Char.toUInt8

/-- A signed number in decimal notation. -/
def signedText (n : ℤ) : List UInt8 :=
  if n < 0 then '-'.toUInt8 :: text n.natAbs else text n.natAbs

theorem signedText_natCast (n : ℕ) : signedText (n : ℤ) = text n := by
  unfold signedText
  rw [if_neg (Int.not_lt.mpr (Int.natCast_nonneg n)), Int.natAbs_natCast]

theorem digitChar_toUInt8 {d : ℕ} (hd : d < 10) : d.digitChar.toUInt8 = digit d := by
  interval_cases d <;> rfl

theorem toNat_digit {d : ℕ} (hd : d < 10) : (digit d).toNat = 48 + d := by
  interval_cases d <;> rfl

theorem text_of_lt {d : ℕ} (hd : d < 10) : text d = [digit d] := by
  unfold text
  rw [Nat.toDigits_of_lt_base hd, List.map_singleton, digitChar_toUInt8 hd]

theorem text_append_digit {n d : ℕ} (hn : 0 < n) (hd : d < 10) :
    text (10 * n + d) = text n ++ [digit d] := by
  have hdiv : (10 * n + d) / 10 = n := by omega
  have hmod : (10 * n + d) % 10 = d := by omega
  unfold text
  rw [Nat.toDigits_of_base_le (by omega) (by omega), hdiv, hmod, List.map_append,
    List.map_singleton, digitChar_toUInt8 hd]

/-- Induction along the digits of a number. -/
theorem text_induction {motive : ℕ → List UInt8 → Prop}
    (hdigit : ∀ d, d < 10 → motive d [digit d])
    (hmore : ∀ n d, d < 10 → motive n (text n) → motive (10 * n + d) (text n ++ [digit d]))
    (n : ℕ) : motive n (text n) := by
  induction n using Nat.strong_induction_on with
  | _ n ih =>
    by_cases hn : n < 10
    · rw [text_of_lt hn]
      exact hdigit n hn
    · have hlast : n % 10 < 10 := Nat.mod_lt n (by omega)
      have hsplit : n = 10 * (n / 10) + n % 10 := (Nat.div_add_mod n 10).symm
      have hmotive := hmore (n / 10) (n % 10) hlast (ih (n / 10) (by omega))
      rw [← text_append_digit (by omega) hlast, ← hsplit] at hmotive
      exact hmotive

end Heartix.Decimal
