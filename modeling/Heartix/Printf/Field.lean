import Heartix.Printf.Conversion

/-!
What the fields of the conversions have in common: blanks, and the width and the
precision as they are written against the numbers that the engine keeps.
-/

namespace Heartix.Printf

def blanks (n : ℕ) : List UInt8 := List.replicate n ' '.toUInt8

theorem length_blanks (n : ℕ) : (blanks n).length = n := List.length_replicate

namespace Conversion

/-- The precision, if there is one; a negative one is none. -/
def limit (c : Conversion) (args : VaList) : Option ℕ :=
  match c.precision with
  | none => none
  | some p =>
      if p.value (c.precisionArgs args) < 0 then none
      else some (p.value (c.precisionArgs args)).toNat

end Conversion

section Numbers

variable {a : Amount} {args : VaList}

theorem nextInt_bounds (args : VaList) : -2 ^ 31 ≤ args.nextInt ∧ args.nextInt < 2 ^ 31 := by
  unfold VaList.nextInt
  exact ⟨BitVec.le_toInt _, BitVec.toInt_lt⟩

theorem Amount.read_eq {missing : ℤ} (h : a = .omitted → missing = 0) :
    a.read missing args = (a.value args).bmod (2 ^ 32) := by
  cases a with
  | omitted => exact h rfl
  | digits first more => rfl
  | argument =>
    obtain ⟨hlow, hhigh⟩ := nextInt_bounds args
    show args.nextInt = args.nextInt.bmod (2 ^ 32)
    exact (Int.bmod_eq_of_le (by omega) (by omega)).symm

theorem Amount.value_ge (a : Amount) (args : VaList) : -2 ^ 31 ≤ a.value args := by
  cases a with
  | omitted => exact (by decide : (-2 ^ 31 : ℤ) ≤ 0)
  | digits first more =>
    have hnonneg : (0 : ℤ) ≤ (Amount.digits first more).value args := Int.natCast_nonneg _
    omega
  | argument => exact (nextInt_bounds args).1

/-- A number that the engine reads as a natural one is itself or too large. -/
theorem bmod_of_nonneg {n : ℤ} (hn : -2 ^ 31 ≤ n) (h : 0 ≤ n.bmod (2 ^ 32)) :
    0 ≤ n ∧ (n.bmod (2 ^ 32) = n ∨ 2 ^ 32 ≤ n) := by
  rw [Int.bmod_def] at h ⊢
  omega

theorem bmod_bounds (n : ℤ) : -2 ^ 31 ≤ n.bmod (2 ^ 32) ∧ n.bmod (2 ^ 32) < 2 ^ 31 :=
  ⟨Int.le_bmod (by decide), Int.bmod_lt (by decide)⟩

end Numbers

namespace Conversion

variable (c : Conversion) (args : VaList)

theorem spec_width : (c.spec args).width = (c.width.value args).bmod (2 ^ 32) :=
  Amount.read_eq fun _ => rfl

theorem spec_precision {a : Amount} (hsome : c.precision = some a) (hne : a ≠ .omitted) :
    (c.spec args).precision = (a.value (c.precisionArgs args)).bmod (2 ^ 32) := by
  unfold spec
  rw [hsome]
  exact Amount.read_eq fun h => absurd h hne

theorem limit_of_nonneg {a : Amount} (hsome : c.precision = some a)
    (h : 0 ≤ a.value (c.precisionArgs args)) :
    c.limit args = some (a.value (c.precisionArgs args)).toNat := by
  unfold limit
  rw [hsome]
  exact if_neg (Int.not_lt.mpr h)

end Conversion

end Heartix.Printf
