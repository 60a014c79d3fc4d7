import Mathlib.Data.Nat.Digits.Lemmas
import Mathlib.Tactic.IntervalCases
import Heartix.Printf.Conversion

/-!
The numbers that are written: the value of an argument under a length modifier, and
its digits. The engine counts the digits before it writes them from the last one on.
-/

namespace Heartix.Printf

/-- A digit below 16. -/
def numeralByte (upper : Bool) (d : ℕ) : UInt8 :=
  if d < 10 then '0'.toUInt8 + d.toUInt8
  else (if upper then 'A' else 'a').toUInt8 + (d - 10).toUInt8

/-- The digits of a number without leading zeros. Zero has none. -/
def numeral (base : ℕ) (upper : Bool) (n : ℕ) : List UInt8 :=
  (Nat.digits base n).reverse.map (numeralByte upper)

def zeros (n : ℕ) : List UInt8 := List.replicate n '0'.toUInt8

def Length.bits : Length → ℕ
  | .default => 32
  | .hh => 8
  | .h => 16
  | _ => 64

namespace Conversion

variable (c : Conversion)

def base : ℕ :=
  if c.specifier = 'x' ∨ c.specifier = 'X' then 16 else if c.specifier = 'o' then 8 else 10

/-- The argument as the conversion takes it. -/
def argument (word : BitVec 64) : ℤ :=
  if isSigned c.specifier then (word.setWidth c.length.bits).toInt
  else (word.setWidth c.length.bits).toNat

end Conversion

section Digits

variable {base n : ℕ} {digits : List UInt8}

theorem countDigits_eq (hbase : 1 < base) (fuel count : ℕ) (hn : n < base ^ fuel) :
    countDigits base fuel n (count + 1) = count + max 1 (Nat.digits base n).length := by
  induction fuel generalizing n count with
  | zero =>
    have hzero : n = 0 := Nat.lt_one_iff.mp hn
    rw [hzero, Nat.digits_zero]
    rfl
  | succ fuel ih =>
    rw [countDigits]
    by_cases hmore : base ≤ n
    · have hdiv : n / base < base ^ fuel := by
        rw [Nat.div_lt_iff_lt_mul (by omega), ← Nat.pow_succ]
        exact hn
      have hpositive : 0 < n / base := Nat.div_pos hmore (by omega)
      have hlength : 0 < (Nat.digits base (n / base)).length := by
        rw [List.length_pos_iff, Nat.digits_ne_nil_iff_ne_zero]
        omega
      have hdigits : Nat.digits base n = n % base :: Nat.digits base (n / base) :=
        Nat.digits_def' hbase (by omega)
      rw [if_pos hmore, ih _ hdiv, hdigits, List.length_cons]
      omega
    · rw [if_neg hmore]
      by_cases hzero : n = 0
      · rw [hzero, Nat.digits_zero]
        rfl
      · rw [Nat.digits_of_lt base n hzero (by omega)]
        rfl

theorem fillDigits_eq (hbase : 1 < base) (n : ℕ) :
    fillDigits base digits (Nat.digits base n).length n =
      (Nat.digits base n).reverse.map (digits.getD · 0) := by
  induction n using Nat.strong_induction_on with
  | _ n ih =>
    by_cases hzero : n = 0
    · rw [hzero, Nat.digits_zero]
      rfl
    · rw [Nat.digits_def' hbase (by omega), List.length_cons, fillDigits,
        ih (n / base) (Nat.div_lt_self (by omega) hbase), List.reverse_cons, List.map_append]
      rfl

/-- `_integer_to_string` writes the digits, one for zero. -/
theorem integerToString_eq (hbase : 1 < base) (hn : n < 2 ^ 64) :
    integerToString n base digits =
      if n = 0 then [digits.getD 0 0] else (Nat.digits base n).reverse.map (digits.getD · 0) := by
  have hfuel : n < base ^ 64 := lt_of_lt_of_le hn (Nat.pow_le_pow_left hbase 64)
  unfold integerToString
  rw [countDigits_eq hbase 64 0 hfuel, Nat.zero_add]
  by_cases hzero : n = 0
  · rw [if_pos hzero, hzero, Nat.digits_zero]
    simp [fillDigits]
  · have hlength : 0 < (Nat.digits base n).length := by
      rw [List.length_pos_iff, Nat.digits_ne_nil_iff_ne_zero]
      exact hzero
    rw [if_neg hzero, Nat.max_eq_right hlength, fillDigits_eq hbase]

theorem length_numeral (upper : Bool) :
    (numeral base upper n).length = (Nat.digits base n).length := by
  unfold numeral
  rw [List.length_map, List.length_reverse]

/-- The digits that a specifier writes. -/
theorem baseDigits_eq (c : Conversion) (hspecifier : c.specifier ≠ 's') :
    (baseDigits c.specifier).1 = c.base ∧ ∀ d < c.base,
      (baseDigits c.specifier).2.getD d 0 = numeralByte (c.specifier = 'X') d := by
  have hknown := c.known
  unfold Conversion.base
  generalize c.specifier = specifier at hspecifier hknown
  simp only [List.mem_cons, List.not_mem_nil, or_false] at hknown
  rcases hknown with rfl | rfl | rfl | rfl | rfl | rfl | rfl
  · decide
  · decide
  · decide
  · decide
  · decide
  · decide
  · exact absurd rfl hspecifier

theorem one_lt_base (c : Conversion) : 1 < c.base := by
  unfold Conversion.base
  split
  · decide
  · split
    · decide
    · decide

/-- The characters of the number, with the one `0` that stands for zero. -/
theorem integerToString_numeral (c : Conversion) (hspecifier : c.specifier ≠ 's')
    (hn : n < 2 ^ 64) :
    integerToString n (baseDigits c.specifier).1 (baseDigits c.specifier).2 =
      zeros (if n = 0 then 1 else 0) ++ numeral c.base (c.specifier = 'X') n := by
  obtain ⟨hbase, hdigit⟩ := baseDigits_eq c hspecifier
  have hpositive := one_lt_base c
  rw [hbase, integerToString_eq hpositive hn]
  by_cases hzero : n = 0
  · have hfirst := hdigit 0 (by omega)
    rw [if_pos hzero, if_pos hzero, hfirst, hzero]
    unfold numeral
    rw [Nat.digits_zero]
    rfl
  · rw [if_neg hzero, if_neg hzero]
    unfold numeral
    refine List.map_congr_left fun d hd => ?_
    rw [List.mem_reverse] at hd
    exact hdigit d (Nat.digits_lt_base hpositive hd)

theorem numeralByte_mem {upper : Bool} {d : ℕ} (hd : d < 16) :
    numeralByte upper d ∉ [' '.toUInt8, '+'.toUInt8] := by
  interval_cases d <;> cases upper <;> decide

theorem not_mem_numeral (upper : Bool) (hbase : 1 < base) (hlarge : base ≤ 16) {b : UInt8}
    (hb : b ∈ [' '.toUInt8, '+'.toUInt8]) : b ∉ numeral base upper n := by
  unfold numeral
  rw [List.mem_map]
  rintro ⟨d, hd, rfl⟩
  have hless := Nat.digits_lt_base hbase (List.mem_reverse.mp hd)
  exact numeralByte_mem (by omega) hb

end Digits

section Arguments

variable {length : Length} {word : BitVec 64}

theorem signedArgument_eq (word : BitVec 64) (hlength : length ≠ .L) :
    ∃ value, signedArgument length word = some value ∧
      value.toInt = (word.setWidth length.bits).toInt := by
  cases length with
  | default => exact ⟨_, rfl, BitVec.toInt_signExtend_of_le (by decide)⟩
  | hh => exact ⟨_, rfl, BitVec.toInt_signExtend_of_le (by decide)⟩
  | h => exact ⟨_, rfl, BitVec.toInt_signExtend_of_le (by decide)⟩
  | L => exact absurd rfl hlength
  | _ => exact ⟨_, rfl, congrArg BitVec.toInt (BitVec.setWidth_eq word).symm⟩

theorem unsignedArgument_eq (word : BitVec 64) (hlength : length ≠ .L) :
    ∃ value, unsignedArgument length word = some value ∧
      value.toNat = (word.setWidth length.bits).toNat := by
  cases length with
  | default => exact ⟨_, rfl, BitVec.toNat_setWidth_of_le (by decide)⟩
  | hh => exact ⟨_, rfl, BitVec.toNat_setWidth_of_le (by decide)⟩
  | h => exact ⟨_, rfl, BitVec.toNat_setWidth_of_le (by decide)⟩
  | L => exact absurd rfl hlength
  | _ => exact ⟨_, rfl, congrArg BitVec.toNat (BitVec.setWidth_eq word).symm⟩

/-- The sign and the magnitude as the engine takes them, the least number included. -/
theorem magnitude_eq (value : BitVec 64) :
    (if value.msb then -value else value).toNat = value.toInt.natAbs ∧
      (value.msb = true ↔ value.toInt < 0) := by
  have hless := value.isLt
  have hmsb : value.msb = true ↔ value.toInt < 0 := by
    rw [BitVec.msb_eq_toInt, decide_eq_true_iff]
  refine ⟨?_, hmsb⟩
  split
  · rename_i hnegative
    rw [hmsb] at hnegative
    rw [BitVec.toNat_neg]
    rw [BitVec.toInt_eq_toNat_cond] at hnegative ⊢
    split at hnegative
    · omega
    · rw [if_neg ‹_›]
      omega
  · rename_i hnatural
    rw [hmsb] at hnatural
    rw [BitVec.toInt_eq_toNat_cond] at hnatural ⊢
    split at hnatural
    · rw [if_pos ‹_›]
      rfl
    · omega

/-- What the engine takes for the argument. -/
structure Taken (c : Conversion) (word value : BitVec 64) : Prop where
  read : (if isSigned c.specifier then signedArgument else unsignedArgument) c.length word =
    some value
  negative : (isSigned c.specifier && value.msb) = decide (c.argument word < 0)
  magnitude : (if isSigned c.specifier && value.msb then -value else value).toNat =
    (c.argument word).natAbs

theorem taken (c : Conversion) (word : BitVec 64) (hlength : c.length ≠ .L) :
    ∃ value, Taken c word value := by
  cases hsigned : isSigned c.specifier with
  | true =>
    obtain ⟨value, hread, hvalue⟩ := signedArgument_eq word hlength
    have hargument : c.argument word = value.toInt := by
      unfold Conversion.argument
      rw [hsigned, if_pos rfl, hvalue]
    obtain ⟨hmagnitude, hnegative⟩ := magnitude_eq value
    refine ⟨value, ?_, ?_, ?_⟩
    · rw [hsigned, if_pos rfl, hread]
    · rw [hsigned, Bool.true_and, hargument, Bool.eq_iff_iff, decide_eq_true_iff]
      exact hnegative
    · rw [hsigned, Bool.true_and, hargument, hmagnitude]
  | false =>
    obtain ⟨value, hread, hvalue⟩ := unsignedArgument_eq word hlength
    have hargument : c.argument word = value.toNat := by
      unfold Conversion.argument
      rw [hsigned, if_neg Bool.false_ne_true, hvalue]
    refine ⟨value, ?_, ?_, ?_⟩
    · rw [hsigned, if_neg Bool.false_ne_true, hread]
    · rw [hsigned, Bool.false_and, hargument]
      exact (decide_eq_false (Int.not_lt.mpr (Int.natCast_nonneg _))).symm
    · rw [hsigned, Bool.false_and, hargument, if_neg Bool.false_ne_true, Int.natAbs_natCast]

end Arguments

end Heartix.Printf
