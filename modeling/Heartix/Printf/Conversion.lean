import Heartix.Lib.Numeral
import Heartix.Printf.Text

/-!
The conversions of a format as they are written: flags in any order and number, a
width and a precision in digits or from the arguments, a length modifier and a
specifier. The engine reads back what has been written, but for the numbers, which
it keeps in an `int`.
-/

namespace Heartix.Printf

open Numeral

inductive Flag where
  | minus | plus | space | hash | zero
  deriving DecidableEq

def Flag.byte : Flag → UInt8
  | .minus => '-'.toUInt8
  | .plus => '+'.toUInt8
  | .space => ' '.toUInt8
  | .hash => '#'.toUInt8
  | .zero => '0'.toUInt8

/-- A width or a precision. -/
inductive Amount where
  | omitted
  | digits (first : Fin 10) (more : List (Fin 10))
  | argument

instance neZero_ten : NeZero 10 := ⟨by decide⟩

theorem Amount.omitted_ne (more : List (Fin 10)) : Amount.omitted ≠ .digits 0 more :=
  Amount.noConfusion

def digitByte (d : Fin 10) : UInt8 := '0'.toUInt8 + d.val.toUInt8

namespace Amount

def bytes : Amount → List UInt8
  | omitted => []
  | digits first more => (first :: more).map digitByte
  | argument => ['*'.toUInt8]

/-- The number that is written or passed. -/
def value (args : VaList) : Amount → ℤ
  | omitted => 0
  | digits first more => Numeral.value 10 ((first :: more).map Fin.val)
  | argument => args.nextInt

/-- The number that the engine takes for it. -/
def read (missing : ℤ) (args : VaList) : Amount → ℤ
  | omitted => missing
  | digits first more => (Numeral.value 10 ((first :: more).map Fin.val) : ℤ).bmod (2 ^ 32)
  | argument => args.nextInt

/-- The arguments that are left. -/
def rest (args : VaList) : Amount → VaList
  | argument => args.rest
  | _ => args

end Amount

def Length.bytes : Length → List UInt8
  | .default => []
  | .hh => ['h'.toUInt8, 'h'.toUInt8]
  | .h => ['h'.toUInt8]
  | .l => ['l'.toUInt8]
  | .ll => ['l'.toUInt8, 'l'.toUInt8]
  | .j => ['j'.toUInt8]
  | .z => ['z'.toUInt8]
  | .t => ['t'.toUInt8]
  | .L => ['L'.toUInt8]

/-- A conversion of an integer or a string. A `0` in front of the width would be a
flag. -/
structure Conversion where
  flags : List Flag
  width : Amount
  precision : Option Amount
  length : Length
  specifier : Char
  width_ne_zero : ∀ more, width ≠ .digits 0 more
  known : specifier ∈ ['d', 'i', 'u', 'o', 'x', 'X', 's']

namespace Conversion

def precisionBytes (c : Conversion) : List UInt8 :=
  match c.precision with
  | none => []
  | some p => '.'.toUInt8 :: p.bytes

/-- What follows `%`. -/
def bytes (c : Conversion) : List UInt8 :=
  c.flags.map Flag.byte ++ (c.width.bytes ++ (c.precisionBytes ++
    (c.length.bytes ++ [c.specifier.toUInt8])))

/-- The arguments behind the width. -/
def precisionArgs (c : Conversion) (args : VaList) : VaList := c.width.rest args

/-- The arguments behind the width and the precision. -/
def valueArgs (c : Conversion) (args : VaList) : VaList :=
  match c.precision with
  | none => c.precisionArgs args
  | some p => p.rest (c.precisionArgs args)

def has (c : Conversion) (flag : Flag) : Bool := flag ∈ c.flags

/-- What the engine reads. -/
def spec (c : Conversion) (args : VaList) : Spec where
  flags := ⟨c.has .minus, c.has .plus, c.has .space, c.has .hash, c.has .zero⟩
  width := c.width.read 0 args
  precision :=
    match c.precision with
    | none => 6
    | some p => p.read 6 (c.precisionArgs args)
  explicitPrecision := c.precision.isSome
  length := c.length
  specifier := c.specifier

end Conversion

section Read

theorem toNat_ofUInt8 (c : UInt8) : (Char.ofUInt8 c).toNat = c.toNat := rfl

/-- A string that does not begin with one of these bytes, and does not end here. -/
def BeginsOutside (l : List ℕ) (s : List UInt8) : Prop := ∃ c rest, s = c :: rest ∧ c.toNat ∉ l

/-- The bytes of the flags, of `*`, and of the digits. -/
def flagBytes : List ℕ := [45, 43, 32, 35, 48]

def amountBytes : List ℕ := [42, 48, 49, 50, 51, 52, 53, 54, 55, 56, 57]

variable {s : List UInt8} {args : VaList}

theorem set_eq_none (flags : Flags) {c : UInt8} (h : c.toNat ∉ flagBytes) :
    flags.set c = none := by
  have hchar {x : Char} (heq : Char.ofUInt8 c = x) : c.toNat = x.toNat := by
    rw [← heq, toNat_ofUInt8]
  unfold Flags.set
  split
  · exact absurd (hchar ‹_› ▸ by decide) h
  · exact absurd (hchar ‹_› ▸ by decide) h
  · exact absurd (hchar ‹_› ▸ by decide) h
  · exact absurd (hchar ‹_› ▸ by decide) h
  · exact absurd (hchar ‹_› ▸ by decide) h
  · rfl

/-- The flags that are written are added. -/
def Flags.add (f : Flags) (flags : List Flag) : Flags :=
  ⟨f.flagLeftJustify || decide (Flag.minus ∈ flags),
    f.flagAlwaysPrependSign || decide (Flag.plus ∈ flags),
    f.flagAlwaysPrependSpacePlussign || decide (Flag.space ∈ flags),
    f.flagForce0xOrDec || decide (Flag.hash ∈ flags),
    f.flagLeftPadZeroes || decide (Flag.zero ∈ flags)⟩

theorem add_nil (f : Flags) : f.add [] = f := by
  unfold Flags.add
  simp

theorem set_add (f : Flags) (flag : Flag) (flags : List Flag) :
    ∃ g, f.set flag.byte = some g ∧ g.add flags = f.add (flag :: flags) := by
  cases flag with
  | minus => exact ⟨_, rfl, by simp [Flags.add]⟩
  | plus => exact ⟨_, rfl, by simp [Flags.add]⟩
  | space => exact ⟨_, rfl, by simp [Flags.add]⟩
  | hash => exact ⟨_, rfl, by simp [Flags.add]⟩
  | zero => exact ⟨_, rfl, by simp [Flags.add]⟩

theorem readFlags_bytes (flags : List Flag) (f : Flags) (hs : BeginsOutside flagBytes s) :
    readFlags f (flags.map Flag.byte ++ s) = some (f.add flags, s) := by
  obtain ⟨c, rest, rfl, hc⟩ := hs
  induction flags generalizing f with
  | nil =>
    rw [add_nil, List.map_nil, List.nil_append, readFlags, set_eq_none f hc]
  | cons flag flags ih =>
    obtain ⟨g, hset, hadd⟩ := set_add f flag flags
    have hne : flags.map Flag.byte ++ c :: rest ≠ [] := by
      intro hnil
      cases (List.append_eq_nil_iff.mp hnil).2
    rw [List.map_cons, List.cons_append, readFlags, hset]
    dsimp only
    rw [if_neg hne, ih, hadd]

theorem isDigit_eq_false {c : UInt8} (h : c.toNat ∉ amountBytes) : isDigit c = false := by
  unfold isDigit
  rw [decide_eq_false_iff_not, UInt8.le_iff_toNat_le, UInt8.le_iff_toNat_le]
  rintro ⟨hlow, hhigh⟩
  have hlow : 48 ≤ c.toNat := hlow
  have hhigh : c.toNat ≤ 57 := hhigh
  unfold amountBytes at h
  simp only [List.mem_cons, List.not_mem_nil, or_false] at h
  omega

theorem toNat_digitByte (d : Fin 10) : (digitByte d).toNat = 48 + d.val := by
  decide +revert

theorem isDigit_digitByte (d : Fin 10) : isDigit (digitByte d) = true := by
  decide +revert

theorem digitByte_ne_star (d : Fin 10) : digitByte d ≠ '*'.toUInt8 := by
  decide +revert

theorem digitByte_not_percent (d : Fin 10) : (digitByte d).toNat ∉ [37] := by
  decide +revert

theorem digitByte_not_flag (d : Fin 10) (hd : d ≠ 0) : (digitByte d).toNat ∉ flagBytes := by
  decide +revert

theorem getNumber_digits (ds : List (Fin 10)) (n : ℕ) (hs : BeginsOutside amountBytes s) :
    getNumber ((n : ℤ).bmod (2 ^ 32)) (ds.map digitByte ++ s) =
      ((extend 10 n (ds.map Fin.val) : ℤ).bmod (2 ^ 32), s) := by
  obtain ⟨c, rest, rfl, hc⟩ := hs
  induction ds generalizing n with
  | nil =>
    rw [List.map_nil, List.nil_append, getNumber, isDigit_eq_false hc,
      if_neg Bool.false_ne_true]
    rfl
  | cons d ds ih =>
    have hstep : (((n : ℤ).bmod (2 ^ 32) * 10).bmod (2 ^ 32) +
        ((digitByte d).toNat - 48)).bmod (2 ^ 32) =
        ((n * 10 + d.val : ℕ) : ℤ).bmod (2 ^ 32) := by
      rw [Int.bmod_mul_bmod, Int.bmod_add_bmod, toNat_digitByte]
      congr 1
      omega
    rw [List.map_cons, List.cons_append, getNumber, isDigit_digitByte, if_pos rfl, hstep, ih]
    rfl

theorem readNumber_bytes (a : Amount) (missing : ℤ) (args : VaList)
    (hs : BeginsOutside amountBytes s) :
    readNumber missing (a.bytes ++ s) args = some (a.read missing args, s, a.rest args) := by
  cases a with
  | omitted =>
    obtain ⟨c, rest, rfl, hc⟩ := hs
    have hstar : c ≠ '*'.toUInt8 := by
      rintro rfl
      exact hc (by decide)
    show readNumber missing (c :: rest) args = _
    rw [readNumber, if_neg hstar, isDigit_eq_false hc, if_neg Bool.false_ne_true]
    rfl
  | argument =>
    obtain ⟨c, rest, rfl, hc⟩ := hs
    rfl
  | digits first more =>
    have hnumber := getNumber_digits (first :: more) 0 hs
    rw [Nat.cast_zero, Int.zero_bmod] at hnumber
    have hstar : digitByte first ≠ '*'.toUInt8 := digitByte_ne_star first
    rw [List.map_cons, List.cons_append] at hnumber
    show readNumber missing (digitByte first :: (more.map digitByte ++ s)) args = _
    rw [readNumber, if_neg hstar, isDigit_digitByte, if_pos rfl, hnumber]
    rfl

theorem readLength_bytes (length : Length) {specifier : Char}
    (h : specifier ∈ ['d', 'i', 'u', 'o', 'x', 'X', 's']) :
    readLength (length.bytes ++ specifier.toUInt8 :: s) =
      some (length, specifier.toUInt8 :: s) := by
  simp only [List.mem_cons, List.not_mem_nil, or_false] at h
  rcases h with rfl | rfl | rfl | rfl | rfl | rfl | rfl
  all_goals
    cases length with
    | default => rfl
    | hh => rfl
    | h => rfl
    | l => rfl
    | ll => rfl
    | j => rfl
    | z => rfl
    | t => rfl
    | L => rfl

end Read

namespace Conversion

variable (c : Conversion) (rest : List UInt8) (args : VaList)

/-- What is checked for each of the known letters. -/
theorem specifier_of_all (p : Char → Bool)
    (hall : ['d', 'i', 'u', 'o', 'x', 'X', 's'].all p = true) : p c.specifier = true :=
  List.all_eq_true.mp hall _ c.known

theorem beginsOutside_specifier (l : List ℕ) (h : ∀ n ∈ l, n < 65) :
    BeginsOutside l (c.length.bytes ++ c.specifier.toUInt8 :: rest) := by
  have hletter {b : UInt8} (hb : 65 ≤ b.toNat) : b.toNat ∉ l := fun hmem =>
    absurd (h _ hmem) (Nat.not_lt.mpr hb)
  have hspecifier : 65 ≤ c.specifier.toUInt8.toNat :=
    of_decide_eq_true (c.specifier_of_all (fun s => 65 ≤ s.toUInt8.toNat) (by decide))
  cases c.length with
  | default => exact ⟨_, _, rfl, hletter hspecifier⟩
  | _ => exact ⟨_, _, rfl, hletter (by decide)⟩

theorem beginsOutside_precision (l : List ℕ) (h : ∀ n ∈ l, n < 65) (hdot : 46 ∉ l) :
    BeginsOutside l (c.precisionBytes ++ (c.length.bytes ++ c.specifier.toUInt8 :: rest)) := by
  unfold precisionBytes
  split
  · exact c.beginsOutside_specifier rest l h
  · exact ⟨_, _, rfl, hdot⟩

theorem beginsOutside_width :
    BeginsOutside flagBytes (c.width.bytes ++ (c.precisionBytes ++
      (c.length.bytes ++ c.specifier.toUInt8 :: rest))) := by
  have hfirst := c.width_ne_zero
  cases hwidth : c.width with
  | omitted => exact c.beginsOutside_precision rest flagBytes (by decide) (by decide)
  | argument => exact ⟨_, _, rfl, by decide⟩
  | digits first more =>
    refine ⟨digitByte first, _, rfl, ?_⟩
    have hne : first ≠ 0 := by
      rintro rfl
      exact hfirst more hwidth
    exact digitByte_not_flag first hne

theorem bytes_append :
    c.bytes ++ rest = c.flags.map Flag.byte ++ (c.width.bytes ++
      (c.precisionBytes ++ (c.length.bytes ++ c.specifier.toUInt8 :: rest))) := by
  unfold bytes
  simp only [List.append_assoc, List.cons_append, List.nil_append]

theorem readPrecision_bytes :
    readPrecision (c.precisionBytes ++ (c.length.bytes ++ c.specifier.toUInt8 :: rest))
        (c.precisionArgs args) =
      some (((c.spec args).precision, (c.spec args).explicitPrecision),
        c.length.bytes ++ c.specifier.toUInt8 :: rest, c.valueArgs args) := by
  have hdigit := c.beginsOutside_specifier rest amountBytes (by decide)
  unfold precisionBytes spec valueArgs
  cases c.precision with
  | none =>
    obtain ⟨b, tail, heq, hb⟩ := c.beginsOutside_specifier rest [46] (by decide)
    have hne : b ≠ '.'.toUInt8 := by
      rintro rfl
      exact hb (by decide)
    dsimp only
    rw [List.nil_append, heq, readPrecision, List.head?_cons, if_neg (by simpa using hne)]
    rfl
  | some p =>
    have hnumber := readNumber_bytes p 6 (c.precisionArgs args) hdigit
    obtain ⟨b, tail, heq⟩ : ∃ b tail, p.bytes ++ (c.length.bytes ++ c.specifier.toUInt8 :: rest) =
        b :: tail := by
      obtain ⟨b, tail, heq, -⟩ := hdigit
      rw [heq]
      cases p with
      | omitted => exact ⟨_, _, rfl⟩
      | argument => exact ⟨_, _, rfl⟩
      | digits first more => exact ⟨_, _, rfl⟩
    dsimp only
    rw [List.cons_append, heq, readPrecision, List.head?_cons, if_pos rfl, step]
    dsimp only
    rw [← heq, hnumber]
    rfl

/-- The engine reads what has been written. -/
theorem readSpec_bytes :
    readSpec (c.bytes ++ rest) args =
      some (c.spec args, c.specifier.toUInt8 :: rest, c.valueArgs args) := by
  have hwidth : readWidth (c.width.bytes ++ (c.precisionBytes ++
      (c.length.bytes ++ c.specifier.toUInt8 :: rest))) args = _ :=
    readNumber_bytes c.width 0 args
      (c.beginsOutside_precision rest amountBytes (by decide) (by decide))
  unfold readSpec
  rw [bytes_append, readFlags_bytes c.flags noFlags (c.beginsOutside_width rest)]
  dsimp only
  rw [hwidth]
  dsimp only
  rw [show c.width.rest args = c.precisionArgs args from rfl, readPrecision_bytes]
  dsimp only
  rw [readLength_bytes c.length c.known]
  dsimp only
  have hspecifier : Char.ofUInt8 c.specifier.toUInt8 = c.specifier :=
    of_decide_eq_true (c.specifier_of_all (fun s => Char.ofUInt8 s.toUInt8 = s) (by decide))
  have hflags : noFlags.add c.flags = (c.spec args).flags := by
    unfold Flags.add noFlags
    simp only [Bool.false_or]
    rfl
  rw [List.headD_cons, hspecifier, hflags]
  rfl

/-- It does not begin with another `%`. -/
theorem beginsOutside_bytes : BeginsOutside [37] (c.bytes ++ rest) := by
  rw [bytes_append]
  cases c.flags with
  | cons flag flags =>
    refine ⟨flag.byte, _, rfl, ?_⟩
    cases flag with
    | _ => decide
  | nil =>
    rw [List.map_nil, List.nil_append]
    cases c.width with
    | omitted => exact c.beginsOutside_precision rest [37] (by decide) (by decide)
    | argument => exact ⟨_, _, rfl, by decide⟩
    | digits first more => exact ⟨_, _, rfl, digitByte_not_percent first⟩

/-- One round of the engine converts it. -/
theorem directive_bytes (strings : BitVec 64 → List UInt8) :
    directive strings ('%'.toUInt8 :: (c.bytes ++ rest)) args =
      ((convert strings (c.spec args) (c.valueArgs args)).1, c.specifier.toUInt8 :: rest,
        (convert strings (c.spec args) (c.valueArgs args)).2) := by
  obtain ⟨b, tail, heq, hb⟩ := c.beginsOutside_bytes rest
  have hne : b ≠ '%'.toUInt8 := by
    rintro rfl
    exact hb (by decide)
  have hspec := c.readSpec_bytes rest args
  rw [heq] at hspec ⊢
  rw [directive, if_pos rfl, step]
  dsimp only
  rw [List.head?_cons, if_neg (by simpa using hne), hspec]

end Conversion

end Heartix.Printf
