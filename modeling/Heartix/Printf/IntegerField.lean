import Heartix.Lib.Padding
import Heartix.Printf.Field
import Heartix.Printf.Numerals

/-!
The field of the integer conversions: sign, prefix and at least as many digits as
the precision asks for, filled up to the width. The engine does not look at the
precision, writes a sign in front of every number, and puts the zeros of the width
in front of the prefix.
-/

namespace Heartix.Printf

open Padding

namespace Conversion

variable (c : Conversion)

/-- Only a signed conversion writes a sign. -/
def sign (value : ℤ) : List UInt8 :=
  if isSigned c.specifier then
    if value < 0 then ['-'.toUInt8]
    else if c.has .plus then ['+'.toUInt8]
    else if c.has .space then [' '.toUInt8]
    else []
  else []

/-- What `#` puts in front of a hexadecimal number. -/
def hexPrefix : List UInt8 :=
  if c.has .hash ∧ (c.specifier = 'x' ∨ c.specifier = 'X') then
    ['0'.toUInt8, c.specifier.toUInt8]
  else []

/-- The zeros that an octal number with `#` begins with. -/
def octal : ℕ := if c.has .hash ∧ c.specifier = 'o' then 1 else 0

/-- The digits without leading zeros. -/
def number (value : ℤ) : List UInt8 := numeral c.base (c.specifier = 'X') value.natAbs

/-- The zeros in front of the digits. -/
def leading (args : VaList) (value : ℤ) : ℕ :=
  max ((c.limit args).getD 1 - (c.number value).length) c.octal

/-- The field that flags, width and precision describe. -/
def integerField (args : VaList) (value : ℤ) : List UInt8 :=
  let front := c.sign value ++ if value = 0 then [] else c.hexPrefix
  let body := zeros (c.leading args value) ++ c.number value
  let padding := (c.width.value args).natAbs - (front ++ body).length
  if c.has .minus ∨ c.width.value args < 0 then front ++ body ++ blanks padding
  else if c.has .zero ∧ c.limit args = none then front ++ zeros padding ++ body
  else blanks padding ++ (front ++ body)

/-- How many digits a number has by itself. -/
def ownDigits (value : ℤ) : ℕ := max 1 (c.number value).length + c.octal

/-- How many digits are asked for. -/
def askedDigits (args : VaList) (value : ℤ) : ℕ :=
  c.leading args value + (c.number value).length

/-- The condition on the width and the digits. -/
def PaddingFits (args : VaList) (value : ℤ) : Prop :=
  let width := c.width.value args
  let own := c.ownDigits value
  let asked := c.askedDigits args value
  let front := (c.sign value).length + c.hexPrefix.length
  if isSigned c.specifier = false ∧ c.has .space = true then
    c.has .minus = false ∧
      if c.has .zero = true then
        (c.limit args).isSome = true ∧ own ≤ asked ∧ (c.hexPrefix = [] ∨ own = asked) ∧
          width = front + asked + 1
      else own = asked ∧ front + own < width
  else if own = asked then
    width.natAbs ≤ front + own ∨ 0 ≤ width ∧
      ¬(c.has .zero = true ∧ c.has .minus = false ∧
        ((c.limit args).isSome = true ∨ c.hexPrefix ≠ []))
  else
    c.has .zero = true ∧ c.has .minus = false ∧ c.hexPrefix = [] ∧
      if (c.limit args).isSome = true then own < asked ∧ width = front + asked
      else front + max (own : ℤ) asked ≤ width

/-- The condition for the field. -/
def IntegerFits (args : VaList) (value : ℤ) : Prop :=
  c.width.value args < 2 ^ 31 ∧ (isSigned c.specifier = false → c.has .plus = false) ∧
    (value = 0 → c.hexPrefix = []) ∧ c.PaddingFits args value

end Conversion

section Shape

variable {c : Conversion} {args : VaList} {word value : BitVec 64}

/-- The blank in front of the number, of whatever kind. -/
def Conversion.lead (c : Conversion) (value : ℤ) : ℕ :=
  if value < 0 ∨ c.has .plus then 0 else if c.has .space then 1 else 0

/-- The other signs. -/
def Conversion.mark (c : Conversion) (value : ℤ) : List UInt8 :=
  if value < 0 then ['-'.toUInt8] else if c.has .plus then ['+'.toUInt8] else []

/-- The characters that the engine writes without padding. -/
def Conversion.writtenLength (c : Conversion) (value : ℤ) : ℕ :=
  c.lead value + (c.mark value).length + c.hexPrefix.length + c.ownDigits value

theorem length_zeros (n : ℕ) : (zeros n).length = n := List.length_replicate

@[simp] theorem zeros_zero : zeros 0 = [] := rfl

@[simp] theorem zeros_add (m n : ℕ) : zeros (m + n) = zeros m ++ zeros n :=
  List.replicate_append_replicate.symm

@[simp] theorem blanks_zero : blanks 0 = [] := rfl

@[simp] theorem blanks_add (m n : ℕ) : blanks (m + n) = blanks m ++ blanks n :=
  List.replicate_append_replicate.symm

theorem padded_blanks (left right : ℕ) (core : List UInt8) :
    padded ' '.toUInt8 left core right = blanks left ++ core ++ blanks right := rfl

theorem text_signSites (args : VaList) (h : Taken c word value) :
    text (signSites (c.spec args).flags (isSigned c.specifier && value.msb)) =
      blanks (c.lead (c.argument word)) ++ c.mark (c.argument word) := by
  rw [h.negative]
  unfold signSites Conversion.lead Conversion.mark
  have hplus : (c.spec args).flags.flagAlwaysPrependSign = c.has .plus := rfl
  have hspace : (c.spec args).flags.flagAlwaysPrependSpacePlussign = c.has .space := rfl
  rw [hplus, hspace]
  by_cases hnegative : c.argument word < 0
  · simp [hnegative, blanks]
  · cases c.has .plus with
    | true => simp [hnegative, blanks]
    | false =>
      cases c.has .space with
      | true => simp [hnegative, blanks]
      | false => simp [hnegative, blanks]

theorem text_additionalSites (hspecifier : c.specifier ≠ 's') :
    text (additionalSites (c.has .hash) c.specifier) = c.hexPrefix ++ zeros c.octal := by
  have hknown := c.known
  unfold additionalSites Conversion.hexPrefix Conversion.octal
  generalize c.specifier = specifier at hspecifier hknown
  generalize c.has .hash = force
  simp only [List.mem_cons, List.not_mem_nil, or_false] at hknown
  rcases hknown with rfl | rfl | rfl | rfl | rfl | rfl | rfl
  · cases force <;> rfl
  · cases force <;> rfl
  · cases force <;> rfl
  · cases force <;> rfl
  · cases force <;> rfl
  · cases force <;> rfl
  · exact absurd rfl hspecifier

/-- The zero that stands for the number zero. -/
def onlyZero (value : ℤ) : ℕ := if value = 0 then 1 else 0

theorem length_number (c : Conversion) (value : ℤ) :
    onlyZero value + (c.number value).length = max 1 (c.number value).length := by
  unfold onlyZero Conversion.number
  rw [length_numeral]
  by_cases hzero : value = 0
  · rw [if_pos hzero, hzero, Int.natAbs_zero, Nat.digits_zero]
    rfl
  · have hlength : 0 < (Nat.digits c.base value.natAbs).length := by
      rw [List.length_pos_iff, Nat.digits_ne_nil_iff_ne_zero]
      omega
    rw [if_neg hzero, Nat.max_eq_right hlength, Nat.zero_add]

/-- How many characters of padding the engine writes. -/
def Conversion.fill (c : Conversion) (args : VaList) (value : ℤ) : ℕ :=
  ((c.spec args).width - c.writtenLength value).toNat

theorem specifier_ne_p (c : Conversion) : c.specifier ≠ 'p' := by
  have hknown := c.known
  rintro heq
  rw [heq] at hknown
  exact absurd hknown (by decide)

/-- The length that the engine computes for sign and prefix. -/
theorem additional_eq (c : Conversion) (value : ℤ) :
    (if (c.has .plus || c.has .space || decide (value < 0)) = true then (1 : ℤ) else 0) +
        (if c.has .hash = true ∧ (c.specifier = 'x' ∨ c.specifier = 'X') then 2 else 0) +
        (if c.has .hash = true ∧ c.specifier = 'o' then 1 else 0) =
      (c.lead value + (c.mark value).length + c.hexPrefix.length + c.octal : ℕ) := by
  have hsign : (if (c.has .plus || c.has .space || decide (value < 0)) = true then (1 : ℤ)
      else 0) = (c.lead value + (c.mark value).length : ℕ) := by
    unfold Conversion.lead Conversion.mark
    by_cases hnegative : value < 0
    · simp [hnegative]
    · cases c.has .plus with
      | true => simp [hnegative]
      | false =>
        cases c.has .space with
        | true => simp [hnegative]
        | false => simp [hnegative]
  have hhex : (if c.has .hash = true ∧ (c.specifier = 'x' ∨ c.specifier = 'X') then (2 : ℤ)
      else 0) = c.hexPrefix.length := by
    unfold Conversion.hexPrefix
    split
    · rfl
    · rfl
  have hoctal : (if c.has .hash = true ∧ c.specifier = 'o' then (1 : ℤ) else 0) = c.octal := by
    unfold Conversion.octal
    split
    · rfl
    · rfl
  rw [hsign, hhex, hoctal]
  omega

theorem text_integerSites (h : Taken c word value) (hspecifier : c.specifier ≠ 's') :
    text (integerSites (c.spec args) value) =
      (if c.has .minus = false ∧ c.has .zero = false then blanks (c.fill args (c.argument word))
        else []) ++
      (blanks (c.lead (c.argument word)) ++ c.mark (c.argument word)) ++
      (if c.has .minus = false ∧ c.has .zero = true then zeros (c.fill args (c.argument word))
        else []) ++
      (c.hexPrefix ++ zeros c.octal) ++
      (zeros (onlyZero (c.argument word)) ++ c.number (c.argument word)) ++
      (if c.has .minus = true then blanks (c.fill args (c.argument word)) else []) := by
  have hsmall : (c.argument word).natAbs < 2 ^ 64 := by
    rw [← h.magnitude]
    exact BitVec.isLt _
  have hnumber := integerToString_numeral c hspecifier hsmall
  have hzero : (if (c.argument word).natAbs = 0 then 1 else 0) = onlyZero (c.argument word) := by
    unfold onlyZero
    simp only [Int.natAbs_eq_zero]
  rw [hzero] at hnumber
  have hlength := length_number c (c.argument word)
  have hsign := text_signSites args h
  have hadditional := additional_eq c (c.argument word)
  have hsites : integerSites (c.spec args) value =
      let isnegative := isSigned c.specifier && value.msb
      let specifier := if c.specifier = 'p' then 'x' else c.specifier
      let force := c.specifier = 'p' || c.has .hash
      let number := integerToString (if isnegative then -value else value).toNat
        (baseDigits specifier).1 (baseDigits specifier).2
      let len : ℤ := number.length
      let additionalslen : ℤ :=
        (if c.has .plus || c.has .space || isnegative then 1 else 0) +
        (if force ∧ (specifier = 'x' ∨ specifier = 'X') then 2 else 0) +
        (if force ∧ specifier = 'o' then 1 else 0)
      let width := if (c.spec args).width < len + additionalslen then len + additionalslen
        else (c.spec args).width
      let padding := (width - len - additionalslen).toNat
      (if !c.has .minus && !c.has .zero then repeated padding ' ' else []) ++
      signSites (c.spec args).flags isnegative ++
      (if !c.has .minus && c.has .zero then repeated padding '0' else []) ++
      additionalSites force specifier ++
      [⟨number, len⟩] ++
      (if c.has .minus then repeated padding ' ' else []) := rfl
  rw [hsites]
  dsimp only
  rw [if_neg (specifier_ne_p c), decide_eq_false (specifier_ne_p c), Bool.false_or, h.magnitude,
    hnumber, h.negative, hadditional]
  have hfill : ((if (c.spec args).width <
        ((zeros (onlyZero (c.argument word)) ++ c.number (c.argument word)).length : ℤ) +
          (c.lead (c.argument word) + (c.mark (c.argument word)).length + c.hexPrefix.length +
            c.octal : ℕ) then
        ((zeros (onlyZero (c.argument word)) ++ c.number (c.argument word)).length : ℤ) +
          (c.lead (c.argument word) + (c.mark (c.argument word)).length + c.hexPrefix.length +
            c.octal : ℕ) else (c.spec args).width) -
        ((zeros (onlyZero (c.argument word)) ++ c.number (c.argument word)).length : ℤ) -
        (c.lead (c.argument word) + (c.mark (c.argument word)).length + c.hexPrefix.length +
          c.octal : ℕ)).toNat = c.fill args (c.argument word) := by
    unfold Conversion.fill Conversion.writtenLength Conversion.ownDigits
    rw [List.length_append, length_zeros, hlength]
    split
    · omega
    · omega
  rw [show numeral c.base (decide (c.specifier = 'X')) (c.argument word).natAbs =
    c.number (c.argument word) from rfl, hfill, ← h.negative]
  simp only [text_append, hsign, text_additionalSites hspecifier, text_singleton]
  cases c.has .minus with
  | true => simp [blanks]
  | false =>
    cases c.has .zero with
    | true => simp [zeros]
    | false => simp [blanks]

/-- Where the padding goes: in front, between sign and digits, or behind. -/
def before (minus zero : Bool) (n : ℕ) : ℕ := if minus = false ∧ zero = false then n else 0

def between (minus zero : Bool) (n : ℕ) : ℕ := if minus = false ∧ zero = true then n else 0

def behind (minus : Bool) (n : ℕ) : ℕ := if minus = true then n else 0

/-- The output between the blanks. -/
theorem text_padded (h : Taken c word value) (hspecifier : c.specifier ≠ 's') :
    text (integerSites (c.spec args) value) =
      padded ' '.toUInt8
        (c.lead (c.argument word) +
          before (c.has .minus) (c.has .zero) (c.fill args (c.argument word)))
        (c.mark (c.argument word) ++
          (zeros (between (c.has .minus) (c.has .zero) (c.fill args (c.argument word))) ++
          (c.hexPrefix ++ (zeros (c.octal + onlyZero (c.argument word)) ++
            c.number (c.argument word)))))
        (behind (c.has .minus) (c.fill args (c.argument word))) := by
  rw [text_integerSites h hspecifier, padded_blanks]
  unfold before between behind
  cases c.has .minus with
  | true => simp
  | false =>
    cases c.has .zero with
    | true => simp
    | false =>
      rw [Nat.add_comm (c.lead _)]
      simp

/-- The signs of a signed conversion. -/
def Conversion.signedLead (c : Conversion) (value : ℤ) : ℕ :=
  if isSigned c.specifier then c.lead value else 0

def Conversion.signedMark (c : Conversion) (value : ℤ) : List UInt8 :=
  if isSigned c.specifier then c.mark value else []

theorem sign_eq (c : Conversion) (value : ℤ) :
    c.sign value = blanks (c.signedLead value) ++ c.signedMark value := by
  unfold Conversion.sign Conversion.signedLead Conversion.signedMark Conversion.lead
    Conversion.mark
  cases isSigned c.specifier with
  | false => rfl
  | true =>
    by_cases hnegative : value < 0
    · simp [hnegative, blanks]
    · cases c.has .plus with
      | true => simp [hnegative, blanks]
      | false =>
        cases c.has .space with
        | true => simp [hnegative, blanks]
        | false => simp [hnegative, blanks]

/-- The prefix of the field. -/
def Conversion.askedPrefix (c : Conversion) (value : ℤ) : List UInt8 :=
  if value = 0 then [] else c.hexPrefix

/-- How many characters of padding the field has. -/
def Conversion.askedFill (c : Conversion) (args : VaList) (value : ℤ) : ℕ :=
  (c.width.value args).natAbs -
    ((c.sign value).length + (c.askedPrefix value).length + c.askedDigits args value)

/-- Left-justified, also by a negative width. -/
def Conversion.leftJustified (c : Conversion) (args : VaList) : Bool :=
  c.has .minus || decide (c.width.value args < 0)

/-- The flag `0` where it is not ignored. -/
def Conversion.zeroPadded (c : Conversion) (args : VaList) : Bool :=
  c.has .zero && !(c.limit args).isSome

theorem field_padded (c : Conversion) (args : VaList) (value : ℤ) :
    c.integerField args value =
      padded ' '.toUInt8
        (c.signedLead value +
          before (c.leftJustified args) (c.zeroPadded args) (c.askedFill args value))
        (c.signedMark value ++ (c.askedPrefix value ++
          (zeros (c.leading args value +
            between (c.leftJustified args) (c.zeroPadded args) (c.askedFill args value)) ++
            c.number value)))
        (behind (c.leftJustified args) (c.askedFill args value)) := by
  have hfill : (c.width.value args).natAbs -
      (c.sign value ++ c.askedPrefix value ++
        (zeros (c.leading args value) ++ c.number value)).length = c.askedFill args value := by
    unfold Conversion.askedFill Conversion.askedDigits
    rw [List.length_append, List.length_append, List.length_append, length_zeros]
  have hfront : (if value = 0 then [] else c.hexPrefix) = c.askedPrefix value := rfl
  have hright : c.leftJustified args = true ↔ c.has .minus = true ∨ c.width.value args < 0 := by
    unfold Conversion.leftJustified
    rw [Bool.or_eq_true, decide_eq_true_iff]
  have hzero : c.zeroPadded args = true ↔ c.has .zero = true ∧ c.limit args = none := by
    unfold Conversion.zeroPadded
    rw [Bool.and_eq_true, Bool.not_eq_true', Option.isSome_eq_false_iff, Option.isNone_iff_eq_none]
  rw [padded_blanks]
  unfold Conversion.integerField before between behind
  dsimp only
  rw [hfront, hfill, sign_eq]
  cases hleft : c.leftJustified args with
  | true =>
    rw [if_pos (hright.mp hleft)]
    simp
  | false =>
    rw [if_neg (fun h => Bool.false_ne_true (hleft.symm.trans (hright.mpr h)))]
    cases hpadded : c.zeroPadded args with
    | true =>
      rw [if_pos (hzero.mp hpadded), Nat.add_comm (c.leading args value)]
      simp
    | false =>
      rw [if_neg (fun h => Bool.false_ne_true (hpadded.symm.trans (hzero.mpr h))),
        Nat.add_comm (c.signedLead value)]
      simp

section Core

variable {mark mark' number : List UInt8} {m n : ℕ} {x : UInt8}

theorem plus_not_mem (hplus : '+'.toUInt8 ∉ number) (n : ℕ) : '+'.toUInt8 ∉ zeros n ++ number := by
  rw [List.mem_append]
  rintro (hzero | hnumber)
  · exact absurd (List.eq_of_mem_replicate hzero) (by decide)
  · exact hplus hnumber

/-- Without prefix. -/
theorem core_plain (hmark : mark = mark' ∨ mark = ['+'.toUInt8] ∧ mark' = [])
    (hplus : '+'.toUInt8 ∉ number) :
    mark ++ (zeros m ++ number) = mark' ++ (zeros n ++ number) ↔ mark = mark' ∧ m = n := by
  constructor
  · intro h
    rcases hmark with rfl | ⟨rfl, rfl⟩
    · have hlength := congrArg List.length h
      simp only [List.length_append, length_zeros] at hlength
      exact ⟨rfl, by omega⟩
    · have hmem : '+'.toUInt8 ∈ zeros n ++ number := by
        rw [List.nil_append] at h
        rw [← h]
        exact List.mem_cons_self
      exact absurd hmem (plus_not_mem hplus n)
  · rintro ⟨rfl, rfl⟩
    rfl

/-- Zeros on the wrong side of a prefix. -/
theorem core_hex (hx : x ≠ '0'.toUInt8) (hplus : '+'.toUInt8 ∉ number) (hsign : x ≠ '+'.toUInt8)
    (hmark : mark = mark' ∨ mark = ['+'.toUInt8] ∧ mark' = []) :
    mark ++ (zeros m ++ (['0'.toUInt8, x] ++ number)) =
        mark' ++ (['0'.toUInt8, x] ++ (zeros n ++ number)) ↔
      mark = mark' ∧ m = 0 ∧ n = 0 := by
  constructor
  · intro h
    rcases hmark with rfl | ⟨rfl, rfl⟩
    · have hlength := congrArg List.length h
      simp only [List.length_append, length_zeros] at hlength
      have hsame : m = n := by
        omega
      subst hsame
      rw [List.append_cancel_left_eq] at h
      cases m with
      | zero => exact ⟨rfl, rfl, rfl⟩
      | succ m =>
        have hsecond : some '0'.toUInt8 = some x := by
          cases m with
          | zero => exact congrArg (·[1]?) h
          | succ m => exact congrArg (·[1]?) h
        exact absurd (Option.some.inj hsecond).symm hx
    · have hmem : '+'.toUInt8 ∈ ['0'.toUInt8, x] ++ (zeros n ++ number) := by
        rw [List.nil_append] at h
        rw [← h]
        exact List.mem_cons_self
      rw [List.mem_append] at hmem
      rcases hmem with hfront | hnumber
      · simp only [List.mem_cons, List.not_mem_nil, or_false] at hfront
        rcases hfront with hzero | heq
        · exact absurd hzero (by decide)
        · exact absurd heq.symm hsign
      · exact absurd hnumber (plus_not_mem hplus n)
  · rintro ⟨rfl, rfl, rfl⟩
    rfl

end Core

section Counts

variable (minus zero given : Bool) (width : ℤ) (front own asked : ℕ)

/-- The padding has the right places and size, when it is on the right side of the digits. -/
theorem counts_same (lead : ℕ) :
    (lead + before minus zero (width - front - own).toNat =
        lead + before (minus || decide (width < 0)) (zero && !given)
          (width.natAbs - (front + asked))) ∧
      (between minus zero (width - front - own).toNat + own =
        asked + between (minus || decide (width < 0)) (zero && !given)
          (width.natAbs - (front + asked))) ∧
      (behind minus (width - front - own).toNat =
        behind (minus || decide (width < 0)) (width.natAbs - (front + asked))) ↔
    if own = asked then
      width.natAbs ≤ front + own ∨ 0 ≤ width ∧ ¬(zero = true ∧ minus = false ∧ given = true)
    else zero = true ∧ minus = false ∧
      if given = true then own < asked ∧ width = front + asked
      else front + max (own : ℤ) asked ≤ width := by
  unfold before between behind
  by_cases hwidth : 0 ≤ width
  · have hnot : ¬width < 0 := Int.not_lt.mpr hwidth
    by_cases heq : own = asked
    · subst heq
      cases minus <;> cases zero <;> cases given <;> simp [hwidth, hnot]
      all_goals omega
    · cases minus <;> cases zero <;> cases given <;> simp [hnot, heq]
      all_goals omega
  · have hneg : width < 0 := Int.not_le.mp hwidth
    by_cases heq : own = asked
    · subst heq
      cases minus <;> cases zero <;> cases given <;> simp [hwidth, hneg]
      all_goals omega
    · cases minus <;> cases zero <;> cases given <;> simp [hneg, heq]
      all_goals omega

/-- The blank of an unsigned conversion takes the place of one of the padding. -/
theorem counts_space :
    (1 + before minus zero (width - (front + 1 : ℕ) - own).toNat =
        before (minus || decide (width < 0)) (zero && !given) (width.natAbs - (front + asked))) ∧
      (between minus zero (width - (front + 1 : ℕ) - own).toNat + own =
        asked + between (minus || decide (width < 0)) (zero && !given)
          (width.natAbs - (front + asked))) ∧
      (behind minus (width - (front + 1 : ℕ) - own).toNat =
        behind (minus || decide (width < 0)) (width.natAbs - (front + asked))) ↔
    minus = false ∧
      if zero = true then given = true ∧ own ≤ asked ∧ width = front + asked + 1
      else own = asked ∧ front + own < width := by
  unfold before between behind
  by_cases hwidth : 0 ≤ width
  · have hnot : ¬width < 0 := Int.not_lt.mpr hwidth
    cases minus <;> cases zero <;> cases given <;> simp [hnot]
    all_goals omega
  · have hneg : width < 0 := Int.not_le.mp hwidth
    cases minus <;> cases zero <;> cases given <;> simp [hneg]
    all_goals omega

theorem between_eq_zero :
    between minus zero (width - front - own).toNat = 0 ↔
      ¬(zero = true ∧ minus = false) ∨ width ≤ front + own := by
  unfold between
  cases minus <;> cases zero <;> simp
  omega

/-- Behind a prefix there may be no padding between it and the digits. -/
theorem prefixed_space (bare : Prop) (hdigits : ¬bare → own ≤ asked) :
    (minus = false ∧
        if zero = true then given = true ∧ own ≤ asked ∧ width = front + asked + 1
        else own = asked ∧ front + own < width) ∧
      (bare ∨ ¬(zero = true ∧ minus = false) ∨ width ≤ (front + 1 : ℕ) + own) ↔
    minus = false ∧
      if zero = true then given = true ∧ own ≤ asked ∧ (bare ∨ own = asked) ∧
        width = front + asked + 1
      else own = asked ∧ front + own < width := by
  rw [and_assoc]
  refine and_congr_right fun hminus => ?_
  by_cases hbare : bare
  · simp only [hbare, true_or, and_true, true_and]
  · have hle := hdigits hbare
    simp only [hbare, hminus, false_or, and_true]
    cases zero with
    | true =>
      simp only [not_true_eq_false, false_or, if_true]
      rw [and_assoc]
      refine and_congr_right fun _ => ?_
      omega
    | false => simp

/-- Without the blank, the padding there is none of zeros. -/
theorem prefixed_same (bare : Prop) (hdigits : ¬bare → own ≤ asked) :
    (if own = asked then
        width.natAbs ≤ front + own ∨ 0 ≤ width ∧ ¬(zero = true ∧ minus = false ∧ given = true)
      else zero = true ∧ minus = false ∧
        if given = true then own < asked ∧ width = front + asked
        else front + max (own : ℤ) asked ≤ width) ∧
      (bare ∨ ¬(zero = true ∧ minus = false) ∨ width ≤ front + own) ↔
    if own = asked then
      width.natAbs ≤ front + own ∨
        0 ≤ width ∧ ¬(zero = true ∧ minus = false ∧ (given = true ∨ ¬bare))
    else zero = true ∧ minus = false ∧ bare ∧
      if given = true then own < asked ∧ width = front + asked
      else front + max (own : ℤ) asked ≤ width := by
  by_cases hbare : bare
  · simp only [hbare, true_or, and_true, true_and, not_true_eq_false, or_false]
  · have hle := hdigits hbare
    simp only [hbare, not_false_eq_true, or_true, and_true, false_or, false_and, and_false]
    by_cases heq : own = asked
    · rw [if_pos heq, if_pos heq]
      constructor
      · rintro ⟨hle | ⟨hwidth, -⟩, hor⟩
        · exact Or.inl hle
        · rcases hor with hplace | hfit
          · exact Or.inr ⟨hwidth, hplace⟩
          · left
            omega
      · rintro (hle | ⟨hwidth, hplace⟩)
        · exact ⟨Or.inl hle, Or.inr (by omega)⟩
        · exact ⟨Or.inr ⟨hwidth, fun h => hplace ⟨h.1, h.2.1⟩⟩, Or.inl hplace⟩
    · rw [if_neg heq, if_neg heq]
      refine iff_of_false ?_ not_false
      rintro ⟨⟨hflag, hminus, hcount⟩, hor⟩
      have hfit := hor.resolve_left (not_not_intro ⟨hflag, hminus⟩)
      split at hcount
      · omega
      · omega

end Counts

section Marks

theorem argument_nonneg (hsigned : isSigned c.specifier = false) (word : BitVec 64) :
    0 ≤ c.argument word := by
  unfold Conversion.argument
  rw [hsigned, if_neg Bool.false_ne_true]
  exact Int.natCast_nonneg _

/-- The sign is right on a signed conversion, and otherwise without `+`. -/
theorem mark_cases (c : Conversion) (word : BitVec 64) :
    (isSigned c.specifier = false → c.has .plus = false) ∧
        c.mark (c.argument word) = c.signedMark (c.argument word) ∨
      ¬(isSigned c.specifier = false → c.has .plus = false) ∧
        c.mark (c.argument word) = ['+'.toUInt8] ∧ c.signedMark (c.argument word) = [] := by
  unfold Conversion.signedMark
  cases hsigned : isSigned c.specifier with
  | true => exact Or.inl ⟨fun h => absurd h (by decide), (if_pos rfl).symm⟩
  | false =>
    have hnonneg := argument_nonneg hsigned word
    unfold Conversion.mark
    rw [if_neg (Int.not_lt.mpr hnonneg), if_neg Bool.false_ne_true]
    cases c.has .plus with
    | true => exact Or.inr ⟨by decide, rfl, rfl⟩
    | false => exact Or.inl ⟨fun _ => rfl, rfl⟩

/-- The blank that an unsigned conversion has too much. -/
theorem lead_cases (c : Conversion) (word : BitVec 64)
    (hplus : isSigned c.specifier = false → c.has .plus = false) :
    (isSigned c.specifier = false ∧ c.has .space = true) ∧
        c.lead (c.argument word) = 1 ∧ c.signedLead (c.argument word) = 0 ∨
      ¬(isSigned c.specifier = false ∧ c.has .space = true) ∧
        c.lead (c.argument word) = c.signedLead (c.argument word) := by
  unfold Conversion.signedLead
  cases hsigned : isSigned c.specifier with
  | true => exact Or.inr ⟨fun h => absurd h.1 (by decide), (if_pos rfl).symm⟩
  | false =>
    have hnonneg := argument_nonneg hsigned word
    unfold Conversion.lead
    rw [hplus hsigned, if_neg Bool.false_ne_true]
    cases c.has .space with
    | true => exact Or.inl ⟨⟨rfl, rfl⟩, by simp [hnonneg], rfl⟩
    | false => exact Or.inr ⟨by simp, by simp⟩

end Marks

section Blanks

theorem base_le (c : Conversion) : c.base ≤ 16 := by
  unfold Conversion.base
  split
  · decide
  · split
    · decide
    · decide

theorem not_mem_number (c : Conversion) (v : ℤ) :
    ' '.toUInt8 ∉ c.number v ∧ '+'.toUInt8 ∉ c.number v :=
  ⟨not_mem_numeral _ (one_lt_base c) (base_le c) (by decide),
    not_mem_numeral _ (one_lt_base c) (base_le c) (by decide)⟩

theorem blank_not_mem_zeros (n : ℕ) : ' '.toUInt8 ∉ zeros n := fun h =>
  absurd (List.eq_of_mem_replicate h) (by decide)

theorem blank_not_mem_mark (c : Conversion) (v : ℤ) :
    ' '.toUInt8 ∉ c.mark v ∧ ' '.toUInt8 ∉ c.signedMark v := by
  have hmark : ' '.toUInt8 ∉ c.mark v := by
    unfold Conversion.mark
    split
    · decide
    · split
      · decide
      · decide
  refine ⟨hmark, ?_⟩
  unfold Conversion.signedMark
  split
  · exact hmark
  · exact List.not_mem_nil

/-- A prefix is `0x` or `0X`, in front of an unsigned number. -/
theorem hexPrefix_cases (c : Conversion) :
    c.hexPrefix = [] ∨ c.octal = 0 ∧ isSigned c.specifier = false ∧
      ∃ x, c.hexPrefix = ['0'.toUInt8, x] ∧
        x ≠ ' '.toUInt8 ∧ x ≠ '0'.toUInt8 ∧ x ≠ '+'.toUInt8 := by
  unfold Conversion.hexPrefix Conversion.octal
  split
  · rename_i h
    rcases h.2 with hx | hx
    · exact Or.inr ⟨if_neg (by simp [hx]), by rw [hx]; decide, _, rfl, by rw [hx]; decide⟩
    · exact Or.inr ⟨if_neg (by simp [hx]), by rw [hx]; decide, _, rfl, by rw [hx]; decide⟩
  · exact Or.inl rfl

theorem blank_not_mem_front (c : Conversion) (v : ℤ) :
    ' '.toUInt8 ∉ c.hexPrefix ∧ ' '.toUInt8 ∉ c.askedPrefix v := by
  have hfront : ' '.toUInt8 ∉ c.hexPrefix := by
    rcases hexPrefix_cases c with hnil | ⟨-, -, x, hcons, hblank, -⟩
    · rw [hnil]
      exact List.not_mem_nil
    · rw [hcons]
      simp only [List.mem_cons, List.not_mem_nil, or_false, not_or]
      exact ⟨by decide, hblank.symm⟩
  refine ⟨hfront, ?_⟩
  unfold Conversion.askedPrefix
  split
  · exact List.not_mem_nil
  · exact hfront

/-- There is no blank between the sign and the last digit, and there is a digit. -/
theorem written_core (c : Conversion) (v : ℤ) (n : ℕ) :
    ' '.toUInt8 ∉ c.mark v ++ (zeros n ++ (c.hexPrefix ++ (zeros (c.octal + onlyZero v) ++
        c.number v))) ∧
      c.mark v ++ (zeros n ++ (c.hexPrefix ++ (zeros (c.octal + onlyZero v) ++ c.number v))) ≠
        [] := by
  constructor
  · simp only [List.mem_append, not_or]
    exact ⟨(blank_not_mem_mark c v).1, blank_not_mem_zeros n, (blank_not_mem_front c v).1,
      blank_not_mem_zeros _, (not_mem_number c v).1⟩
  · intro hnil
    have hlength := length_number c v
    have hzero := congrArg List.length hnil
    simp only [List.length_append, length_zeros, List.length_nil] at hzero
    omega

theorem asked_core (c : Conversion) (v : ℤ) (n : ℕ) :
    ' '.toUInt8 ∉ c.signedMark v ++ (c.askedPrefix v ++ (zeros n ++ c.number v)) := by
  simp only [List.mem_append, not_or]
  exact ⟨(blank_not_mem_mark c v).2, (blank_not_mem_front c v).2, blank_not_mem_zeros n,
    (not_mem_number c v).1⟩

/-- The two cores agree where the sign is right, the number zero has no prefix, and no
zero is written in front of a prefix. -/
theorem core_iff (c : Conversion) (word : BitVec 64) (m n : ℕ) :
    c.mark (c.argument word) ++ (zeros m ++ (c.hexPrefix ++
          (zeros (c.octal + onlyZero (c.argument word)) ++ c.number (c.argument word)))) =
        c.signedMark (c.argument word) ++ (c.askedPrefix (c.argument word) ++
          (zeros n ++ c.number (c.argument word))) ↔
      (isSigned c.specifier = false → c.has .plus = false) ∧
        (c.argument word = 0 → c.hexPrefix = []) ∧
        m + c.ownDigits (c.argument word) = n + (c.number (c.argument word)).length ∧
        (c.hexPrefix = [] ∨ m = 0) := by
  have hown : c.ownDigits (c.argument word) =
      c.octal + onlyZero (c.argument word) + (c.number (c.argument word)).length := by
    unfold Conversion.ownDigits
    rw [← length_number]
    omega
  have hplus := (not_mem_number c (c.argument word)).2
  have hmark : c.mark (c.argument word) = c.signedMark (c.argument word) ∨
      c.mark (c.argument word) = ['+'.toUInt8] ∧ c.signedMark (c.argument word) = [] := by
    rcases mark_cases c word with ⟨-, h⟩ | ⟨-, h⟩
    · exact Or.inl h
    · exact Or.inr h
  have hmark_iff : c.mark (c.argument word) = c.signedMark (c.argument word) ↔
      (isSigned c.specifier = false → c.has .plus = false) := by
    rcases mark_cases c word with ⟨hright, h⟩ | ⟨hwrong, hone, hnone⟩
    · exact iff_of_true h hright
    · refine iff_of_false ?_ hwrong
      rw [hone, hnone]
      exact List.cons_ne_nil _ _
  unfold Conversion.askedPrefix
  rcases hexPrefix_cases c with hnil | ⟨hoctal, hsigned, x, hcons, -, hx, hsign⟩
  · rw [hnil, ite_self, List.nil_append, List.nil_append, ← List.append_assoc (zeros m),
      ← zeros_add, core_plain hmark hplus, hmark_iff, hown]
    refine and_congr_right fun _ => ?_
    simp only [implies_true, true_and, true_or, and_true]
    omega
  · by_cases hzero : c.argument word = 0
    · refine iff_of_false ?_ ?_
      · have hmark : c.signedMark (c.argument word) = [] := by
          unfold Conversion.signedMark
          rw [hsigned]
          rfl
        have hnumber : c.number (c.argument word) = [] := by
          unfold Conversion.number numeral
          rw [hzero, Int.natAbs_zero, Nat.digits_zero]
          rfl
        rw [if_pos hzero, hmark, hnumber, List.nil_append, List.nil_append, List.append_nil,
          List.append_nil]
        intro h
        have hmem : x ∈ zeros n := by
          rw [← h, hcons]
          simp
        exact hx (List.eq_of_mem_replicate hmem)
      · rintro ⟨-, himp, -⟩
        rw [hcons] at himp
        exact List.cons_ne_nil _ _ (himp hzero)
    · have honly : onlyZero (c.argument word) = 0 := if_neg hzero
      rw [if_neg hzero, hoctal, honly, hcons, Nat.add_zero, zeros_zero, List.nil_append,
        core_hex hx hplus hsign hmark, hmark_iff, hown, hoctal, honly]
      refine and_congr_right fun _ => ?_
      simp only [hzero, false_implies, true_and, List.cons_ne_nil, false_or]
      omega

end Blanks

/-- Digits enough for every number that is written. -/
theorem length_number_le (c : Conversion) {v : ℤ} (hv : v.natAbs < 2 ^ 64) :
    (c.number v).length ≤ 64 := by
  unfold Conversion.number
  rw [length_numeral, Nat.digits_length_le_iff (one_lt_base c)]
  exact lt_of_lt_of_le hv (Nat.pow_le_pow_left (one_lt_base c) 64)

theorem padding_sum (minus zero : Bool) (n : ℕ) :
    before minus zero n + between minus zero n + behind minus n = n := by
  unfold before between behind
  cases minus <;> cases zero <;> simp

theorem length_written (c : Conversion) {v : ℤ} (hv : v.natAbs < 2 ^ 64) :
    c.writtenLength v < 2 ^ 31 := by
  have hnumber := length_number_le c hv
  have hlead : c.lead v ≤ 1 := by
    unfold Conversion.lead
    split
    · exact Nat.zero_le 1
    · split
      · exact Nat.le_refl 1
      · exact Nat.zero_le 1
  have hmark : (c.mark v).length ≤ 1 := by
    unfold Conversion.mark
    split
    · exact Nat.le_refl 1
    · split
      · exact Nat.le_refl 1
      · exact Nat.zero_le 1
  have hfront : c.hexPrefix.length ≤ 2 := by
    rcases hexPrefix_cases c with hnil | ⟨-, -, x, hcons, -⟩
    · rw [hnil]
      exact Nat.zero_le 2
    · rw [hcons]
      exact Nat.le_refl 2
  have hoctal : c.octal ≤ 1 := by
    unfold Conversion.octal
    split
    · exact Nat.le_refl 1
    · exact Nat.zero_le 1
  unfold Conversion.writtenLength Conversion.ownDigits
  omega

/-- The output is never as long as a width that is no `int`. -/
theorem width_of_text (h : Taken c word value) (hspecifier : c.specifier ≠ 's')
    (htext : text (integerSites (c.spec args) value) =
      c.integerField args (c.argument word)) : c.width.value args < 2 ^ 31 := by
  have hsmall : (c.argument word).natAbs < 2 ^ 64 := by
    rw [← h.magnitude]
    exact BitVec.isLt _
  have hwritten := length_written c hsmall
  have hwidth : (c.spec args).width < 2 ^ 31 := by
    rw [c.spec_width]
    exact (bmod_bounds _).2
  have hzero := length_number c (c.argument word)
  have hsum := padding_sum (c.has .minus) (c.has .zero) (c.fill args (c.argument word))
  have hsum' := padding_sum (c.leftJustified args) (c.zeroPadded args)
    (c.askedFill args (c.argument word))
  have hsign := congrArg List.length (sign_eq c (c.argument word))
  have hlength := congrArg List.length htext
  rw [text_padded h hspecifier, field_padded, length_padded, length_padded] at hlength
  simp only [List.length_append, length_zeros, length_blanks] at hlength hsign
  unfold Conversion.fill at hsum hlength
  unfold Conversion.askedFill Conversion.askedDigits at hsum' hlength
  unfold Conversion.writtenLength Conversion.ownDigits at *
  omega

/-- The padding of the field and of the output, and the zeros in front of a prefix. -/
theorem padding_iff (word : BitVec 64) (hnarrow : c.width.value args < 2 ^ 31)
    (hplus : isSigned c.specifier = false → c.has .plus = false)
    (hfront : c.argument word = 0 → c.hexPrefix = []) :
    (c.lead (c.argument word) +
            before (c.has .minus) (c.has .zero) (c.fill args (c.argument word)) =
          c.signedLead (c.argument word) + before (c.leftJustified args) (c.zeroPadded args)
            (c.askedFill args (c.argument word)) ∧
        between (c.has .minus) (c.has .zero) (c.fill args (c.argument word)) +
            c.ownDigits (c.argument word) =
          c.askedDigits args (c.argument word) + between (c.leftJustified args)
            (c.zeroPadded args) (c.askedFill args (c.argument word)) ∧
        behind (c.has .minus) (c.fill args (c.argument word)) =
          behind (c.leftJustified args) (c.askedFill args (c.argument word))) ∧
      (c.hexPrefix = [] ∨
        between (c.has .minus) (c.has .zero) (c.fill args (c.argument word)) = 0) ↔
    c.PaddingFits args (c.argument word) := by
  have hw : (c.spec args).width = c.width.value args := by
    have hge := c.width.value_ge args
    rw [c.spec_width, Int.bmod_eq_of_le (by omega) (by omega)]
  have hasked : (c.askedPrefix (c.argument word)).length = c.hexPrefix.length := by
    unfold Conversion.askedPrefix
    split
    · rw [hfront ‹_›]
    · rfl
  have hmark : c.mark (c.argument word) = c.signedMark (c.argument word) := by
    rcases mark_cases c word with ⟨-, h⟩ | ⟨hwrong, -⟩
    · exact h
    · exact absurd hplus hwrong
  have hsign := congrArg List.length (sign_eq c (c.argument word))
  rw [List.length_append, length_blanks, ← hmark] at hsign
  have hdigits : c.hexPrefix ≠ [] →
      c.ownDigits (c.argument word) ≤ c.askedDigits args (c.argument word) := by
    intro hne
    have honly : onlyZero (c.argument word) = 0 := if_neg fun hzero => hne (hfront hzero)
    have hown := length_number c (c.argument word)
    have hoctal : c.octal ≤ c.leading args (c.argument word) := Nat.le_max_right _ _
    unfold Conversion.ownDigits Conversion.askedDigits
    omega
  unfold Conversion.PaddingFits Conversion.fill Conversion.writtenLength Conversion.askedFill
    Conversion.leftJustified Conversion.zeroPadded
  dsimp only
  rw [hw, hasked, hsign]
  generalize c.width.value args = width
  generalize c.has .minus = minus
  generalize c.has .zero = zero
  generalize (c.limit args).isSome = given
  generalize c.ownDigits (c.argument word) = own at hdigits ⊢
  generalize c.askedDigits args (c.argument word) = asked at hdigits ⊢
  generalize c.hexPrefix = pre at hdigits ⊢
  rcases lead_cases c word hplus with ⟨hspace, hone, hnone⟩ | ⟨hspace, hsame⟩
  · rw [if_pos hspace, hone, hnone]
    generalize (c.mark (c.argument word)).length = sign
    have hspace := counts_space minus zero given width (sign + pre.length) own asked
    have hzero := between_eq_zero minus zero width (sign + pre.length + 1) own
    have hfill : width - ((1 + sign + pre.length + own : ℕ) : ℤ) =
        width - ((sign + pre.length + 1 : ℕ) : ℤ) - own := by
      omega
    rw [Nat.zero_add, Nat.zero_add, hfill, hspace, hzero]
    exact prefixed_space minus zero given width _ own asked (pre = []) hdigits
  · rw [if_neg hspace, hsame]
    generalize c.signedLead (c.argument word) = lead
    generalize (c.mark (c.argument word)).length = sign
    have hsame := counts_same minus zero given width (lead + sign + pre.length) own asked lead
    have hzero := between_eq_zero minus zero width (lead + sign + pre.length) own
    have hfill : width - ((lead + sign + pre.length + own : ℕ) : ℤ) =
        width - ((lead + sign + pre.length : ℕ) : ℤ) - own := by
      omega
    rw [hfill, hsame, hzero]
    exact prefixed_same minus zero given width _ own asked (pre = []) hdigits

/-- The bytes of an integer conversion are the field exactly on the condition. -/
theorem text_eq_field_iff (h : Taken c word value) (hspecifier : c.specifier ≠ 's') :
    text (integerSites (c.spec args) value) = c.integerField args (c.argument word) ↔
      c.IntegerFits args (c.argument word) := by
  have hcore := written_core c (c.argument word)
    (between (c.has .minus) (c.has .zero) (c.fill args (c.argument word)))
  unfold Conversion.IntegerFits
  by_cases hnarrow : c.width.value args < 2 ^ 31
  · rw [and_iff_right hnarrow, text_padded h hspecifier, field_padded,
      padded_inj hcore.1 (asked_core c _ _) hcore.2, core_iff]
    have hshape {A B C D P Q : Prop} : A ∧ (P ∧ Q ∧ B ∧ C) ∧ D ↔ P ∧ Q ∧ (A ∧ B ∧ D) ∧ C := by
      tauto
    rw [hshape]
    refine and_congr_right fun hplus => and_congr_right fun hfront => ?_
    rw [← padding_iff word hnarrow hplus hfront, Nat.add_right_comm]
    rfl
  · exact iff_of_false (fun htext => hnarrow (width_of_text h hspecifier htext)) fun hfits =>
      hnarrow hfits.1

theorem convert_integer (strings : BitVec 64 → List UInt8) (args' : VaList)
    (h : Taken c args'.next value) (hspecifier : c.specifier ≠ 's') :
    convert strings (c.spec args) args' =
      (.sites (integerSites (c.spec args) value), args'.rest) := by
  have hknown := c.known
  have hread := h.read
  have hkind : (c.spec args).specifier = c.specifier := rfl
  have hsize : (c.spec args).length = c.length := rfl
  simp only [List.mem_cons, List.not_mem_nil, or_false] at hknown
  rcases hknown with heq | heq | heq | heq | heq | heq | heq
  · rw [heq] at hread hkind
    simp only [convert, hkind, hsize, hread]
  · rw [heq] at hread hkind
    simp only [convert, hkind, hsize, hread]
  · rw [heq] at hread hkind
    simp only [convert, hkind, hsize, hread]
  · rw [heq] at hread hkind
    simp only [convert, hkind, hsize, hread]
  · rw [heq] at hread hkind
    simp only [convert, hkind, hsize, hread]
  · rw [heq] at hread hkind
    simp only [convert, hkind, hsize, hread]
  · exact absurd heq hspecifier

end Shape

/-- An integer conversion writes the field exactly on this condition. -/
theorem integer_field_iff (strings : BitVec 64 → List UInt8) (c : Conversion)
    (rest : List UInt8) (args : VaList) (hspecifier : c.specifier ≠ 's')
    (hlength : c.length ≠ .L) :
    ∃ sites, directive strings ('%'.toUInt8 :: (c.bytes ++ rest)) args =
        (.sites sites, c.specifier.toUInt8 :: rest, (c.valueArgs args).rest) ∧
      (text sites = c.integerField args (c.argument (c.valueArgs args).next) ↔
        c.IntegerFits args (c.argument (c.valueArgs args).next)) := by
  obtain ⟨value, htaken⟩ := taken c (c.valueArgs args).next hlength
  refine ⟨_, ?_, text_eq_field_iff htaken hspecifier⟩
  rw [c.directive_bytes, convert_integer strings (c.valueArgs args) htaken hspecifier]

/-- `%-12d` -/
def leftOfTwelve : Conversion where
  flags := [.minus]
  width := .digits 1 [2]
  precision := none
  length := .default
  specifier := 'd'
  width_ne_zero := by simp
  known := by decide

/-- `%.3d` -/
def threeDigits : Conversion where
  flags := []
  width := .omitted
  precision := some (.digits 3 [])
  length := .default
  specifier := 'd'
  width_ne_zero := by simp
  known := by decide

/-- The least `int`. -/
theorem integer_field_leftOfTwelve :
    ∃ sites, directive (fun _ => []) ("%-12d".toList.map Char.toUInt8)
          ⟨fun _ => 0x80000000, 0⟩ = (.sites sites, ['d'.toUInt8], ⟨fun _ => 0x80000000, 1⟩) ∧
      text sites = leftOfTwelve.integerField ⟨fun _ => 0x80000000, 0⟩ (-2147483648) := by
  obtain ⟨sites, hdirective, hfield⟩ := integer_field_iff (fun _ => []) leftOfTwelve []
    ⟨fun _ => 0x80000000, 0⟩ (by decide) (by simp [leftOfTwelve])
  refine ⟨sites, hdirective, hfield.mpr ?_⟩
  refine ⟨by decide, by decide, by decide, ?_⟩
  unfold Conversion.PaddingFits
  decide

/-- The precision is not looked at. -/
theorem integer_field_threeDigits :
    ∃ sites args, directive (fun _ => []) ("%.3d".toList.map Char.toUInt8) ⟨fun _ => 5, 0⟩ =
        (.sites sites, ['d'.toUInt8], args) ∧
      text sites = "5".toList.map Char.toUInt8 ∧
      threeDigits.integerField ⟨fun _ => 5, 0⟩ 5 = "005".toList.map Char.toUInt8 :=
  ⟨_, _, rfl, by decide, by decide⟩

end Heartix.Printf
