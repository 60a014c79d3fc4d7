import Heartix.Printf.Field

/-!
The field of `%s`: as many characters as the precision allows, filled up with
blanks to the width. The engine subtracts lengths as `size_t` and counts the blanks
in an `int`, so that not every width and precision gives this field.
-/

namespace Heartix.Printf

namespace Conversion

/-- The field that a width and a precision describe. -/
def stringField (c : Conversion) (args : VaList) (value : List UInt8) : List UInt8 :=
  let shown := (c.limit args).elim value fun p => value.take p
  let padding := blanks ((c.width.value args).natAbs - shown.length)
  if c.has .minus ∨ c.width.value args < 0 then shown ++ padding else padding ++ shown

end Conversion

/-- The width after it has been compared with the length. -/
def stringWidth (spec : Spec) (value : List UInt8) : ℕ :=
  sizeT (if sizeT spec.width < value.length then (value.length : ℤ).bmod (2 ^ 32) else spec.width)

/-- The number of characters that are written. -/
def stringLen (spec : Spec) (value : List UInt8) : ℕ :=
  if spec.explicitPrecision ∧ sizeT spec.precision < value.length then sizeT spec.precision
  else value.length

/-- No counter of the three loops overflows. -/
structure CountersFit (spec : Spec) (value : List UInt8) : Prop where
  left : spec.flags.flagLeftJustify = false →
    sizeT (stringWidth spec value - value.length) < 2 ^ 31
  expand : spec.explicitPrecision = true → stringLen spec value < sizeT spec.precision →
    sizeT spec.precision - stringLen spec value < 2 ^ 31
  right : spec.flags.flagLeftJustify = true →
    sizeT (stringWidth spec value - stringLen spec value) < 2 ^ 31

theorem rounds_eq {bound : ℕ} (h : bound < 2 ^ 31) : rounds bound = bound := by
  unfold rounds
  omega

/-- The three loops and the characters between them. -/
theorem text_stringSites {spec : Spec} {value : List UInt8} (h : CountersFit spec value) :
    text (stringSites spec value) =
      (if spec.flags.flagLeftJustify = false then
        blanks (sizeT (stringWidth spec value - value.length)) else []) ++
      value.take (stringLen spec value) ++
      (if spec.explicitPrecision = true then
        blanks (sizeT spec.precision - stringLen spec value) else []) ++
      (if spec.flags.flagLeftJustify = true then
        blanks (sizeT (stringWidth spec value - stringLen spec value)) else []) := by
  have hsites : stringSites spec value =
      (if !spec.flags.flagLeftJustify then
        repeated (rounds (sizeT (stringWidth spec value - value.length))) ' ' else []) ++
      [⟨value.take (stringLen spec value), stringLen spec value⟩] ++
      (if spec.explicitPrecision ∧ stringLen spec value < sizeT spec.precision then
        repeated (rounds (sizeT spec.precision - stringLen spec value)) ' ' else []) ++
      (if spec.flags.flagLeftJustify then
        repeated (rounds (sizeT (stringWidth spec value - stringLen spec value))) ' '
        else []) := rfl
  have hexpand : text (if spec.explicitPrecision ∧ stringLen spec value < sizeT spec.precision then
        repeated (rounds (sizeT spec.precision - stringLen spec value)) ' ' else []) =
      if spec.explicitPrecision = true then
        blanks (sizeT spec.precision - stringLen spec value) else [] := by
    by_cases hexplicit : spec.explicitPrecision = true
    · by_cases hless : stringLen spec value < sizeT spec.precision
      · rw [if_pos ⟨hexplicit, hless⟩, if_pos hexplicit, text_repeated,
          rounds_eq (h.expand hexplicit hless)]
        rfl
      · rw [if_neg fun hand => hless hand.2, if_pos hexplicit, Nat.sub_eq_zero_of_le (by omega)]
        rfl
    · rw [if_neg fun hand => hexplicit hand.1, if_neg hexplicit]
      rfl
  rw [hsites, text_append, text_append, text_append, text_singleton, hexpand]
  cases hleft : spec.flags.flagLeftJustify with
  | false =>
    rw [rounds_eq (h.left hleft)]
    simp [blanks]
  | true =>
    rw [rounds_eq (h.right hleft)]
    simp [blanks]

section Counters

theorem sizeT_of_nonneg {n : ℤ} (h : 0 ≤ n) (hn : n < 2 ^ 64) : sizeT n = n.toNat := by
  unfold sizeT
  omega

theorem sizeT_of_neg {n : ℤ} (h : n < 0) (hn : -2 ^ 31 ≤ n) : 2 ^ 63 + 2 ^ 31 ≤ sizeT n := by
  unfold sizeT
  omega

theorem sizeT_lt (n : ℤ) : sizeT n < 2 ^ 64 := by
  unfold sizeT
  omega

theorem sizeT_sub_lt {m n : ℕ} (hm : m < 2 ^ 64) (hn : n < 2 ^ 63) :
    sizeT (m - n) < 2 ^ 31 ↔ n ≤ m ∧ m - n < 2 ^ 31 := by
  unfold sizeT
  omega

theorem sizeT_bmod {n : ℕ} (hn : n < 2 ^ 63) :
    (n ≤ sizeT ((n : ℤ).bmod (2 ^ 32)) ∧ sizeT ((n : ℤ).bmod (2 ^ 32)) - n < 2 ^ 31) ↔
      n < 2 ^ 31 := by
  unfold sizeT
  rw [Int.bmod_def]
  omega

/-- A length that an `int` can hold passes through it unchanged. -/
theorem sizeT_bmod_of_lt {n : ℕ} (hn : n < 2 ^ 31) : sizeT ((n : ℤ).bmod (2 ^ 32)) = n := by
  rw [Int.bmod_eq_of_le (by omega) (by omega), sizeT_of_nonneg (Int.natCast_nonneg n) (by omega),
    Int.toNat_natCast]

variable {spec : Spec} {value : List UInt8}

/-- Neither number is negative, and the width is not mistaken. -/
structure Measured (spec : Spec) (value : List UInt8) : Prop where
  width : 0 ≤ spec.width
  precision : spec.explicitPrecision = true → 0 ≤ spec.precision
  left : spec.flags.flagLeftJustify = false → value.length ≤ spec.width.toNat ∨
    value.length < 2 ^ 31
  right : spec.flags.flagLeftJustify = true → stringLen spec value ≤ stringWidth spec value ∧
    stringWidth spec value - stringLen spec value < 2 ^ 31

theorem stringLen_le (spec : Spec) (value : List UInt8) : stringLen spec value ≤ value.length := by
  unfold stringLen
  split
  · omega
  · exact Nat.le_refl _

theorem stringWidth_of_nonneg (value : List UInt8) (h : 0 ≤ spec.width)
    (hwidth : spec.width < 2 ^ 31) :
    stringWidth spec value =
      if spec.width.toNat < value.length then sizeT ((value.length : ℤ).bmod (2 ^ 32))
      else spec.width.toNat := by
  have hnatural := sizeT_of_nonneg h (by omega)
  unfold stringWidth
  rw [hnatural]
  split
  · rfl
  · exact hnatural

theorem stringWidth_of_neg (h : spec.width < 0) (hwidth : -2 ^ 31 ≤ spec.width)
    (hlength : value.length < 2 ^ 63) : 2 ^ 63 + 2 ^ 31 ≤ stringWidth spec value := by
  have hlarge := sizeT_of_neg h hwidth
  unfold stringWidth
  rw [if_neg (by omega)]
  exact hlarge

theorem CountersFit.measured (hwidth : -2 ^ 31 ≤ spec.width ∧ spec.width < 2 ^ 31)
    (hprecision : -2 ^ 31 ≤ spec.precision) (hlength : value.length < 2 ^ 63)
    (h : CountersFit spec value) : Measured spec value := by
  have hlen := stringLen_le spec value
  have hbound : stringWidth spec value < 2 ^ 64 := sizeT_lt _
  have hright : spec.flags.flagLeftJustify = true → stringLen spec value ≤ stringWidth spec value ∧
      stringWidth spec value - stringLen spec value < 2 ^ 31 := fun hleft =>
    (sizeT_sub_lt hbound (by omega)).mp (h.right hleft)
  have hside : spec.flags.flagLeftJustify = false → value.length ≤ stringWidth spec value ∧
      stringWidth spec value - value.length < 2 ^ 31 := fun hleft =>
    (sizeT_sub_lt hbound hlength).mp (h.left hleft)
  have hnonneg : 0 ≤ spec.width := by
    by_contra hneg
    have hlarge := stringWidth_of_neg (Int.not_le.mp hneg) hwidth.1 hlength
    cases hleft : spec.flags.flagLeftJustify with
    | false =>
      have hless := (hside hleft).2
      omega
    | true =>
      have hless := (hright hleft).2
      omega
  refine ⟨hnonneg, ?_, ?_, hright⟩
  · intro hexplicit
    by_contra hneg
    have hlarge := sizeT_of_neg (Int.not_le.mp hneg) hprecision
    have hexpand := h.expand hexplicit (by omega)
    omega
  · intro hleft
    have hwide := hside hleft
    rw [stringWidth_of_nonneg value hnonneg hwidth.2] at hwide
    by_cases hshort : spec.width.toNat < value.length
    · rw [if_pos hshort] at hwide
      exact Or.inr ((sizeT_bmod hlength).mp hwide)
    · exact Or.inl (Nat.le_of_not_lt hshort)

theorem Measured.countersFit (hwidth : spec.width < 2 ^ 31) (hprecision : spec.precision < 2 ^ 31)
    (hlength : value.length < 2 ^ 63) (h : Measured spec value) : CountersFit spec value := by
  have hlen := stringLen_le spec value
  have hbound : stringWidth spec value < 2 ^ 64 := sizeT_lt _
  refine ⟨?_, ?_, ?_⟩
  · intro hleft
    rw [sizeT_sub_lt hbound hlength, stringWidth_of_nonneg value h.width hwidth]
    have hside := h.left hleft
    by_cases hshort : spec.width.toNat < value.length
    · rw [if_pos hshort]
      exact (sizeT_bmod hlength).mpr (hside.resolve_left (Nat.not_le.mpr hshort))
    · rw [if_neg hshort]
      omega
  · intro hexplicit hless
    have hnatural := sizeT_of_nonneg (h.precision hexplicit) (by omega)
    omega
  · intro hleft
    exact (sizeT_sub_lt hbound (by omega)).mpr (h.right hleft)

/-- The text in numbers that are not `size_t`. -/
theorem Measured.text_eq (hwidth : spec.width < 2 ^ 31) (hprecision : spec.precision < 2 ^ 31)
    (hlength : value.length < 2 ^ 63) (h : Measured spec value) :
    text (stringSites spec value) =
      (if spec.flags.flagLeftJustify = false then
        blanks (spec.width.toNat - value.length) else []) ++
      value.take (stringLen spec value) ++
      (if spec.explicitPrecision = true then
        blanks (spec.precision.toNat - value.length) else []) ++
      (if spec.flags.flagLeftJustify = true then
        blanks (stringWidth spec value - stringLen spec value) else []) := by
  have hlen := stringLen_le spec value
  rw [text_stringSites (h.countersFit hwidth hprecision hlength)]
  congr 1
  · congr 1
    · congr 1
      split
      · rename_i hleft
        have hside := h.left hleft
        rw [stringWidth_of_nonneg value h.width hwidth]
        by_cases hshort : spec.width.toNat < value.length
        · have hsmall := hside.resolve_left (Nat.not_le.mpr hshort)
          rw [if_pos hshort, sizeT_bmod_of_lt hsmall, Int.sub_self,
            Nat.sub_eq_zero_of_le (Nat.le_of_lt hshort)]
          rfl
        · rw [if_neg hshort, sizeT_of_nonneg (by omega) (by omega), Int.toNat_sub]
      · rfl
    · split
      · rename_i hexplicit
        have hnatural := sizeT_of_nonneg (h.precision hexplicit) (by omega)
        unfold stringLen
        rw [hnatural]
        split
        · rename_i hless
          rw [Nat.sub_self, Nat.sub_eq_zero_of_le (Nat.le_of_lt hless.2)]
        · rfl
      · rfl
  · split
    · rename_i hleft
      obtain ⟨hle, hbound⟩ := h.right hleft
      rw [sizeT_of_nonneg (by omega) (by omega), Int.toNat_sub]
    · rfl

end Counters

section Field

variable {spec : Spec} {value : List UInt8}

theorem stringLen_of_nonneg (value : List UInt8)
    (h : spec.explicitPrecision = true → 0 ≤ spec.precision)
    (hprecision : spec.precision < 2 ^ 31) :
    stringLen spec value =
      if spec.explicitPrecision = true then min spec.precision.toNat value.length
      else value.length := by
  unfold stringLen
  by_cases hexplicit : spec.explicitPrecision = true
  · have hnatural := sizeT_of_nonneg (h hexplicit) (by omega)
    rw [if_pos hexplicit, hnatural]
    by_cases hless : spec.precision.toNat < value.length
    · rw [if_pos ⟨hexplicit, hless⟩, Nat.min_eq_left (Nat.le_of_lt hless)]
    · rw [if_neg fun hand => hless hand.2, Nat.min_eq_right (Nat.le_of_not_lt hless)]
  · rw [if_neg fun hand => hexplicit hand.1, if_neg hexplicit]

theorem Measured.length_text (hwidth : spec.width < 2 ^ 31) (hprecision : spec.precision < 2 ^ 31)
    (hlength : value.length < 2 ^ 63) (h : Measured spec value) :
    (text (stringSites spec value)).length =
      (if spec.flags.flagLeftJustify = false then spec.width.toNat - value.length else 0) +
      stringLen spec value +
      (if spec.explicitPrecision = true then spec.precision.toNat - value.length else 0) +
      (if spec.flags.flagLeftJustify = true then
        stringWidth spec value - stringLen spec value else 0) := by
  rw [h.text_eq hwidth hprecision hlength, List.length_append, List.length_append,
    List.length_append, List.length_take, Nat.min_eq_left (stringLen_le spec value),
    apply_ite List.length, apply_ite List.length, apply_ite List.length, length_blanks,
    length_blanks, length_blanks, List.length_nil]

/-- A string that is written whole is padded to the width, on either side. -/
theorem Measured.whole (hwidth : spec.width < 2 ^ 31) (hlength : value.length < 2 ^ 63)
    (h : Measured spec value) (hwhole : stringLen spec value = value.length) :
    value.length < 2 ^ 31 ∧ stringWidth spec value = max spec.width.toNat value.length := by
  have hsw := stringWidth_of_nonneg value h.width hwidth
  by_cases hshort : spec.width.toNat < value.length
  · have hsmall : value.length < 2 ^ 31 := by
      cases hleft : spec.flags.flagLeftJustify with
      | false => exact (h.left hleft).resolve_left (Nat.not_le.mpr hshort)
      | true =>
        have hright := h.right hleft
        rw [hwhole, hsw, if_pos hshort] at hright
        exact (sizeT_bmod hlength).mp hright
    rw [hsw, if_pos hshort, sizeT_bmod_of_lt hsmall, Nat.max_eq_right (Nat.le_of_lt hshort)]
    exact ⟨hsmall, rfl⟩
  · rw [hsw, if_neg hshort, Nat.max_eq_left (Nat.le_of_not_lt hshort)]
    exact ⟨by omega, rfl⟩

theorem Measured.of_short (hwidth : 0 ≤ spec.width ∧ spec.width < 2 ^ 31)
    (hprecision : spec.explicitPrecision = true → 0 ≤ spec.precision)
    (hshort : value.length < 2 ^ 31) (hwhole : stringLen spec value = value.length) :
    Measured spec value := by
  have hsw : stringWidth spec value = max spec.width.toNat value.length := by
    rw [stringWidth_of_nonneg value hwidth.1 hwidth.2]
    split
    · rw [sizeT_bmod_of_lt hshort]
      omega
    · omega
  exact ⟨hwidth.1, hprecision, fun _ => Or.inr hshort, fun _ => by rw [hsw, hwhole]; omega⟩

namespace Conversion

variable (c : Conversion) (args : VaList)

/-- The condition for the field. Characters are left out only where the width asks
for as much as they leave, or on the right. -/
def FieldFits (value : List UInt8) : Prop :=
  0 ≤ c.width.value args ∧ c.width.value args < 2 ^ 31 ∧
    match c.precision with
    | none => value.length < 2 ^ 31
    | some a =>
        let p := a.value (c.precisionArgs args)
        let read := p.bmod (2 ^ 32)
        read = value.length ∨ 0 ≤ read ∧ read < value.length ∧
          if read = p then
            if c.has .minus then
              value.length ≤ c.width.value args ∨
                (value.length : ℤ).bmod (2 ^ 32) = max (c.width.value args) p
            else c.width.value args ≤ p ∧ value.length < 2 ^ 31
          else
            c.has .minus ∧ value.length ≤ p ∧ value.length < 2 ^ 31 ∧
              value.drop read.toNat = blanks (value.length - read.toNat)

theorem length_stringField :
    (c.stringField args value).length = max (c.width.value args).natAbs
      ((c.limit args).elim value fun p => value.take p).length := by
  unfold stringField
  dsimp only
  split
  · rw [List.length_append, length_blanks]
    omega
  · rw [List.length_append, length_blanks]
    omega

/-- Without precision. -/
theorem field_iff_none (hnone : c.precision = none) (hlength : value.length < 2 ^ 63) :
    CountersFit (c.spec args) value ∧
        text (stringSites (c.spec args) value) = c.stringField args value ↔
      c.FieldFits args value := by
  have hw := c.spec_width args
  have hbounds := bmod_bounds (c.width.value args)
  have hge := c.width.value_ge args
  have hexplicit : (c.spec args).explicitPrecision = false := by
    unfold spec
    rw [hnone]
    rfl
  have hprecision : (c.spec args).precision = 6 := by
    unfold spec
    rw [hnone]
  have hlimit : c.limit args = none := by
    unfold limit
    rw [hnone]
  have hwhole : stringLen (c.spec args) value = value.length := by
    rw [stringLen_of_nonneg value (by rw [hexplicit]; intro h; cases h) (by omega), hexplicit]
    rfl
  have hleft : (c.spec args).flags.flagLeftJustify = c.has .minus := rfl
  unfold FieldFits
  rw [hnone]
  dsimp only
  constructor
  · rintro ⟨hfits, htext⟩
    have hmeasured := hfits.measured (by omega) (by omega) hlength
    obtain ⟨hsmall, hsw⟩ := hmeasured.whole (by omega) hlength hwhole
    obtain ⟨hnonneg, hsame⟩ := bmod_of_nonneg hge (hw ▸ hmeasured.width)
    have hcount := congrArg List.length htext
    rw [hmeasured.length_text (by omega) (by omega) hlength, length_stringField, hlimit, hwhole,
      hsw, hexplicit, if_neg Bool.false_ne_true] at hcount
    dsimp only [Option.elim_none] at hcount
    refine ⟨hnonneg, ?_, hsmall⟩
    by_contra hlarge
    rw [hleft] at hcount
    cases hminus : c.has .minus with
    | false =>
      rw [hminus, if_pos rfl, if_neg Bool.false_ne_true] at hcount
      omega
    | true =>
      rw [hminus, if_neg (by decide), if_pos rfl] at hcount
      omega
  · rintro ⟨hnonneg, hless, hsmall⟩
    have hread : (c.spec args).width = c.width.value args := by
      rw [hw, Int.bmod_eq_of_le (by omega) (by omega)]
    have hmeasured : Measured (c.spec args) value :=
      Measured.of_short ⟨by omega, by omega⟩ (by rw [hexplicit]; intro h; cases h) hsmall hwhole
    obtain ⟨-, hsw⟩ := hmeasured.whole (by omega) hlength hwhole
    refine ⟨hmeasured.countersFit (by omega) (by omega) hlength, ?_⟩
    rw [hmeasured.text_eq (by omega) (by omega) hlength, hwhole, hsw, hexplicit, hleft, hread,
      if_neg Bool.false_ne_true, List.append_nil, List.take_length]
    unfold stringField
    rw [hlimit]
    dsimp only [Option.elim_none]
    have hpadding : max (c.width.value args).toNat value.length - value.length =
        (c.width.value args).natAbs - value.length := by
      omega
    have hwidth : (c.width.value args).toNat = (c.width.value args).natAbs := by
      omega
    cases hminus : c.has .minus with
    | false =>
      rw [if_pos rfl, if_neg Bool.false_ne_true, if_neg (by simpa using hnonneg), hwidth,
        List.append_nil]
    | true =>
      rw [if_neg (by decide), if_pos rfl, if_pos (Or.inl rfl), hpadding, List.nil_append]

theorem explicit_of_some {c : Conversion} {a : Amount} (hsome : c.precision = some a) :
    (c.spec args).explicitPrecision = true := by
  unfold spec
  rw [hsome]
  rfl

/-- With a precision the field and the output have the same number of characters. -/
theorem count_some {a : Amount} (hsome : c.precision = some a) (hne : a ≠ .omitted)
    (hlength : value.length < 2 ^ 63) (hmeasured : Measured (c.spec args) value)
    (htext : text (stringSites (c.spec args) value) = c.stringField args value) :
    0 ≤ c.width.value args ∧ c.width.value args < 2 ^ 31 ∧
      (if c.has .minus = false then (c.width.value args).toNat - value.length else 0) +
        min (c.spec args).precision.toNat value.length +
        ((c.spec args).precision.toNat - value.length) +
        (if c.has .minus = true then
          stringWidth (c.spec args) value - min (c.spec args).precision.toNat value.length
          else 0) =
      max (c.width.value args).toNat (min (a.value (c.precisionArgs args)).toNat value.length) := by
  have hw := c.spec_width args
  have hwbounds := bmod_bounds (c.width.value args)
  have hp := c.spec_precision args hsome hne
  have hpbounds := bmod_bounds (a.value (c.precisionArgs args))
  have hleft : (c.spec args).flags.flagLeftJustify = c.has .minus := rfl
  have hexplicit : (c.spec args).explicitPrecision = true := explicit_of_some args hsome
  have hread := hmeasured.precision hexplicit
  obtain ⟨hwide, hsame⟩ := bmod_of_nonneg (c.width.value_ge args) (hw ▸ hmeasured.width)
  obtain ⟨hnonneg, -⟩ := bmod_of_nonneg (a.value_ge _) (hp ▸ hread)
  have hlen := stringLen_of_nonneg value hmeasured.precision (by omega)
  rw [hexplicit, if_pos rfl] at hlen
  have hright := hmeasured.right
  have hcount := congrArg List.length htext
  rw [hmeasured.length_text (by omega) (by omega) hlength, length_stringField,
    c.limit_of_nonneg args hsome hnonneg, Option.elim_some, List.length_take, hlen, hleft,
    hexplicit, if_pos rfl] at hcount
  rw [hlen, hleft] at hright
  have hnarrow : c.width.value args < 2 ^ 31 := by
    cases hminus : c.has .minus with
    | false =>
      rw [hminus, if_pos rfl, if_neg Bool.false_ne_true] at hcount
      omega
    | true =>
      have hright := hright hminus
      rw [hminus, if_neg (by decide), if_pos rfl] at hcount
      omega
  have hsame : (c.spec args).width = c.width.value args := by
    rw [hw]
    omega
  have habs : (c.width.value args).natAbs = (c.width.value args).toNat := by
    omega
  rw [hsame, habs] at hcount
  exact ⟨hwide, hnarrow, hcount⟩

theorem sizeT_eq_iff {n : ℤ} {m : ℕ} (hlow : -2 ^ 31 ≤ n) (hhigh : n < 2 ^ 31) (hm : m < 2 ^ 31) :
    sizeT n = m ↔ n = m := by
  unfold sizeT
  omega

/-- The output of a string that is not shown whole, and blanks behind it. -/
theorem take_blanks_iff {n k : ℕ} (hn : n ≤ value.length) :
    value.take n ++ blanks (value.length - n + k) = value ++ blanks k ↔
      value.drop n = blanks (value.length - n) := by
  have hsplit : blanks (value.length - n + k) = blanks (value.length - n) ++ blanks k :=
    List.replicate_append_replicate.symm
  constructor
  · intro h
    rw [hsplit, ← List.append_assoc, List.append_cancel_right_eq] at h
    have hdrop := congrArg (List.drop n) h
    rw [List.drop_left' (by rw [List.length_take, Nat.min_eq_left hn])] at hdrop
    exact hdrop.symm
  · intro h
    rw [hsplit, ← h, ← List.append_assoc, List.take_append_drop]

theorem stringField_some {a : Amount} (hsome : c.precision = some a)
    (hwide : 0 ≤ c.width.value args) (hnonneg : 0 ≤ a.value (c.precisionArgs args)) :
    c.stringField args value =
      if c.has .minus = true then
        value.take (a.value (c.precisionArgs args)).toNat ++ blanks ((c.width.value args).toNat -
          min (a.value (c.precisionArgs args)).toNat value.length)
      else
        blanks ((c.width.value args).toNat -
          min (a.value (c.precisionArgs args)).toNat value.length) ++
        value.take (a.value (c.precisionArgs args)).toNat := by
  have habs : (c.width.value args).natAbs = (c.width.value args).toNat := by
    omega
  unfold stringField
  rw [c.limit_of_nonneg args hsome hnonneg, Option.elim_some]
  dsimp only
  rw [List.length_take, habs]
  by_cases hminus : c.has .minus = true
  · rw [if_pos (Or.inl hminus), if_pos hminus]
  · rw [if_neg (by rintro (h | h); exacts [hminus h, absurd h (Int.not_lt.mpr hwide)]),
      if_neg hminus]

theorem text_some {a : Amount} (hsome : c.precision = some a)
    (hlength : value.length < 2 ^ 63) (hmeasured : Measured (c.spec args) value)
    (hwidth : (c.spec args).width = c.width.value args)
    (hwbound : (c.spec args).width < 2 ^ 31) (hpbound : (c.spec args).precision < 2 ^ 31) :
    text (stringSites (c.spec args) value) =
      (if c.has .minus = false then blanks ((c.width.value args).toNat - value.length) else []) ++
      value.take (min (c.spec args).precision.toNat value.length) ++
      blanks ((c.spec args).precision.toNat - value.length) ++
      (if c.has .minus = true then
        blanks (stringWidth (c.spec args) value -
          min (c.spec args).precision.toNat value.length) else []) := by
  have hexplicit : (c.spec args).explicitPrecision = true := explicit_of_some args hsome
  have hlen := stringLen_of_nonneg value hmeasured.precision hpbound
  rw [hexplicit, if_pos rfl] at hlen
  rw [hmeasured.text_eq hwbound hpbound hlength, hlen, hexplicit, if_pos rfl, hwidth]
  rfl

/-- The width is right for the characters that are shown. -/
theorem stringWidth_eq_max (spec : Spec) (value : List UInt8) {m : ℕ} (h : 0 ≤ spec.width)
    (hwidth : spec.width < 2 ^ 31)
    (hm : m ≤ value.length) (hsmall : m < 2 ^ 31) :
    stringWidth spec value = max spec.width.toNat m ↔
      value.length ≤ spec.width ∨ (value.length : ℤ).bmod (2 ^ 32) = max spec.width m := by
  have hbounds := bmod_bounds value.length
  have hmax : ((max spec.width.toNat m : ℕ) : ℤ) = max spec.width m := by
    omega
  rw [stringWidth_of_nonneg value h hwidth]
  by_cases hless : spec.width.toNat < value.length
  · have hnot : ¬(value.length : ℤ) ≤ spec.width := by
      omega
    rw [if_pos hless, sizeT_eq_iff hbounds.1 hbounds.2 (by omega), hmax, or_iff_right hnot]
  · rw [if_neg hless]
    constructor
    · intro _
      left
      omega
    · intro _
      omega

theorem length_of_stringWidth (spec : Spec) (h : 0 ≤ spec.width) (hwidth : spec.width < 2 ^ 31)
    (hlength : value.length < 2 ^ 63)
    (heq : stringWidth spec value = max spec.width.toNat value.length) :
    value.length < 2 ^ 31 := by
  rw [stringWidth_of_nonneg value h hwidth] at heq
  by_cases hless : spec.width.toNat < value.length
  · rw [if_pos hless, Nat.max_eq_right (Nat.le_of_lt hless)] at heq
    exact (sizeT_bmod hlength).mp ⟨Nat.le_of_eq heq.symm, by rw [heq, Nat.sub_self]; decide⟩
  · omega

/-- The number behind a precision that the engine reads as a smaller one. -/
theorem shown_of_large (length : ℕ) {w p shown width : ℕ} (hw : w < 2 ^ 31)
    (hshown : shown < 2 ^ 31)
    (hp : 2 ^ 32 ≤ p) (hright : width - shown < 2 ^ 31)
    (hcount : shown + (width - shown) = max w (min p length)) (hle : shown ≤ width) :
    length ≤ p ∧ width = max w length := by
  omega

theorem countersFit_iff (hwidth : -2 ^ 31 ≤ spec.width ∧ spec.width < 2 ^ 31)
    (hprecision : -2 ^ 31 ≤ spec.precision ∧ spec.precision < 2 ^ 31)
    (hlength : value.length < 2 ^ 63) : CountersFit spec value ↔ Measured spec value :=
  ⟨CountersFit.measured hwidth hprecision.1 hlength,
    Measured.countersFit hwidth.2 hprecision.2 hlength⟩

/-- A precision below the length says how many characters are shown. -/
theorem stringLen_truncated {c : Conversion} {args : VaList} {a : Amount}
    (hsome : c.precision = some a) (hread : 0 ≤ (c.spec args).precision)
    (hless : (c.spec args).precision < value.length) (hsmall : (c.spec args).precision < 2 ^ 31) :
    stringLen (c.spec args) value = (c.spec args).precision.toNat := by
  rw [stringLen_of_nonneg value (fun _ => hread) hsmall, explicit_of_some args hsome, if_pos rfl]
  omega

section Truncated

variable {a : Amount} {c args} (hsome : c.precision = some a) (hlength : value.length < 2 ^ 63)
  (hwidth : (c.spec args).width = c.width.value args) (hwide : 0 ≤ c.width.value args)
  (hnarrow : c.width.value args < 2 ^ 31)
  (hread : 0 ≤ (c.spec args).precision) (hless : (c.spec args).precision < value.length)
  (hsmall : (c.spec args).precision < 2 ^ 31) (hnonneg : 0 ≤ a.value (c.precisionArgs args))

include hsome hlength hwidth hwide hnarrow hread hless hsmall hnonneg

/-- The output and the field when characters are left out. -/
theorem truncated_iff (hmeasured : Measured (c.spec args) value) :
    text (stringSites (c.spec args) value) = c.stringField args value ↔
      if c.has .minus = true then
        value.take (c.spec args).precision.toNat ++
          blanks (stringWidth (c.spec args) value - (c.spec args).precision.toNat) =
        value.take (a.value (c.precisionArgs args)).toNat ++ blanks ((c.width.value args).toNat -
          min (a.value (c.precisionArgs args)).toNat value.length)
      else
        blanks ((c.width.value args).toNat - value.length) ++
          value.take (c.spec args).precision.toNat =
        blanks ((c.width.value args).toNat -
          min (a.value (c.precisionArgs args)).toNat value.length) ++
        value.take (a.value (c.precisionArgs args)).toNat := by
  have hmin : min (c.spec args).precision.toNat value.length = (c.spec args).precision.toNat := by
    omega
  have hexpand : blanks ((c.spec args).precision.toNat - value.length) = [] := by
    rw [Nat.sub_eq_zero_of_le (by omega)]
    rfl
  rw [c.text_some args hsome hlength hmeasured hwidth (by omega) hsmall,
    c.stringField_some args hsome hwide hnonneg, hmin, hexpand, List.append_nil]
  cases c.has .minus with
  | false =>
    rw [if_pos rfl, if_neg Bool.false_ne_true, if_neg Bool.false_ne_true,
      if_neg Bool.false_ne_true, List.append_nil]
  | true =>
    rw [if_neg (by decide), if_pos rfl, if_pos rfl, if_pos rfl, List.nil_append]

/-- On the left the blanks are counted before characters are left out. -/
theorem truncated_left (hminus : c.has .minus = false)
    (hor : (c.spec args).precision = a.value (c.precisionArgs args) ∨
      2 ^ 32 ≤ a.value (c.precisionArgs args)) :
    Measured (c.spec args) value ∧
        text (stringSites (c.spec args) value) = c.stringField args value ↔
      (c.spec args).precision = a.value (c.precisionArgs args) ∧
        c.width.value args ≤ a.value (c.precisionArgs args) ∧ value.length < 2 ^ 31 := by
  have hleft : (c.spec args).flags.flagLeftJustify = false := hminus
  have htext := truncated_iff hsome hlength hwidth hwide hnarrow hread hless hsmall hnonneg
  rw [hminus, if_neg Bool.false_ne_true] at htext
  constructor
  · rintro ⟨hmeasured, heq⟩
    have hside := hmeasured.left hleft
    have hcount := congrArg List.length ((htext hmeasured).mp heq)
    rw [List.length_append, List.length_append, length_blanks, length_blanks, List.length_take,
      List.length_take] at hcount
    omega
  · rintro ⟨hsame, hle, hshort⟩
    have hmeasured : Measured (c.spec args) value :=
      ⟨hwidth ▸ hwide, fun _ => hread, fun _ => Or.inr hshort,
        fun h => absurd (hleft.symm.trans h) (by decide)⟩
    refine ⟨hmeasured, (htext hmeasured).mpr ?_⟩
    rw [hsame, Nat.sub_eq_zero_of_le (by omega), Nat.sub_eq_zero_of_le (by omega)]

/-- On the right they fill what has been left out. -/
theorem truncated_right (hminus : c.has .minus = true)
    (hsame : (c.spec args).precision = a.value (c.precisionArgs args)) :
    Measured (c.spec args) value ∧
        text (stringSites (c.spec args) value) = c.stringField args value ↔
      value.length ≤ c.width.value args ∨ (value.length : ℤ).bmod (2 ^ 32) =
        max (c.width.value args) (a.value (c.precisionArgs args)) := by
  have hleft : (c.spec args).flags.flagLeftJustify = true := hminus
  have htext := truncated_iff hsome hlength hwidth hwide hnarrow hread hless hsmall hnonneg
  rw [hminus, if_pos rfl, ← hsame] at htext
  have hmax := stringWidth_eq_max (c.spec args) value
    (m := (c.spec args).precision.toNat) (by omega) (by omega) (by omega) (by omega)
  rw [hwidth, Int.toNat_of_nonneg hread] at hmax
  rw [← hsame, ← hmax]
  have hlen := stringLen_truncated hsome hread hless hsmall
  have hmin : min (c.spec args).precision.toNat value.length = (c.spec args).precision.toNat := by
    omega
  constructor
  · rintro ⟨hmeasured, heq⟩
    obtain ⟨hle, -⟩ := hmeasured.right hleft
    have hcount := congrArg List.length ((htext hmeasured).mp heq)
    rw [List.length_append, List.length_append, length_blanks, length_blanks] at hcount
    omega
  · intro heq
    have hmeasured : Measured (c.spec args) value :=
      ⟨by omega, fun _ => hread,
        fun h => absurd (hleft.symm.trans h) (by decide), fun _ => by omega⟩
    refine ⟨hmeasured, (htext hmeasured).mpr ?_⟩
    rw [hmin, heq]
    congr 2
    omega

/-- A precision that the engine reads as a smaller one must be made up for. -/
theorem truncated_large (hminus : c.has .minus = true)
    (hlarge : 2 ^ 32 ≤ a.value (c.precisionArgs args)) :
    Measured (c.spec args) value ∧
        text (stringSites (c.spec args) value) = c.stringField args value ↔
      value.length ≤ a.value (c.precisionArgs args) ∧ value.length < 2 ^ 31 ∧
        value.drop (c.spec args).precision.toNat =
          blanks (value.length - (c.spec args).precision.toNat) := by
  have hleft : (c.spec args).flags.flagLeftJustify = true := hminus
  have htext := truncated_iff hsome hlength hwidth hwide hnarrow hread hless hsmall hnonneg
  rw [hminus, if_pos rfl] at htext
  have hlen := stringLen_truncated hsome hread hless hsmall
  have hmin : min (c.spec args).precision.toNat value.length = (c.spec args).precision.toNat := by
    omega
  have hshown {width : ℕ} (hle : value.length ≤ a.value (c.precisionArgs args))
      (hwidth : width = max (c.width.value args).toNat value.length) :
      value.take (c.spec args).precision.toNat ++ blanks (width - (c.spec args).precision.toNat) =
        value.take (a.value (c.precisionArgs args)).toNat ++ blanks ((c.width.value args).toNat -
          min (a.value (c.precisionArgs args)).toNat value.length) ↔
      value.drop (c.spec args).precision.toNat =
        blanks (value.length - (c.spec args).precision.toNat) := by
    have hsplit : width - (c.spec args).precision.toNat =
        value.length - (c.spec args).precision.toNat +
          ((c.width.value args).toNat - value.length) := by
      omega
    have hwhole : min (a.value (c.precisionArgs args)).toNat value.length = value.length := by
      omega
    have htake : value.take (a.value (c.precisionArgs args)).toNat = value :=
      List.take_of_length_le (by omega)
    rw [hwhole, htake, hsplit]
    exact take_blanks_iff (by omega)
  constructor
  · rintro ⟨hmeasured, heq⟩
    obtain ⟨hle, hright⟩ := hmeasured.right hleft
    rw [hlen] at hle hright
    have hcount := congrArg List.length ((htext hmeasured).mp heq)
    rw [List.length_append, List.length_append, length_blanks, length_blanks, List.length_take,
      List.length_take, hmin] at hcount
    obtain ⟨hlong, hmax⟩ := shown_of_large value.length (by omega) (by omega)
      (p := (a.value (c.precisionArgs args)).toNat) (w := (c.width.value args).toNat)
      (by omega) hright (by omega) hle
    have hlong : (value.length : ℤ) ≤ a.value (c.precisionArgs args) := by
      omega
    refine ⟨hlong, ?_, (hshown hlong hmax).mp ((htext hmeasured).mp heq)⟩
    exact length_of_stringWidth (c.spec args) (by omega) (by omega) hlength
      (by rw [hwidth]; exact hmax)
  · rintro ⟨hlong, hshort, hdrop⟩
    have hmax : stringWidth (c.spec args) value =
        max (c.width.value args).toNat value.length := by
      have hmax := stringWidth_eq_max (c.spec args) value (by omega) (by omega)
        (Nat.le_refl _) hshort
      rw [hwidth] at hmax
      refine hmax.mpr ?_
      rw [Int.bmod_eq_of_le (by omega) (by omega)]
      omega
    have hmeasured : Measured (c.spec args) value :=
      ⟨by omega, fun _ => hread,
        fun h => absurd (hleft.symm.trans h) (by decide), fun _ => by omega⟩
    exact ⟨hmeasured, (htext hmeasured).mpr ((hshown hlong hmax).mpr hdrop)⟩

end Truncated

variable {c args} {a : Amount}

/-- A precision above the length is filled up with blanks. -/
theorem precision_le_of_text (hsome : c.precision = some a) (hne : a ≠ .omitted)
    (hlength : value.length < 2 ^ 63) (hmeasured : Measured (c.spec args) value)
    (htext : text (stringSites (c.spec args) value) = c.stringField args value) :
    (c.spec args).precision ≤ value.length := by
  obtain ⟨hwide, hnarrow, hcount⟩ := c.count_some args hsome hne hlength hmeasured htext
  have hw := c.spec_width args
  rw [Int.bmod_eq_of_le (by omega) (by omega)] at hw
  have hp := c.spec_precision args hsome hne
  have hpbounds := bmod_bounds (a.value (c.precisionArgs args))
  by_contra hmore
  have hwhole : stringLen (c.spec args) value = value.length := by
    rw [stringLen_of_nonneg value hmeasured.precision (by omega), explicit_of_some args hsome,
      if_pos rfl]
    omega
  obtain ⟨hshort, hsw⟩ := hmeasured.whole (by omega) hlength hwhole
  rw [hsw, hw] at hcount
  cases hminus : c.has .minus with
  | false =>
    rw [hminus, if_pos rfl, if_neg Bool.false_ne_true] at hcount
    omega
  | true =>
    rw [hminus, if_neg (by decide), if_pos rfl] at hcount
    omega

/-- A precision that is the length leaves the string as it is. -/
theorem field_of_precision_eq (hsome : c.precision = some a)
    (hlength : value.length < 2 ^ 63)
    (hwidth : (c.spec args).width = c.width.value args) (hwide : 0 ≤ c.width.value args)
    (hnarrow : c.width.value args < 2 ^ 31) (heq : (c.spec args).precision = value.length)
    (hsmall : (c.spec args).precision < 2 ^ 31)
    (hle : value.length ≤ a.value (c.precisionArgs args)) :
    Measured (c.spec args) value ∧
      text (stringSites (c.spec args) value) = c.stringField args value := by
  have hwhole : stringLen (c.spec args) value = value.length := by
    rw [stringLen_of_nonneg value (fun _ => by omega) hsmall, explicit_of_some args hsome,
      if_pos rfl]
    omega
  have hmeasured : Measured (c.spec args) value :=
    Measured.of_short ⟨by omega, by omega⟩ (fun _ => by omega) (by omega) hwhole
  obtain ⟨-, hsw⟩ := hmeasured.whole (by omega) hlength hwhole
  have hmin : min (c.spec args).precision.toNat value.length = value.length := by
    omega
  have hmin' : min (a.value (c.precisionArgs args)).toNat value.length = value.length := by
    omega
  have hexpand : (c.spec args).precision.toNat - value.length = 0 := by
    omega
  have hpadding : max (c.width.value args).toNat value.length - value.length =
      (c.width.value args).toNat - value.length := by
    omega
  refine ⟨hmeasured, ?_⟩
  rw [c.text_some args hsome hlength hmeasured hwidth (by omega) hsmall,
    c.stringField_some args hsome hwide (by omega), hmin, hmin', hexpand, hsw, hwidth, hpadding,
    List.take_of_length_le (Nat.le_refl _), List.take_of_length_le (by omega)]
  cases c.has .minus with
  | false =>
    rw [if_pos rfl, if_neg Bool.false_ne_true, if_neg Bool.false_ne_true, List.append_nil]
    exact List.append_nil _
  | true =>
    rw [if_neg (by decide), if_pos rfl, if_pos rfl, List.nil_append]
    exact congrArg (· ++ _) (List.append_nil _)

/-- With a precision in digits or from the arguments. -/
theorem field_iff_some (hsome : c.precision = some a) (hne : a ≠ .omitted)
    (hlength : value.length < 2 ^ 63) :
    CountersFit (c.spec args) value ∧
        text (stringSites (c.spec args) value) = c.stringField args value ↔
      c.FieldFits args value := by
  have hw := c.spec_width args
  have hwbounds := bmod_bounds (c.width.value args)
  have hp := c.spec_precision args hsome hne
  have hpbounds := bmod_bounds (a.value (c.precisionArgs args))
  unfold FieldFits
  rw [hsome, countersFit_iff (by omega) (by omega) hlength]
  dsimp only
  rw [← hp]
  constructor
  · rintro ⟨hmeasured, htext⟩
    have hread := hmeasured.precision (explicit_of_some args hsome)
    obtain ⟨hnonneg, hor⟩ := bmod_of_nonneg (a.value_ge _) (hp ▸ hread)
    rw [← hp] at hor
    obtain ⟨hwide, hnarrow, -⟩ := c.count_some args hsome hne hlength hmeasured htext
    rw [Int.bmod_eq_of_le (by omega) (by omega)] at hw
    have hle := precision_le_of_text hsome hne hlength hmeasured htext
    refine ⟨hwide, hnarrow, ?_⟩
    by_cases heq : (c.spec args).precision = value.length
    · exact Or.inl heq
    have hless : (c.spec args).precision < value.length := by
      omega
    refine Or.inr ⟨hread, hless, ?_⟩
    cases hminus : c.has .minus with
    | false =>
      obtain ⟨hsame, hfits⟩ := (truncated_left hsome hlength hw hwide hnarrow hread hless
        (by omega) hnonneg hminus hor).mp ⟨hmeasured, htext⟩
      rw [if_pos hsame, if_neg Bool.false_ne_true]
      exact hfits
    | true =>
      rcases hor with hsame | hlarge
      · rw [if_pos hsame, if_pos rfl]
        exact (truncated_right hsome hlength hw hwide hnarrow hread hless
          (by omega) hnonneg hminus hsame).mp ⟨hmeasured, htext⟩
      · rw [if_neg (by omega)]
        exact ⟨rfl, (truncated_large hsome hlength hw hwide hnarrow hread hless
          (by omega) hnonneg hminus hlarge).mp ⟨hmeasured, htext⟩⟩
  · rintro ⟨hwide, hnarrow, hor⟩
    rw [Int.bmod_eq_of_le (by omega) (by omega)] at hw
    rcases hor with heq | ⟨hread, hless, hfits⟩
    · have hread : 0 ≤ (a.value (c.precisionArgs args)).bmod (2 ^ 32) := by
        omega
      obtain ⟨hnonneg, hor⟩ := bmod_of_nonneg (a.value_ge _) hread
      exact field_of_precision_eq hsome hlength hw hwide hnarrow heq (by omega) (by omega)
    obtain ⟨hnonneg, hor⟩ := bmod_of_nonneg (a.value_ge _) (hp ▸ hread)
    rw [← hp] at hor
    cases hminus : c.has .minus with
    | false =>
      rw [hminus, if_neg Bool.false_ne_true] at hfits
      refine (truncated_left hsome hlength hw hwide hnarrow hread hless
        (by omega) hnonneg hminus hor).mpr ?_
      split at hfits
      · exact ⟨‹_›, hfits⟩
      · cases hfits.1
    | true =>
      rw [hminus, if_pos rfl] at hfits
      split at hfits
      · exact (truncated_right hsome hlength hw hwide hnarrow hread hless
          (by omega) hnonneg hminus ‹_›).mpr hfits
      · exact (truncated_large hsome hlength hw hwide hnarrow hread hless
          (by omega) hnonneg hminus (hor.resolve_left ‹_›)).mpr hfits.2

end Conversion

end Field

section StringConversion

/-- `%s` writes the field exactly on this condition: the width and the precision are
numbers of an `int`, and characters are left out on the right side. -/
theorem string_field_iff (strings : BitVec 64 → List UInt8) (c : Conversion)
    (rest : List UInt8) (args : VaList) (hspecifier : c.specifier = 's')
    (hdefault : c.length = .default) (hprecision : c.precision ≠ some .omitted)
    (hlength : (strings (c.valueArgs args).next).length < 2 ^ 63) :
    directive strings ('%'.toUInt8 :: (c.bytes ++ rest)) args =
        (.sites (stringSites (c.spec args) (strings (c.valueArgs args).next)),
          's'.toUInt8 :: rest, (c.valueArgs args).rest) ∧
      (CountersFit (c.spec args) (strings (c.valueArgs args).next) ∧
          text (stringSites (c.spec args) (strings (c.valueArgs args).next)) =
            c.stringField args (strings (c.valueArgs args).next) ↔
        c.FieldFits args (strings (c.valueArgs args).next)) := by
  constructor
  · have hconvert : convert strings (c.spec args) (c.valueArgs args) =
        (.sites (stringSites (c.spec args) (strings (c.valueArgs args).next)),
          (c.valueArgs args).rest) := by
      have hkind : (c.spec args).specifier = 's' := hspecifier
      have hsize : (c.spec args).length = .default := hdefault
      unfold convert
      simp only [hkind, hsize]
    rw [c.directive_bytes, hconvert, hspecifier]
  · cases hamount : c.precision with
    | none => exact c.field_iff_none args hamount hlength
    | some a =>
      refine Conversion.field_iff_some hamount ?_ hlength
      rintro rfl
      exact hprecision hamount

/-- `%-5.3s` -/
def leftOfFive : Conversion where
  flags := [.minus]
  width := .digits 5 []
  precision := some (.digits 3 [])
  length := .default
  specifier := 's'
  width_ne_zero := by simp
  known := by decide

/-- `%5.1s` -/
def rightOfFive : Conversion where
  flags := []
  width := .digits 5 []
  precision := some (.digits 1 [])
  length := .default
  specifier := 's'
  width_ne_zero := by simp
  known := by decide

theorem string_field_leftOfFive :
    CountersFit (leftOfFive.spec ⟨fun _ => 0, 0⟩) ("abcd".toList.map Char.toUInt8) ∧
      text (stringSites (leftOfFive.spec ⟨fun _ => 0, 0⟩) ("abcd".toList.map Char.toUInt8)) =
        leftOfFive.stringField ⟨fun _ => 0, 0⟩ ("abcd".toList.map Char.toUInt8) :=
  (string_field_iff (fun _ => "abcd".toList.map Char.toUInt8) leftOfFive [] ⟨fun _ => 0, 0⟩ rfl rfl
    (by simp [leftOfFive]) (by decide)).2.mpr (by
      refine ⟨by decide, by decide, Or.inr ⟨by decide, by decide, ?_⟩⟩
      rw [if_pos (by decide), if_pos (by decide)]
      exact Or.inl (by decide))

/-- The blanks in front are counted for the whole string. -/
theorem string_field_rightOfFive :
    ∃ sites args, directive (fun _ => "ab".toList.map Char.toUInt8)
          ("%5.1s".toList.map Char.toUInt8) ⟨fun _ => 0, 0⟩ =
        (.sites sites, ['s'.toUInt8], args) ∧
      text sites = "   a".toList.map Char.toUInt8 ∧
      rightOfFive.stringField ⟨fun _ => 0, 0⟩ ("ab".toList.map Char.toUInt8) =
        "    a".toList.map Char.toUInt8 :=
  ⟨_, _, rfl, by decide, by decide⟩

end StringConversion

end Heartix.Printf
