import Mathlib.Data.List.GetD
import Mathlib.Data.List.Induction
import Heartix.Lib.Numeral
import Heartix.Terminal.Protocol

/-!
The fields of a sequence and the parameters they land in. The server and the client
library scan them in the same way, with a counter that the first digit and every
separator advance. An empty first field does not advance it, so the fields after one
land a parameter too early.
-/

namespace Heartix.Terminal

variable {σ : Type*}

theorem isDigit_iff {c : UInt8} : isDigit c ↔ 48 ≤ (c.toNat : ℤ) ∧ (c.toNat : ℤ) ≤ 57 := by
  have hlow : ('0'.toUInt8 ≤ c) ↔ 48 ≤ (c.toNat : ℤ) := by
    rw [UInt8.le_iff_toNat_le]
    exact Int.ofNat_le.symm
  have hhigh : (c ≤ '9'.toUInt8) ↔ (c.toNat : ℤ) ≤ 57 := by
    rw [UInt8.le_iff_toNat_le]
    exact Int.ofNat_le.symm
  unfold isDigit
  rw [decide_eq_true_iff, hlow, hhigh]

theorem isDigit_of_mem_text {n : ℕ} {c : UInt8} (hc : c ∈ Decimal.text n) : isDigit c := by
  refine Decimal.text_induction (motive := fun _ bytes => ∀ c ∈ bytes, isDigit c) ?_ ?_ n c hc
  · intro d hd c hc
    rw [List.mem_singleton.mp hc]
    exact isDigit_digit hd
  · intro n d hd ih c hc
    rcases List.mem_append.mp hc with hc | hc
    · exact ih c hc
    · rw [List.mem_singleton.mp hc]
      exact isDigit_digit hd

/-- What one more digit makes of a parameter. -/
def appendDigit (p : ℤ) (c : UInt8) : ℤ :=
  ((p * 10).bmod (2 ^ 32) + (c.toNat - 48)).bmod (2 ^ 32)

/-- The counter after a digit or a separator. -/
def counted (n : ℕ) (c : UInt8) : ℕ := if isDigit c then max 1 n else n + 1

theorem le_counted (n : ℕ) (c : UInt8) : n ≤ counted n c := by
  unfold counted
  split <;> omega

theorem le_foldl_counted (bytes : List UInt8) (n : ℕ) : n ≤ bytes.foldl counted n := by
  induction bytes generalizing n with
  | nil => exact Nat.le_refl n
  | cons c bytes ih => exact le_trans (le_counted n c) (ih (counted n c))

/-- What the two scanners of parameters have in common. -/
structure Scanner where
  parameterCount : ℕ
  parameters : Vector ℤ TERMINAL_STREAM_CONTROL_MAX_PARAMETERS

namespace Scanner

/-- A digit is appended to the current parameter, unless that is past the last. -/
def readDigit (s : Scanner) (c : UInt8) : Vector ℤ TERMINAL_STREAM_CONTROL_MAX_PARAMETERS :=
  if h : max 1 s.parameterCount - 1 < TERMINAL_STREAM_CONTROL_MAX_PARAMETERS then
    s.parameters.set (max 1 s.parameterCount - 1)
      (appendDigit s.parameters[max 1 s.parameterCount - 1] c)
  else s.parameters

def step (s : Scanner) (c : UInt8) : Scanner where
  parameterCount := counted s.parameterCount c
  parameters := if isDigit c then s.readDigit c else s.parameters

theorem foldl_parameterCount (bytes : List UInt8) (s : Scanner) :
    (bytes.foldl step s).parameterCount = bytes.foldl counted s.parameterCount := by
  induction bytes generalizing s with
  | nil => rfl
  | cons c bytes ih => exact ih (s.step c)

end Scanner

/-- The server's decoder with the counter and the parameters of a scanner. -/
def StreamControlStatus.scanning (status : StreamControlStatus) (s : Scanner) :
    StreamControlStatus :=
  { status with
    parameterCount := s.parameterCount
    parameters := s.parameters }

section Server

variable {S : Screen σ} {isStderr : Bool} {status : StreamControlStatus} {t : Server σ}

theorem processDigit_scanning (s : Scanner) {c : UInt8} (hc : isDigit c) :
    processDigit (status.scanning s) c = some (status.scanning (s.step c)) := by
  have hcurrent : (if (status.scanning s).parameterCount = 0 then
      { status.scanning s with parameterCount := 1 } else status.scanning s) =
      { status.scanning s with parameterCount := (max 1 s.parameterCount : ℕ) } := by
    by_cases hzero : s.parameterCount = 0
    · have hstatus : (status.scanning s).parameterCount = 0 := congrArg Nat.cast hzero
      rw [if_pos hstatus, hzero]
      rfl
    · have hstatus : (status.scanning s).parameterCount ≠ 0 := fun h => hzero (Int.ofNat.inj h)
      rw [if_neg hstatus, max_eq_right (by omega)]
      rfl
  have hindex : ((max 1 s.parameterCount : ℕ) : ℤ) - 1 = (max 1 s.parameterCount - 1 : ℕ) := by
    omega
  unfold processDigit
  rw [hcurrent]
  dsimp only
  unfold Scanner.step Scanner.readDigit counted
  rw [if_pos hc, if_pos hc, hindex]
  by_cases hroom : max 1 s.parameterCount - 1 < TERMINAL_STREAM_CONTROL_MAX_PARAMETERS
  · rw [if_pos (by omega), parameter_natCast hroom]
    dsimp only
    rw [setParameter_natCast hroom, dif_pos hroom]
    rfl
  · rw [if_neg (by omega), dif_neg hroom]
    rfl

theorem processOutput_scanning
    (hwithin : status.status = .withinVt100 ∨ status.status = .withinGhostterm)
    (s : Scanner) {c : UInt8} (hc : isDigit c ∨ c = ';'.toUInt8)
    (hcount : counted s.parameterCount c < 2 ^ 31) :
    processOutput S isStderr (status.scanning s, t) c =
      some (status.scanning (s.step c), t) := by
  rw [processOutput_within (by exact hwithin)]
  unfold processWithin
  by_cases hdigit : isDigit c
  · rw [if_pos hdigit, processDigit_scanning s hdigit]
    rfl
  · have hnext : counted s.parameterCount c = s.parameterCount + 1 := if_neg hdigit
    have hsmall : ((s.parameterCount : ℤ) + 1).bmod (2 ^ 32) = s.parameterCount + 1 :=
      Int.bmod_eq_of_le (by omega) (by omega)
    rw [if_neg hdigit, if_pos (hc.resolve_left hdigit)]
    unfold StreamControlStatus.scanning Scanner.step
    rw [hnext, if_neg hdigit, hsmall]
    rfl

/-- The server reads fields as the scanner does. -/
theorem foldlM_scanning
    (hwithin : status.status = .withinVt100 ∨ status.status = .withinGhostterm)
    {bytes : List UInt8} (hbytes : ∀ c ∈ bytes, isDigit c ∨ c = ';'.toUInt8) (s : Scanner)
    (hcount : bytes.foldl counted s.parameterCount < 2 ^ 31) :
    bytes.foldlM (processOutput S isStderr) (status.scanning s, t) =
      some (status.scanning (bytes.foldl Scanner.step s), t) := by
  induction bytes generalizing s with
  | nil => rfl
  | cons c bytes ih =>
    have hfirst : counted s.parameterCount c < 2 ^ 31 :=
      lt_of_le_of_lt (le_foldl_counted bytes _) hcount
    rw [List.foldlM_cons,
      processOutput_scanning hwithin s (hbytes c List.mem_cons_self) hfirst,
      Option.bind_eq_bind, Option.bind_some]
    exact ih (fun d hd => hbytes d (List.mem_cons_of_mem c hd)) (s.step c) hcount

end Server

/-- The value of a run of digits. -/
def decimalValue (digits : List UInt8) : ℕ :=
  Numeral.value 10 (digits.map fun c => c.toNat - 48)

/-- What a run of digits makes of a parameter. -/
def appendDigits (p : ℤ) (digits : List UInt8) : ℤ := digits.foldl appendDigit p

theorem appendDigits_bmod (p : ℤ) {digits : List UInt8} (hdigits : ∀ c ∈ digits, isDigit c) :
    (appendDigits p digits).bmod (2 ^ 32) =
      (p * 10 ^ digits.length + decimalValue digits).bmod (2 ^ 32) := by
  induction digits using List.reverseRecOn with
  | nil => simp [appendDigits, decimalValue, Numeral.value]
  | append_singleton digits c ih =>
    have hc := isDigit_iff.mp (hdigits c (by simp))
    have hnat : ((c.toNat - 48 : ℕ) : ℤ) = c.toNat - 48 := by omega
    have hvalue : decimalValue (digits ++ [c]) = decimalValue digits * 10 + (c.toNat - 48) := by
      unfold decimalValue Numeral.value
      rw [List.map_append, Numeral.extend_append]
      rfl
    have hread : appendDigits p (digits ++ [c]) = appendDigit (appendDigits p digits) c := by
      unfold appendDigits
      rw [List.foldl_append]
      rfl
    have hprefix := ih fun d hd => hdigits d (List.mem_append_left [c] hd)
    rw [hread, hvalue, List.length_append, List.length_singleton,
      pow_succ (10 : ℤ) digits.length]
    unfold appendDigit
    rw [Int.bmod_bmod, Int.bmod_add_bmod, ← Int.bmod_add_bmod, ← Int.bmod_mul_bmod, hprefix,
      Int.bmod_mul_bmod, Int.bmod_add_bmod]
    congr 1
    push_cast
    rw [hnat]
    ring

theorem appendDigits_eq (p : ℤ) {digits : List UInt8} (hdigits : ∀ c ∈ digits, isDigit c)
    (hne : digits ≠ []) :
    appendDigits p digits =
      (p * 10 ^ digits.length + decimalValue digits).bmod (2 ^ 32) := by
  rw [← appendDigits_bmod p hdigits]
  obtain ⟨front, c, rfl⟩ := List.eq_nil_or_concat digits |>.resolve_left hne
  unfold appendDigits
  rw [List.concat_eq_append, List.foldl_append, List.foldl_cons, List.foldl_nil]
  unfold appendDigit
  rw [Int.bmod_bmod]

/-- The fields of a sequence that are read into the parameters, from the first one
on. An empty first field is passed over. -/
def placed : List (List UInt8) → List (List UInt8)
  | [] :: fields => fields
  | fields => fields

/-- The text of the fields between the start of a sequence and its control character. -/
def fieldText (fields : List (List UInt8)) : List UInt8 := [';'.toUInt8].intercalate fields

theorem fieldText_cons_cons (f g : List UInt8) (fields : List (List UInt8)) :
    fieldText (f :: g :: fields) = f ++ ';'.toUInt8 :: fieldText (g :: fields) := by
  unfold fieldText
  rw [List.intercalate_cons_cons, List.append_assoc, List.singleton_append]

namespace Scanner

variable {s : Scanner} {k : ℕ}

theorem step_digit {c : UInt8} (hc : isDigit c) (hcount : max 1 s.parameterCount = k + 1)
    (hk : k < TERMINAL_STREAM_CONTROL_MAX_PARAMETERS) :
    s.step c = ⟨k + 1, s.parameters.set k (appendDigit s.parameters[k] c)⟩ := by
  unfold step readDigit counted
  rw [if_pos hc, if_pos hc, dif_pos (by omega)]
  simp only [hcount, Nat.add_sub_cancel]

theorem step_separator (s : Scanner) :
    s.step ';'.toUInt8 = ⟨s.parameterCount + 1, s.parameters⟩ := rfl

theorem foldl_digits {digits : List UInt8} (hdigits : ∀ c ∈ digits, isDigit c)
    (hcount : s.parameterCount = k + 1) (hk : k < TERMINAL_STREAM_CONTROL_MAX_PARAMETERS) :
    digits.foldl step s =
      ⟨k + 1, s.parameters.set k (appendDigits s.parameters[k] digits)⟩ := by
  induction digits generalizing s with
  | nil =>
    obtain ⟨count, parameters⟩ := s
    obtain rfl : count = k + 1 := hcount
    simp [appendDigits]
  | cons c digits ih =>
    rw [List.foldl_cons, step_digit (hdigits c List.mem_cons_self) (by omega) hk,
      ih (fun d hd => hdigits d (List.mem_cons_of_mem c hd)) rfl]
    simp [appendDigits]

/-- Once a parameter is counted, every field lands in the parameter after the one
of the field before it. -/
theorem foldl_fields {fields : List (List UInt8)}
    (hfields : ∀ f ∈ fields, ∀ c ∈ f, isDigit c) (hcount : s.parameterCount = k + 1)
    (hroom : k + fields.length ≤ TERMINAL_STREAM_CONTROL_MAX_PARAMETERS)
    {i : ℕ} (hi : i < TERMINAL_STREAM_CONTROL_MAX_PARAMETERS) :
    ((fieldText fields).foldl step s).parameters[i] =
      appendDigits s.parameters[i] (if k ≤ i then fields.getD (i - k) [] else []) := by
  induction fields generalizing s k with
  | nil => simp [fieldText, appendDigits]
  | cons f fields ih =>
    have hk : k < TERMINAL_STREAM_CONTROL_MAX_PARAMETERS := by
      rw [List.length_cons] at hroom
      omega
    have hf := foldl_digits (s := s) (hfields f List.mem_cons_self) hcount hk
    have hfirst : ((⟨k + 1, s.parameters.set k (appendDigits s.parameters[k] f)⟩ :
        Scanner).parameters)[i] =
        appendDigits s.parameters[i] (if k = i then f else []) := by
      by_cases hki : k = i
      · subst hki
        simp
      · simp [hki, Vector.getElem_set_ne, appendDigits]
    cases fields with
    | nil =>
      have htext : fieldText [f] = f := List.intercalate_singleton
      rw [htext, hf, hfirst]
      congr 1
      rcases Nat.lt_trichotomy k i with hlt | rfl | hgt
      · rw [if_neg (by omega), if_pos (by omega), List.getD_eq_default]
        rw [List.length_singleton]
        omega
      · simp
      · rw [if_neg (by omega), if_neg (by omega)]
    | cons g fields =>
      rw [fieldText_cons_cons, List.foldl_append, List.foldl_cons, hf, step_separator,
        ih (k := k + 1) (fun h hh => hfields h (List.mem_cons_of_mem f hh)) rfl
          (by rw [List.length_cons] at hroom; omega)]
      rw [hfirst]
      rcases Nat.lt_trichotomy k i with hlt | rfl | hgt
      · have hnext : i - k = (i - (k + 1)) + 1 := by omega
        rw [if_neg (by omega), if_pos (by omega), if_pos (by omega), hnext]
        rfl
      · simp [appendDigits]
      · rw [if_neg (by omega), if_neg (by omega), if_neg (by omega)]
        rfl

/-- From the start of a sequence, the fields that are placed land in order. -/
theorem foldl_fieldText {fields : List (List UInt8)}
    (hfields : ∀ f ∈ fields, ∀ c ∈ f, isDigit c)
    (hlength : fields.length ≤ TERMINAL_STREAM_CONTROL_MAX_PARAMETERS)
    (parameters : Vector ℤ TERMINAL_STREAM_CONTROL_MAX_PARAMETERS)
    {i : ℕ} (hi : i < TERMINAL_STREAM_CONTROL_MAX_PARAMETERS) :
    ((fieldText fields).foldl step ⟨0, parameters⟩).parameters[i] =
      appendDigits parameters[i] ((placed fields).getD i []) := by
  cases fields with
  | nil => rfl
  | cons f fields =>
    cases f with
    | nil =>
      cases fields with
      | nil => rfl
      | cons g fields =>
        rw [fieldText_cons_cons, List.nil_append, List.foldl_cons, step_separator,
          foldl_fields (k := 0) (fun h hh => hfields h (List.mem_cons_of_mem [] hh)) rfl
            (by rw [List.length_cons] at hlength; omega) hi]
        simp [placed]
    | cons c f =>
      have hc : isDigit c := hfields (c :: f) List.mem_cons_self c List.mem_cons_self
      have hstart : (fieldText ((c :: f) :: fields)).foldl step ⟨0, parameters⟩ =
          (fieldText ((c :: f) :: fields)).foldl step ⟨1, parameters⟩ := by
        have htext : ∃ rest, fieldText ((c :: f) :: fields) = c :: rest := by
          cases fields with
          | nil => exact ⟨f, List.intercalate_singleton⟩
          | cons g fields =>
            rw [fieldText_cons_cons]
            exact ⟨_, rfl⟩
        obtain ⟨rest, hrest⟩ := htext
        have hmax : 0 < TERMINAL_STREAM_CONTROL_MAX_PARAMETERS := by decide
        rw [hrest, List.foldl_cons, List.foldl_cons, step_digit hc rfl hmax,
          step_digit hc rfl hmax]
      rw [hstart, foldl_fields (k := 0) hfields rfl (by rw [Nat.zero_add]; exact hlength) hi]
      rfl

end Scanner

theorem mem_fieldText {fields : List (List UInt8)} (hfields : ∀ f ∈ fields, ∀ c ∈ f, isDigit c) :
    ∀ c ∈ fieldText fields, isDigit c ∨ c = ';'.toUInt8 := by
  induction fields with
  | nil => exact fun c hc => absurd hc List.not_mem_nil
  | cons f fields ih =>
    have hrest := ih fun g hg => hfields g (List.mem_cons_of_mem f hg)
    have hf := hfields f List.mem_cons_self
    cases fields with
    | nil =>
      intro c hc
      exact Or.inl (hf c (by simpa [fieldText] using hc))
    | cons g fields =>
      intro c hc
      rw [fieldText_cons_cons] at hc
      rcases List.mem_append.mp hc with hc | hc
      · exact Or.inl (hf c hc)
      · rcases List.mem_cons.mp hc with hc | hc
        · exact Or.inr hc
        · exact hrest c hc

theorem foldl_counted_le (digits : List UInt8) (hdigits : ∀ c ∈ digits, isDigit c) (n : ℕ) :
    digits.foldl counted n ≤ max 1 n := by
  induction digits generalizing n with
  | nil => exact Nat.le_max_right 1 n
  | cons c digits ih =>
    have hnext : counted n c = max 1 n := if_pos (hdigits c List.mem_cons_self)
    have hle := ih (fun d hd => hdigits d (List.mem_cons_of_mem c hd)) (counted n c)
    rw [List.foldl_cons]
    omega

/-- No more parameters are counted than there are fields, and the first. -/
theorem foldl_counted_fieldText {fields : List (List UInt8)}
    (hfields : ∀ f ∈ fields, ∀ c ∈ f, isDigit c) (n : ℕ) :
    (fieldText fields).foldl counted n ≤ max 1 n + fields.length := by
  induction fields generalizing n with
  | nil => exact Nat.le_max_right 1 n
  | cons f fields ih =>
    have hfirst := foldl_counted_le f (hfields f List.mem_cons_self) n
    cases fields with
    | nil =>
      have htext : fieldText [f] = f := List.intercalate_singleton
      rw [htext]
      exact le_trans hfirst (Nat.le_add_right _ _)
    | cons g fields =>
      have hrest := ih (fun h hh => hfields h (List.mem_cons_of_mem f hh))
        (f.foldl counted n + 1)
      have hsep : counted (f.foldl counted n) ';'.toUInt8 = f.foldl counted n + 1 := rfl
      rw [fieldText_cons_cons, List.foldl_append, List.foldl_cons, hsep]
      simp only [List.length_cons] at hrest ⊢
      omega

/-- The text of a parameter: empty, or a decimal that is an `int`. -/
structure ParameterField where
  digits : List UInt8
  isDigits : ∀ c ∈ digits, isDigit c
  bounded : decimalValue digits < 2 ^ 31

def ParameterField.value (f : ParameterField) : ℕ := decimalValue f.digits

/-- The fields of a sequence, at most as many as there are parameters. -/
structure ParameterFields where
  fields : List ParameterField
  atMost : fields.length ≤ TERMINAL_STREAM_CONTROL_MAX_PARAMETERS

namespace ParameterFields

variable (p : ParameterFields)

def digits : List (List UInt8) := p.fields.map ParameterField.digits

def bytes : List UInt8 := fieldText p.digits

/-- Every parameter holds the value of its field. -/
def Hold (parameters : Vector ℤ TERMINAL_STREAM_CONTROL_MAX_PARAMETERS) : Prop :=
  ∀ (i : ℕ) (f : ParameterField), p.fields[i]? = some f → parameters[i]? = some (f.value : ℤ)

/-- The first field is passed over only where that makes no difference. -/
def FirstCounts : Prop :=
  (∀ f : ParameterField, p.fields.head? = some f → f.digits ≠ []) ∨ ∀ f ∈ p.fields, f.value = 0

/-- What was in a parameter is gone once 32 digits have been read. -/
def Flushed : Prop := ∀ f ∈ p.fields, 32 ≤ f.digits.length

end ParameterFields

theorem ParameterField.value_of_empty {f : ParameterField} (h : f.digits = []) : f.value = 0 := by
  unfold ParameterField.value
  rw [h]
  rfl

theorem ParameterField.bmod_value (f : ParameterField) : (f.value : ℤ).bmod (2 ^ 32) = f.value := by
  have hlt : f.value < 2 ^ 31 := f.bounded
  exact Int.bmod_eq_of_le (by omega) (by omega)

theorem ParameterField.appendDigits_zero (f : ParameterField) :
    appendDigits 0 f.digits = f.value := by
  by_cases hempty : f.digits = []
  · rw [ParameterField.value_of_empty hempty, hempty]
    rfl
  · rw [appendDigits_eq 0 f.isDigits hempty, zero_mul, zero_add]
    exact f.bmod_value

theorem dvd_ten_pow_iff {n : ℕ} : (2 ^ 32 : ℤ) ∣ 10 ^ n ↔ 32 ≤ n := by
  have hsplit : (10 : ℕ) ^ n = 2 ^ n * 5 ^ n := by
    rw [← Nat.mul_pow]
  have hcoprime : Nat.Coprime (2 ^ 32) (5 ^ n) := Nat.Coprime.pow 32 n (by decide)
  have hcast : (2 ^ 32 : ℤ) ∣ 10 ^ n ↔ (2 ^ 32 : ℕ) ∣ 10 ^ n := by
    rw [← Int.natCast_dvd_natCast]
    push_cast
    rfl
  rw [hcast, hsplit, hcoprime.dvd_mul_right, Nat.pow_dvd_pow_iff_le_right (by decide)]

/-- Digits on top of one leave their value exactly when there are 32 of them. -/
theorem ParameterField.appendDigits_eq_iff (f : ParameterField) :
    (∀ m, appendDigits m f.digits = f.value) ↔ 32 ≤ f.digits.length := by
  constructor
  · intro h
    have hbmod := appendDigits_bmod 1 f.isDigits
    rw [h 1, one_mul, bmod_eq_bmod_iff] at hbmod
    refine dvd_ten_pow_iff.mp ?_
    rw [← Int.dvd_neg]
    unfold ParameterField.value at hbmod
    convert hbmod using 1
    ring
  · intro hlength m
    have hne : f.digits ≠ [] := List.ne_nil_of_length_pos (by omega)
    rw [appendDigits_eq m f.isDigits hne, ← f.bmod_value, bmod_eq_bmod_iff]
    unfold ParameterField.value
    rw [add_sub_cancel_right]
    exact Dvd.dvd.mul_left (dvd_ten_pow_iff.mpr hlength) m

namespace ParameterFields

variable {p : ParameterFields}

theorem isDigit_of_mem_digits : ∀ f ∈ p.digits, ∀ c ∈ f, isDigit c := by
  intro f hf
  obtain ⟨field, _, rfl⟩ := List.mem_map.mp hf
  exact field.isDigits

theorem isBody (p : ParameterFields) : ∀ c ∈ p.bytes, isDigit c ∨ c = ';'.toUInt8 :=
  mem_fieldText isDigit_of_mem_digits

theorem length_digits : p.digits.length = p.fields.length := List.length_map _

theorem counts (p : ParameterFields) : p.bytes.foldl counted 0 < 2 ^ 31 := by
  have hcount := foldl_counted_fieldText (isDigit_of_mem_digits (p := p)) 0
  have hmax : TERMINAL_STREAM_CONTROL_MAX_PARAMETERS = 4 := rfl
  have hmost := p.atMost
  rw [length_digits] at hcount
  unfold bytes
  omega

theorem getD_digits {i : ℕ} {f : ParameterField} (hf : p.fields[i]? = some f) :
    p.digits.getD i [] = f.digits := by
  unfold digits
  rw [List.getD_eq_getElem?_getD, List.getElem?_map, hf]
  rfl

/-- What a parameter holds after the fields have been read on top of the memory. -/
theorem hold_iff (memory : Vector ℤ TERMINAL_STREAM_CONTROL_MAX_PARAMETERS) :
    p.Hold ((p.bytes.foldl Scanner.step ⟨0, memory⟩).parameters) ↔
      ∀ (i : ℕ) (f : ParameterField), p.fields[i]? = some f →
        ∀ hi : i < TERMINAL_STREAM_CONTROL_MAX_PARAMETERS,
          appendDigits memory[i] ((placed p.digits).getD i []) = f.value := by
  have hlength : p.digits.length ≤ TERMINAL_STREAM_CONTROL_MAX_PARAMETERS := by
    rw [length_digits]
    exact p.atMost
  unfold Hold bytes
  refine forall_congr' fun i => forall_congr' fun f => imp_congr_right fun hf => ?_
  have hi : i < TERMINAL_STREAM_CONTROL_MAX_PARAMETERS := by
    have hlt := (List.getElem?_eq_some_iff.mp hf).1
    exact lt_of_lt_of_le hlt p.atMost
  have hvalue := Scanner.foldl_fieldText isDigit_of_mem_digits hlength memory hi
  rw [getElem?_pos _ i hi, hvalue, Option.some_inj]
  exact ⟨fun h _ => h, fun h => h hi⟩

/-- The first field is passed over exactly when it is empty. -/
theorem placed_digits :
    (placed p.digits = p.digits ∧ ∀ f, p.fields.head? = some f → f.digits ≠ []) ∨
      ∃ f fields, p.fields = f :: fields ∧ f.digits = [] ∧
        placed p.digits = fields.map ParameterField.digits := by
  unfold digits
  cases p.fields with
  | nil => exact Or.inl ⟨rfl, fun f hf => by cases hf⟩
  | cons f fields =>
    rw [List.map_cons]
    cases hempty : f.digits with
    | nil => exact Or.inr ⟨f, fields, rfl, hempty, rfl⟩
    | cons c rest =>
      refine Or.inl ⟨rfl, fun g hg => ?_⟩
      obtain rfl := Option.some.inj hg
      rw [hempty]
      exact List.cons_ne_nil c rest

/-- Fields that agree with the ones before them agree with the first one. -/
theorem value_eq_zero_of_shifted {first : ParameterField} {rest : List ParameterField}
    (hempty : first.digits = [])
    (h : ∀ (i : ℕ) (f g : ParameterField), (first :: rest)[i]? = some f → rest[i]? = some g →
      g.value = f.value) :
    ∀ f ∈ first :: rest, f.value = 0 := by
  have hindex (i : ℕ) : ∀ f, (first :: rest)[i]? = some f → f.value = 0 := by
    induction i with
    | zero =>
      intro f hf
      obtain rfl := Option.some.inj hf
      exact ParameterField.value_of_empty hempty
    | succ i ih =>
      intro g hg
      have hlt := (List.getElem?_eq_some_iff.mp hg).1
      have hprev := List.getElem?_eq_getElem (Nat.lt_of_succ_lt hlt)
      rw [h i _ g hprev hg]
      exact ih _ hprev
  intro f hf
  obtain ⟨i, hi⟩ := List.getElem?_of_mem hf
  exact hindex i f hi

/-- On top of zeros, the parameters hold their fields exactly when the first one is
not empty or all of them are zero. -/
theorem hold_cleared_iff :
    p.Hold (p.bytes.foldl Scanner.step ⟨0, Vector.replicate _ 0⟩).parameters ↔
      p.FirstCounts := by
  rw [hold_iff]
  simp only [Vector.getElem_replicate]
  rcases placed_digits (p := p) with ⟨hplaced, hfirst⟩ | ⟨first, rest, hfields, hempty, hplaced⟩
  · rw [hplaced]
    refine iff_of_true (fun i f hf _ => ?_) (Or.inl hfirst)
    rw [getD_digits hf, f.appendDigits_zero]
  · have hlanded (i : ℕ) : (rest[i]? = none ∧
        appendDigits 0 ((placed p.digits).getD i []) = 0) ∨
        ∃ g, rest[i]? = some g ∧ appendDigits 0 ((placed p.digits).getD i []) = g.value := by
      rw [hplaced, List.getD_eq_getElem?_getD, List.getElem?_map]
      cases hget : rest[i]? with
      | none => exact Or.inl ⟨rfl, rfl⟩
      | some g => exact Or.inr ⟨g, rfl, g.appendDigits_zero⟩
    constructor
    · intro h
      right
      rw [hfields]
      refine value_eq_zero_of_shifted hempty fun i f g hf hg => ?_
      have hi : i < TERMINAL_STREAM_CONTROL_MAX_PARAMETERS := by
        have hlt := (List.getElem?_eq_some_iff.mp hf).1
        rw [← hfields] at hlt
        exact lt_of_lt_of_le hlt p.atMost
      have hvalue := h i f (by rw [hfields]; exact hf) hi
      rcases hlanded i with ⟨hnone, _⟩ | ⟨g', hg', heq⟩
      · rw [hnone] at hg
        cases hg
      · obtain rfl := Option.some.inj (hg.symm.trans hg')
        exact Int.ofNat.inj (heq.symm.trans hvalue)
    · rintro (hne | hzero) i f hf _
      · exact absurd hempty (hne first (by rw [hfields]; rfl))
      · rw [hzero f (List.mem_of_getElem? hf)]
        rcases hlanded i with ⟨_, heq⟩ | ⟨g, hg, heq⟩
        · exact heq
        · have hmem : g ∈ p.fields := by
            rw [hfields]
            exact List.mem_cons_of_mem first (List.mem_of_getElem? hg)
          rw [heq, hzero g hmem]

/-- On top of every memory, the parameters hold their fields exactly when each field
has 32 digits. -/
theorem hold_uncleared_iff :
    (∀ memory, p.Hold (p.bytes.foldl Scanner.step ⟨0, memory⟩).parameters) ↔
      p.FirstCounts ∧ p.Flushed := by
  simp only [hold_iff]
  rcases placed_digits (p := p) with ⟨hplaced, hfirst⟩ | ⟨first, rest, hfields, hempty, hplaced⟩
  · have hcounts : p.FirstCounts := Or.inl hfirst
    rw [hplaced, and_iff_right hcounts]
    constructor
    · intro h f hf
      obtain ⟨i, hi⟩ := List.getElem?_of_mem hf
      have hlt : i < TERMINAL_STREAM_CONTROL_MAX_PARAMETERS :=
        lt_of_lt_of_le (List.getElem?_eq_some_iff.mp hi).1 p.atMost
      refine f.appendDigits_eq_iff.mp fun m => ?_
      have hvalue := h (Vector.replicate _ m) i f hi hlt
      rw [getD_digits hi, Vector.getElem_replicate] at hvalue
      exact hvalue
    · intro h memory i f hf hi
      rw [getD_digits hf]
      exact f.appendDigits_eq_iff.mpr (h f (List.mem_of_getElem? hf)) memory[i]
  · refine iff_of_false (fun h => ?_) fun h => ?_
    · -- the last parameter keeps what was in the memory
      have hlast : rest.length < (first :: rest).length := Nat.lt_succ_self _
      obtain ⟨g, hget⟩ : ∃ g, p.fields[rest.length]? = some g := by
        rw [hfields]
        exact ⟨_, List.getElem?_eq_getElem hlast⟩
      have hlt : rest.length < TERMINAL_STREAM_CONTROL_MAX_PARAMETERS :=
        lt_of_lt_of_le (List.getElem?_eq_some_iff.mp hget).1 p.atMost
      have hvalue := h (Vector.replicate _ (-1)) _ _ hget hlt
      have hnone : (rest.map ParameterField.digits).getD rest.length [] = [] :=
        List.getD_eq_default (rest.map ParameterField.digits) [] (by rw [List.length_map])
      rw [Vector.getElem_replicate, hplaced, hnone] at hvalue
      have hneg : (-1 : ℤ) = g.value := hvalue
      omega
    · have hlength := h.2 first (by rw [hfields]; exact List.mem_cons_self)
      rw [hempty] at hlength
      cases hlength

end ParameterFields

theorem decimalValue_append_digit (digits : List UInt8) {d : ℕ} (hd : d < 10) :
    decimalValue (digits ++ [Decimal.digit d]) = 10 * decimalValue digits + d := by
  unfold decimalValue Numeral.value
  rw [List.map_append, Numeral.extend_append, List.map_singleton, Numeral.extend_cons,
    Numeral.extend_nil, Decimal.toNat_digit hd]
  omega

theorem decimalValue_text (n : ℕ) : decimalValue (Decimal.text n) = n := by
  refine Decimal.text_induction (motive := fun n bytes => decimalValue bytes = n) ?_ ?_ n
  · intro d hd
    exact (decimalValue_append_digit [] hd).trans (Nat.zero_add d)
  · intro n d hd ih
    rw [decimalValue_append_digit _ hd, ih]

theorem text_ne_nil (n : ℕ) : Decimal.text n ≠ [] := by
  refine Decimal.text_induction (motive := fun _ bytes => bytes ≠ []) ?_ ?_ n
  · exact fun d _ => List.cons_ne_nil _ _
  · exact fun n d _ _ => List.append_ne_nil_of_right_ne_nil _ (List.cons_ne_nil _ _)

def ParameterField.ofNat (n : ℕ) (hn : n < 2 ^ 31) : ParameterField where
  digits := Decimal.text n
  isDigits := fun _ => isDigit_of_mem_text
  bounded := by
    rw [decimalValue_text]
    exact hn

theorem ParameterField.value_ofNat {n : ℕ} (hn : n < 2 ^ 31) :
    (ParameterField.ofNat n hn).value = n := decimalValue_text n

/-- The fields of a response. -/
def ParameterFields.pair {first second : ℕ} (hfirst : first < 2 ^ 31) (hsecond : second < 2 ^ 31) :
    ParameterFields where
  fields := [ParameterField.ofNat first hfirst, ParameterField.ofNat second hsecond]
  atMost := show 2 ≤ 4 by decide

theorem ParameterFields.bytes_pair {first second : ℕ} (hfirst : first < 2 ^ 31)
    (hsecond : second < 2 ^ 31) :
    (ParameterFields.pair hfirst hsecond).bytes =
      Decimal.text first ++ ';'.toUInt8 :: Decimal.text second := by
  have hlast : fieldText [Decimal.text second] = Decimal.text second := List.intercalate_singleton
  rw [← hlast]
  exact fieldText_cons_cons (Decimal.text first) (Decimal.text second) []

/-- The numbers of a response, read into cleared parameters. -/
theorem ParameterFields.parameters_pair {first second : ℕ} (hfirst : first < 2 ^ 31)
    (hsecond : second < 2 ^ 31) :
    let parameters := ((Decimal.text first ++ ';'.toUInt8 :: Decimal.text second).foldl
      Scanner.step ⟨0, Vector.replicate _ 0⟩).parameters
    parameters[0] = (first : ℤ) ∧ parameters[1] = (second : ℤ) := by
  intro parameters
  have hhold := hold_cleared_iff.mpr (show (pair hfirst hsecond).FirstCounts from Or.inl
    fun f hf => by
      obtain rfl := Option.some.inj hf
      exact text_ne_nil first)
  rw [bytes_pair] at hhold
  have hzero := hhold 0 _ rfl
  have hone := hhold 1 _ rfl
  rw [ParameterField.value_ofNat] at hzero hone
  exact ⟨Option.some.inj hzero, Option.some.inj hone⟩

end Heartix.Terminal
