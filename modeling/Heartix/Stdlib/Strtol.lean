import Heartix.Lib.Numeral

/-!
`strtol` and `strtoul`. A string is the list of its bytes before the terminating
NUL, and a pointer into it the rest of the list.
-/

namespace Heartix.Stdlib

open Numeral

def LONG_MAX : ℕ := 2 ^ 63 - 1

def ULONG_MAX : ℕ := 2 ^ 64 - 1

def isspace (c : UInt8) : Bool := c ∈ [32, 12, 10, 13, 9, 11]

def isdigit (c : UInt8) : Bool := '0'.toUInt8 ≤ c ∧ c ≤ '9'.toUInt8

def isupper (c : UInt8) : Bool := 'A'.toUInt8 ≤ c ∧ c ≤ 'Z'.toUInt8

def islower (c : UInt8) : Bool := 'a'.toUInt8 ≤ c ∧ c ≤ 'z'.toUInt8

def isalpha (c : UInt8) : Bool := islower c || isupper c

def tolower (c : UInt8) : UInt8 :=
  if isupper c then 'a'.toUInt8 + (c - 'A'.toUInt8) else c

/-- The value of a character as a digit of the largest base. -/
def digitOf (c : UInt8) : Option ℕ :=
  if isdigit c then some (c - '0'.toUInt8).toNat
  else if isalpha c then some ((tolower c - 'a'.toUInt8).toNat + 10)
  else none

/-- Whether there is a minus sign, and what follows the sign. -/
def readSign : List UInt8 → Bool × List UInt8
  | [] => (false, [])
  | c :: p =>
      if c = '+'.toUInt8 ∨ c = '-'.toUInt8 then (c = '-'.toUInt8, p) else (false, c :: p)

def isX (c : UInt8) : Bool := c = 'x'.toUInt8 ∨ c = 'X'.toUInt8

/-- The base, and where the digits begin. -/
def readPrefix (base : ℕ) (p : List UInt8) : ℕ × List UInt8 :=
  if base = 0 then
    if p.headD 0 = '0'.toUInt8 then
      if isX (p.getD 1 0) then (16, p.drop 2) else (8, p.drop 1)
    else (10, p)
  else if base = 16 ∧ p.headD 0 = '0'.toUInt8 ∧ isX (p.getD 1 0) then (16, p.drop 2)
  else (base, p)

/-- The loop over the digits, with the largest value of the type. -/
def readDigits (max base : ℕ) : ℕ → List UInt8 → ℕ × List UInt8
  | result, [] => (result, [])
  | result, c :: p =>
      match digitOf c with
      | none => (result, c :: p)
      | some digit =>
          if base ≤ digit then (result, c :: p)
          else if (max - digit) / base < result then (max, c :: p)
          else readDigits max base (result * base + digit) p

/-- What both functions read: the sign, the number, and where they stop. -/
def readNumeral (max : ℕ) (str : List UInt8) (base : ℕ) : Bool × ℕ × List UInt8 :=
  match readSign (str.dropWhile isspace) with
  | (neg, p) =>
      match readPrefix base p with
      | (base, p) =>
          match readDigits max base 0 p with
          | (result, p) => (neg, result, p)

/-- The offset of a pointer, which is stored where `endptr` is not NULL. -/
def storeEnd (endptr : Bool) (str p : List UInt8) : Option ℕ :=
  if endptr then some (str.length - p.length) else none

/-- `strtol`: the value, and what is stored. -/
def strtol (str : List UInt8) (endptr : Bool) (base : ℕ) : ℤ × Option ℕ :=
  match readNumeral LONG_MAX str base with
  | (neg, result, p) => (if neg then -result else result, storeEnd endptr str p)

/-- `strtoul`. -/
def strtoul (str : List UInt8) (endptr : Bool) (base : ℕ) : ℕ × Option ℕ :=
  match readNumeral ULONG_MAX str base with
  | (neg, result, p) =>
      (if neg then (2 ^ 64 - result) % 2 ^ 64 else result, storeEnd endptr str p)

section Standard

/-- A hexadecimal prefix with a digit behind it. -/
def hexPrefix (p : List UInt8) : Bool :=
  p.headD 0 = '0'.toUInt8 ∧ isX (p.getD 1 0) ∧ ∃ d ∈ digitOf (p.getD 2 0), d < 16

/-- The base of a subject sequence, and the sequence from its first digit on. -/
def subjectDigits (base : ℕ) (p : List UInt8) : ℕ × List UInt8 :=
  if (base = 0 ∨ base = 16) ∧ hexPrefix p then (16, p.drop 2)
  else if base = 0 then (if p.headD 0 = '0'.toUInt8 then 8 else 10, p)
  else (base, p)

def isDigitOf (base : ℕ) (c : UInt8) : Bool := ∃ d ∈ digitOf c, d < base

/-- The subject sequence that the C standard describes. -/
structure Subject where
  negative : Bool
  base : ℕ
  digits : List ℕ
  rest : List UInt8

def subject (str : List UInt8) (base : ℕ) : Subject :=
  match readSign (str.dropWhile isspace) with
  | (negative, p) =>
      match subjectDigits base p with
      | (base, p) =>
          ⟨negative, base, (p.takeWhile (isDigitOf base)).filterMap digitOf,
            p.dropWhile (isDigitOf base)⟩

def Subject.magnitude (s : Subject) : ℕ := value s.base s.digits

/-- Where `endptr` points according to the standard. -/
def Subject.storeEnd (s : Subject) (endptr : Bool) (str : List UInt8) : Option ℕ :=
  Stdlib.storeEnd endptr str (if s.digits = [] then str else s.rest)

/-- `strtol` as the standard describes it. -/
def standardStrtol (str : List UInt8) (endptr : Bool) (base : ℕ) : ℤ × Option ℕ :=
  let s := subject str base
  let n : ℤ := if s.negative then -s.magnitude else s.magnitude
  (max (-LONG_MAX - 1) (min n LONG_MAX), s.storeEnd endptr str)

/-- `strtoul` as the standard describes it. -/
def standardStrtoul (str : List UInt8) (endptr : Bool) (base : ℕ) : ℕ × Option ℕ :=
  let s := subject str base
  (if ULONG_MAX < s.magnitude then ULONG_MAX
    else if s.negative then (2 ^ 64 - s.magnitude) % 2 ^ 64
    else s.magnitude, s.storeEnd endptr str)

end Standard

section Digits

variable {max base result : ℕ} {p : List UInt8}

/-- The digits in front, and what follows them. -/
theorem digits_cons (base : ℕ) (c : UInt8) (p : List UInt8) :
    ((c :: p).takeWhile (isDigitOf base)).filterMap digitOf =
        (if isDigitOf base c then
          (digitOf c).toList ++ (p.takeWhile (isDigitOf base)).filterMap digitOf else []) ∧
      (c :: p).dropWhile (isDigitOf base) =
        if isDigitOf base c then p.dropWhile (isDigitOf base) else c :: p := by
  rw [List.takeWhile_cons, List.dropWhile_cons]
  split
  · rw [List.filterMap_cons]
    cases digitOf c with
    | none => exact ⟨rfl, rfl⟩
    | some d => exact ⟨rfl, rfl⟩
  · exact ⟨rfl, rfl⟩

/-- The loop computes the value of the digits, or stops in front of the digit that
makes it too large. -/
theorem readDigits_spec (hbase : 0 < base) (hmax : base ≤ max) (hresult : result ≤ max) :
    let ds := (p.takeWhile (isDigitOf base)).filterMap digitOf
    let rest := p.dropWhile (isDigitOf base)
    (extend base result ds ≤ max → readDigits max base result p = (extend base result ds, rest)) ∧
    (max < extend base result ds → (readDigits max base result p).1 = max ∧
      rest.length < (readDigits max base result p).2.length) := by
  induction p generalizing result with
  | nil => exact ⟨fun _ => rfl, fun hless => absurd hresult (Nat.not_le.mpr hless)⟩
  | cons c p ih =>
    obtain ⟨htake, hdrop⟩ := digits_cons base c p
    dsimp only
    rw [htake, hdrop, readDigits]
    rcases hdigit : digitOf c with _ | d
    · have hnot : isDigitOf base c = false := by
        simp [isDigitOf, hdigit]
      rw [hnot]
      exact ⟨fun _ => rfl, fun hless => absurd hresult (Nat.not_le.mpr hless)⟩
    · dsimp only
      by_cases hlarge : base ≤ d
      · have hnot : isDigitOf base c = false := by
          simp [isDigitOf, hdigit, hlarge]
        rw [hnot, if_pos hlarge]
        exact ⟨fun _ => rfl, fun hless => absurd hresult (Nat.not_le.mpr hless)⟩
      · have hyes : isDigitOf base c = true := by
          simp [isDigitOf, hdigit, Nat.lt_of_not_le hlarge]
        have hguard : (max - d) / base < result ↔ max < result * base + d := by
          rw [Nat.div_lt_iff_lt_mul hbase]
          omega
        rw [hyes, if_neg hlarge]
        by_cases hover : (max - d) / base < result
        · have hless := hguard.mp hover
          have hle : result * base + d ≤
              extend base (result * base + d) ((p.takeWhile (isDigitOf base)).filterMap digitOf) :=
            le_extend hbase
          rw [if_pos hover]
          refine ⟨fun hfits => absurd (Nat.le_trans hle hfits) (Nat.not_le.mpr hless), fun _ => ?_⟩
          exact ⟨rfl, Nat.lt_succ_of_le (List.dropWhile_sublist _).length_le⟩
        · rw [if_neg hover]
          exact ih (Nat.le_of_not_lt (mt hguard.mpr hover))

theorem length_readDigits (max base result : ℕ) (p : List UInt8) :
    (readDigits max base result p).2.length ≤ p.length := by
  induction p generalizing result with
  | nil => exact Nat.le_refl 0
  | cons c p ih =>
    unfold readDigits
    split
    · exact Nat.le_refl _
    · split
      · exact Nat.le_refl _
      · split
        · exact Nat.le_refl _
        · exact Nat.le_succ_of_le (ih _)

end Digits

section Prefix

variable {max base : ℕ} {p : List UInt8}

/-- `0x` without a digit behind it, which the code takes for a prefix. -/
def PartialPrefix (base : ℕ) (p : List UInt8) : Prop :=
  (base = 0 ∨ base = 16) ∧ p.headD 0 = '0'.toUInt8 ∧ isX (p.getD 1 0) = true ∧
    hexPrefix p = false

theorem hexPrefix_false (h : ¬ (p.headD 0 = '0'.toUInt8 ∧ isX (p.getD 1 0) = true)) :
    hexPrefix p = false := by
  unfold hexPrefix
  exact decide_eq_false fun hall => h ⟨hall.1, hall.2.1⟩

/-- Elsewhere both read the same digits; a `0` that tells the base is one of them. -/
theorem readDigits_readPrefix (hnot : ¬ PartialPrefix base p) :
    readDigits max (readPrefix base p).1 0 (readPrefix base p).2 =
      readDigits max (subjectDigits base p).1 0 (subjectDigits base p).2 := by
  have hhex : (base = 0 ∨ base = 16) → p.headD 0 = '0'.toUInt8 → isX (p.getD 1 0) = true →
      hexPrefix p = true := by
    intro hbase hzero hx
    by_contra hfalse
    exact hnot ⟨hbase, hzero, hx, Bool.eq_false_of_not_eq_true hfalse⟩
  unfold readPrefix subjectDigits
  by_cases hzeroBase : base = 0
  · rw [if_pos hzeroBase]
    by_cases hzero : p.headD 0 = '0'.toUInt8
    · rw [if_pos hzero]
      by_cases hx : isX (p.getD 1 0) = true
      · rw [if_pos hx, if_pos ⟨Or.inl hzeroBase, hhex (Or.inl hzeroBase) hzero hx⟩]
      · rw [if_neg hx, if_neg, if_pos hzeroBase, if_pos hzero]
        · cases p with
          | nil => cases hzero
          | cons c p =>
            obtain rfl : c = '0'.toUInt8 := hzero
            rfl
        · rintro ⟨-, htrue⟩
          rw [hexPrefix_false fun h => hx h.2] at htrue
          cases htrue
    · rw [if_neg hzero, if_neg, if_pos hzeroBase, if_neg hzero]
      rintro ⟨-, htrue⟩
      rw [hexPrefix_false fun h => hzero h.1] at htrue
      cases htrue
  · rw [if_neg hzeroBase]
    by_cases hx : base = 16 ∧ p.headD 0 = '0'.toUInt8 ∧ isX (p.getD 1 0) = true
    · rw [if_pos hx, if_pos ⟨Or.inr hx.1, hhex (Or.inr hx.1) hx.2.1 hx.2.2⟩]
    · rw [if_neg hx, if_neg, if_neg hzeroBase]
      rintro ⟨hbase, htrue⟩
      have hsixteen := hbase.resolve_left hzeroBase
      rw [hexPrefix_false fun h => hx ⟨hsixteen, h⟩] at htrue
      cases htrue

/-- There the code reads nothing behind the `x`, where the subject is the `0`. -/
theorem readDigits_partialPrefix (max : ℕ) (h : PartialPrefix base p) :
    readDigits max (readPrefix base p).1 0 (readPrefix base p).2 = (0, p.drop 2) ∧
      ((subjectDigits base p).2.takeWhile (isDigitOf (subjectDigits base p).1)).filterMap digitOf =
        [0] ∧
      (subjectDigits base p).2.dropWhile (isDigitOf (subjectDigits base p).1) = p.drop 1 ∧
      2 ≤ p.length := by
  obtain ⟨hbase, hzero, hx, hhex⟩ := h
  have hfront : readPrefix base p = (16, p.drop 2) := by
    unfold readPrefix
    rcases hbase with rfl | rfl
    · rw [if_pos rfl, if_pos hzero, if_pos hx]
    · rw [if_neg (by decide), if_pos ⟨rfl, hzero, hx⟩]
  have hsubject : subjectDigits base p = (if base = 0 then 8 else 16, p) := by
    unfold subjectDigits
    rw [hhex, if_neg (fun hand => Bool.false_ne_true hand.2), if_pos hzero]
    rcases hbase with rfl | rfl
    · rfl
    · rfl
  rw [hfront, hsubject]
  rcases p with _ | ⟨c, _ | ⟨x, p⟩⟩
  · cases hx
  · cases hx
  · obtain rfl : c = '0'.toUInt8 := hzero
    have hnot (b : ℕ) (hb : b ≤ 16) : isDigitOf b x = false := by
      have hvalue : digitOf x = some 33 := by
        rcases of_decide_eq_true hx with rfl | rfl
        · rfl
        · rfl
      unfold isDigitOf
      rw [hvalue]
      exact decide_eq_false (by rintro ⟨d, hd, hless⟩; cases hd; omega)
    have hzeroDigit (b : ℕ) (hb : 0 < b) : isDigitOf b '0'.toUInt8 = true := by
      have hvalue : digitOf '0'.toUInt8 = some 0 := rfl
      unfold isDigitOf
      rw [hvalue]
      exact decide_eq_true ⟨0, rfl, hb⟩
    have hstop : readDigits max 16 0 p = (0, p) := by
      rcases p with _ | ⟨d, p⟩
      · rfl
      · unfold readDigits
        rcases hdigit : digitOf d with _ | n
        · rfl
        · dsimp only
          rw [if_pos]
          by_contra hless
          have htrue : hexPrefix ('0'.toUInt8 :: x :: d :: p) = true :=
            decide_eq_true ⟨rfl, hx, n, hdigit, Nat.lt_of_not_le hless⟩
          rw [hhex] at htrue
          cases htrue
    have hbound : 0 < (if base = 0 then 8 else 16) ∧ (if base = 0 then 8 else 16) ≤ 16 := by
      split
      · decide
      · decide
    generalize (if base = 0 then 8 else 16) = b at hbound ⊢
    refine ⟨hstop, ?_, ?_, Nat.le_add_left 2 _⟩
    · rw [List.takeWhile_cons_of_pos (hzeroDigit b hbound.1),
        List.takeWhile_cons_of_neg (by rw [hnot b hbound.2]; exact Bool.false_ne_true)]
      rfl
    · rw [List.dropWhile_cons_of_pos (hzeroDigit b hbound.1),
        List.dropWhile_cons_of_neg (by rw [hnot b hbound.2]; exact Bool.false_ne_true)]
      rfl

theorem subjectDigits_base (hbase : base = 0 ∨ 2 ≤ base ∧ base ≤ 36) :
    0 < (subjectDigits base p).1 ∧ (subjectDigits base p).1 ≤ 36 := by
  unfold subjectDigits
  split
  · exact ⟨Nat.succ_pos 15, by omega⟩
  · split
    · dsimp only
      split
      · decide
      · decide
    · dsimp only
      omega

theorem subjectDigits_suffix : (subjectDigits base p).2 <:+ p := by
  unfold subjectDigits
  split
  · exact List.drop_suffix 2 p
  · split
    · exact List.suffix_refl p
    · exact List.suffix_refl p

/-- Without a digit there is no prefix either. -/
theorem subjectDigits_of_nil
    (hnil : ((subjectDigits base p).2.takeWhile (isDigitOf (subjectDigits base p).1)).filterMap
      digitOf = []) :
    (subjectDigits base p).2.dropWhile (isDigitOf (subjectDigits base p).1) = p := by
  have hstop {b : ℕ} {q : List UInt8} (h : (q.takeWhile (isDigitOf b)).filterMap digitOf = []) :
      q.dropWhile (isDigitOf b) = q ∧ isDigitOf b (q.headD 0) = false := by
    cases q with
    | nil => exact ⟨rfl, decide_eq_false (by rintro ⟨d, hd, -⟩; cases hd)⟩
    | cons c q =>
      obtain ⟨htake, hdrop⟩ := digits_cons b c q
      rw [htake] at h
      rw [hdrop]
      by_cases hc : isDigitOf b c = true
      · rw [if_pos hc] at h
        obtain ⟨d, hd, -⟩ := of_decide_eq_true hc
        rw [Option.mem_def.mp hd] at h
        cases h
      · rw [if_neg hc]
        exact ⟨rfl, Bool.eq_false_of_not_eq_true hc⟩
  obtain ⟨hdrop, hhead⟩ := hstop hnil
  rw [hdrop]
  unfold subjectDigits at hhead ⊢
  split at hhead
  · rename_i hfront
    obtain ⟨-, -, d, hd, hless⟩ := of_decide_eq_true hfront.2
    have hthird : (p.drop 2).headD 0 = p.getD 2 0 := by
      rw [List.headD_eq_head?_getD, List.head?_drop, List.getD_eq_getElem?_getD]
    have htrue : isDigitOf 16 ((p.drop 2).headD 0) = true :=
      hthird ▸ decide_eq_true ⟨d, hd, hless⟩
    rw [htrue] at hhead
    cases hhead
  · rename_i hfront
    rw [if_neg hfront]
    split
    · rfl
    · rfl

end Prefix

section Conformance

variable {max base : ℕ} {str : List UInt8}

/-- Where the subject sequence begins, but for its sign. -/
def afterSign (str : List UInt8) : List UInt8 := (readSign (str.dropWhile isspace)).2

theorem afterSign_suffix (str : List UInt8) : afterSign str <:+ str := by
  have hsign (p : List UInt8) : (readSign p).2 <:+ p := by
    cases p with
    | nil => exact List.suffix_refl []
    | cons c p =>
      rw [readSign]
      split
      · exact List.suffix_cons c p
      · exact List.suffix_refl _
  exact (hsign _).trans (List.dropWhile_suffix isspace)

/-- The functions stop where the subject sequence ends. -/
structure EndsRight (max base : ℕ) (str : List UInt8) : Prop where
  whole : ¬ PartialPrefix base (afterSign str)
  nonempty : (subject str base).digits ≠ [] ∨ afterSign str = str
  fits : (subject str base).magnitude ≤ max

/-- What both functions read is the number of the subject sequence, up to the
largest value. -/
theorem readNumeral_spec (max : ℕ) (str : List UInt8)
    (hbase : base = 0 ∨ 2 ≤ base ∧ base ≤ 36) (hmax : 36 ≤ max) :
    ∃ q, readNumeral max str base =
        ((subject str base).negative, min (subject str base).magnitude max, q) ∧
      (storeEnd true str q = (subject str base).storeEnd true str ↔ EndsRight max base str) := by
  have hafter := (afterSign_suffix str).length_le
  have hfront : (subjectDigits base (afterSign str)).2.length ≤ (afterSign str).length :=
    subjectDigits_suffix.length_le
  have hends {q e : List UInt8} (hq : q.length ≤ str.length) (he : e.length ≤ str.length) :
      storeEnd true str q = storeEnd true str e ↔ q.length = e.length := by
    unfold storeEnd
    rw [if_pos rfl, if_pos rfl, Option.some.injEq]
    omega
  have hread : readNumeral max str base = ((subject str base).negative, readDigits max
      (readPrefix base (afterSign str)).1 0 (readPrefix base (afterSign str)).2) := rfl
  have hrest : (subject str base).rest = (subjectDigits base (afterSign str)).2.dropWhile
      (isDigitOf (subjectDigits base (afterSign str)).1) := rfl
  have hmagnitude : (subject str base).magnitude = extend (subjectDigits base (afterSign str)).1 0
      (((subjectDigits base (afterSign str)).2.takeWhile
        (isDigitOf (subjectDigits base (afterSign str)).1)).filterMap digitOf) := rfl
  have hdigits : (subject str base).digits = (((subjectDigits base (afterSign str)).2.takeWhile
        (isDigitOf (subjectDigits base (afterSign str)).1)).filterMap digitOf) := rfl
  have hrestLength : (subject str base).rest.length ≤ (afterSign str).length := by
    rw [hrest]
    exact Nat.le_trans (List.dropWhile_sublist _).length_le hfront
  rw [hread]
  by_cases halone : PartialPrefix base (afterSign str)
  · obtain ⟨hstop, hzero, hdrop, hlength⟩ := readDigits_partialPrefix max halone
    rw [← hdigits] at hzero
    rw [← hrest] at hdrop
    have hvalue : (subject str base).magnitude = 0 := by
      unfold Subject.magnitude
      rw [hzero]
      exact Nat.zero_mul _
    refine ⟨(afterSign str).drop 2, by rw [hstop, hvalue, Nat.zero_min], ?_⟩
    unfold Subject.storeEnd
    rw [hzero, if_neg (List.cons_ne_nil 0 []), hdrop,
      hends (by rw [List.length_drop]; omega) (by rw [List.length_drop]; omega), List.length_drop,
      List.length_drop]
    exact iff_of_false (by omega) fun h => h.whole halone
  · obtain ⟨hpos, hle⟩ := subjectDigits_base (p := afterSign str) hbase
    obtain ⟨hfits, hover⟩ := readDigits_spec (p := (subjectDigits base (afterSign str)).2) hpos
      (Nat.le_trans hle hmax) (Nat.zero_le max)
    rw [readDigits_readPrefix halone]
    rw [← hmagnitude, ← hrest] at hfits hover
    by_cases hmag : (subject str base).magnitude ≤ max
    · refine ⟨(subject str base).rest, by rw [hfits hmag, Nat.min_eq_left hmag], ?_⟩
      unfold Subject.storeEnd
      by_cases hnil : (subject str base).digits = []
      · have hwhole : (subject str base).rest = afterSign str := subjectDigits_of_nil hnil
        rw [if_pos hnil, hends (by omega) (Nat.le_refl _), hwhole]
        constructor
        · intro hlength
          exact ⟨halone, Or.inr ((afterSign_suffix str).eq_of_length hlength), hmag⟩
        · intro h
          rw [h.nonempty.resolve_left (not_not.mpr hnil)]
      · rw [if_neg hnil]
        exact iff_of_true rfl ⟨halone, Or.inl hnil, hmag⟩
    · obtain ⟨hvalue, hlonger⟩ := hover (Nat.lt_of_not_le hmag)
      have hbound := length_readDigits max (subjectDigits base (afterSign str)).1 0
        (subjectDigits base (afterSign str)).2
      generalize readDigits max (subjectDigits base (afterSign str)).1 0
        (subjectDigits base (afterSign str)).2 = result at *
      obtain ⟨n, q⟩ := result
      dsimp only at hvalue hlonger hbound
      refine ⟨q, by rw [hvalue, Nat.min_eq_right (Nat.le_of_not_le hmag)], ?_⟩
      unfold Subject.storeEnd
      rw [if_neg, hends (by omega) (by omega)]
      · exact iff_of_false (by omega) fun h => hmag h.fits
      · intro hnil
        have hzero : (subject str base).magnitude = 0 := by
          unfold Subject.magnitude
          rw [hnil]
          rfl
        omega

/-- The condition for a result as the standard has it: a negative number is not
too large, and where the end is stored also the end is right. -/
def Conforms (max : ℕ) (str : List UInt8) (endptr : Bool) (base : ℕ) : Prop :=
  ((subject str base).negative = true → (subject str base).magnitude ≤ max) ∧
    (endptr = true → EndsRight max base str)

theorem storeEnd_iff {endptr : Bool} {q : List UInt8}
    (hend : storeEnd true str q = (subject str base).storeEnd true str ↔ EndsRight max base str) :
    storeEnd endptr str q = (subject str base).storeEnd endptr str ↔
      (endptr = true → EndsRight max base str) := by
  cases endptr with
  | false => exact iff_of_true rfl fun h => absurd h Bool.false_ne_true
  | true => exact hend.trans ⟨fun h _ => h, fun h => h rfl⟩

theorem strtol_iff (str : List UInt8) (endptr : Bool)
    (hbase : base = 0 ∨ 2 ≤ base ∧ base ≤ 36) :
    strtol str endptr base = standardStrtol str endptr base ↔
      Conforms LONG_MAX str endptr base := by
  obtain ⟨q, hread, hend⟩ := readNumeral_spec LONG_MAX str hbase (by decide)
  unfold strtol standardStrtol Conforms
  rw [hread]
  dsimp only
  rw [Prod.mk.injEq, storeEnd_iff hend]
  refine and_congr_left' ?_
  cases (subject str base).negative with
  | false =>
    rw [if_neg Bool.false_ne_true, if_neg Bool.false_ne_true]
    refine iff_of_true ?_ fun h => absurd h Bool.false_ne_true
    omega
  | true =>
    rw [if_pos rfl, if_pos rfl]
    constructor
    · intro h _
      omega
    · intro h
      have hle := h rfl
      omega

theorem strtoul_iff (str : List UInt8) (endptr : Bool)
    (hbase : base = 0 ∨ 2 ≤ base ∧ base ≤ 36) :
    strtoul str endptr base = standardStrtoul str endptr base ↔
      Conforms ULONG_MAX str endptr base := by
  obtain ⟨q, hread, hend⟩ := readNumeral_spec ULONG_MAX str hbase (by decide)
  have hmax : ULONG_MAX = 2 ^ 64 - 1 := rfl
  unfold strtoul standardStrtoul Conforms
  rw [hread]
  dsimp only
  rw [Prod.mk.injEq, storeEnd_iff hend]
  refine and_congr_left' ?_
  by_cases hfits : (subject str base).magnitude ≤ ULONG_MAX
  · rw [Nat.min_eq_left hfits, if_neg (Nat.not_lt.mpr hfits)]
    exact iff_of_true rfl fun _ => hfits
  · rw [Nat.min_eq_right (Nat.le_of_not_le hfits), if_pos (Nat.lt_of_not_le hfits)]
    cases (subject str base).negative with
    | false =>
      exact iff_of_true (if_neg Bool.false_ne_true) fun h => absurd h Bool.false_ne_true
    | true =>
      rw [if_pos rfl]
      exact iff_of_false (by decide) fun h => hfits (h rfl)

/-- `strtol` and `strtoul` do what the standard says exactly where they read the
whole subject sequence. -/
theorem strtol_strtoul_conform_iff (str : List UInt8) (endptr : Bool) (base : ℕ)
    (hbase : base = 0 ∨ 2 ≤ base ∧ base ≤ 36) :
    (strtol str endptr base = standardStrtol str endptr base ↔
      Conforms LONG_MAX str endptr base) ∧
    (strtoul str endptr base = standardStrtoul str endptr base ↔
      Conforms ULONG_MAX str endptr base) :=
  ⟨strtol_iff str endptr hbase, strtoul_iff str endptr hbase⟩

end Conformance

section Characters

theorem isDigitOf_ten (c : UInt8) : isDigitOf 10 c = isdigit c := by
  unfold isDigitOf digitOf
  cases hdigit : isdigit c with
  | true =>
    obtain ⟨hlow, hhigh⟩ := of_decide_eq_true hdigit
    rw [if_pos rfl]
    apply decide_eq_true
    refine ⟨_, rfl, ?_⟩
    have hlow : 48 ≤ c.toNat := hlow
    have hhigh : c.toNat ≤ 57 := hhigh
    rw [UInt8.toNat_sub_of_le _ _ hlow]
    show c.toNat - 48 < 10
    omega
  | false =>
    rw [if_neg Bool.false_ne_true]
    apply decide_eq_false
    intro h
    obtain ⟨d, hd, hless⟩ := h
    cases halpha : isalpha c with
    | false =>
      rw [halpha] at hd
      cases hd
    | true =>
      rw [halpha] at hd
      cases hd
      omega

theorem not_isspace_of_isdigit {c : UInt8} (hc : isdigit c = true) :
    isspace c = false ∧ c ≠ '+'.toUInt8 ∧ c ≠ '-'.toUInt8 := by
  obtain ⟨hlow, -⟩ := of_decide_eq_true hc
  have hlow : 48 ≤ c.toNat := hlow
  have hne {d : UInt8} (hd : d.toNat < 48) : c ≠ d := by
    intro heq
    rw [heq] at hlow
    omega
  refine ⟨?_, hne (by decide), hne (by decide)⟩
  unfold isspace
  apply decide_eq_false
  intro hmem
  simp only [List.mem_cons, List.not_mem_nil, or_false] at hmem
  rcases hmem with h | h | h | h | h | h
  all_goals exact hne (by decide) h

theorem dropWhile_isspace {blanks p : List UInt8} (hblank : ∀ c ∈ blanks, isspace c = true)
    (hp : ∀ c ∈ p.head?, isspace c = false) : (blanks ++ p).dropWhile isspace = p := by
  rw [List.dropWhile_append_of_pos hblank]
  cases p with
  | nil => rfl
  | cons c p =>
    apply List.dropWhile_cons_of_neg
    rw [hp c rfl]
    exact Bool.false_ne_true

theorem readSign_none {p : List UInt8}
    (hp : ∀ c ∈ p.head?, c ≠ '+'.toUInt8 ∧ c ≠ '-'.toUInt8) : readSign p = (false, p) := by
  cases p with
  | nil => rfl
  | cons c p =>
    obtain ⟨hplus, hminus⟩ := hp c rfl
    rw [readSign, if_neg (not_or.mpr ⟨hplus, hminus⟩)]

end Characters

/-- The string `0x`. -/
def prefixAlone : List UInt8 := ['0'.toUInt8, 'x'.toUInt8]

theorem strtol_strtoul_conform_iff_prefixAlone :
    (strtol prefixAlone false 0 = standardStrtol prefixAlone false 0 ↔
      Conforms LONG_MAX prefixAlone false 0) ∧
    (strtoul prefixAlone false 0 = standardStrtoul prefixAlone false 0 ↔
      Conforms ULONG_MAX prefixAlone false 0) :=
  strtol_strtoul_conform_iff prefixAlone false 0 (Or.inl rfl)

/-- Both functions stop behind the `x`. -/
theorem strtol_strtoul_take_prefixAlone :
    ¬ ∀ str endptr base, base = 0 ∨ 2 ≤ base ∧ base ≤ 36 →
      strtol str endptr base = standardStrtol str endptr base ∧
        strtoul str endptr base = standardStrtoul str endptr base := by
  intro hall
  have hend := (hall prefixAlone true 16 (Or.inr (by decide))).1
  exact absurd hend (by decide)

end Heartix.Stdlib
