import Mathlib.Data.List.TakeWhile
import Mathlib.Data.Rat.Defs
import Heartix.Lib.Occurrence
import Heartix.Stdlib.Strtol

/-!
`strtod`, over any operations on `double`. The scan goes through its parts without
a way back, so it also consumes parts that turn out to be empty. What it should
consume is the longest decimal number at the beginning of the string.
-/

namespace Heartix.Stdlib

open Numeral Occurrence

/-- The operations on `double` that are used. -/
structure DoubleOps (D : Type*) where
  ofInt : ℤ → D
  tenth : D
  add : D → D → D
  mul : D → D → D
  pow : D → D → D

def isE (c : UInt8) : Bool := c = 'e'.toUInt8 ∨ c = 'E'.toUInt8

/-- `*p - '0'` for a digit. -/
def digitValue (c : UInt8) : ℕ := (c - '0'.toUInt8).toNat

section Code

variable {D : Type*} (ops : DoubleOps D)

/-- The loop over the digits before the point. -/
def readWhole : D → List UInt8 → D × List UInt8
  | value, [] => (value, [])
  | value, c :: p =>
      if isdigit c then
        readWhole (ops.add (ops.mul value (ops.ofInt 10)) (ops.ofInt (digitValue c))) p
      else (value, c :: p)

/-- The loop over the digits behind the point. -/
def readFraction : D → D → List UInt8 → D × List UInt8
  | value, _, [] => (value, [])
  | value, frac, c :: p =>
      if isdigit c then
        let frac := ops.mul frac ops.tenth
        readFraction (ops.add value (ops.mul (ops.ofInt (digitValue c)) frac)) frac p
      else (value, c :: p)

/-- The loop over the digits of the exponent. An overflow of the `int` is
undefined. -/
def readExpVal : ℕ → List UInt8 → Option (ℕ × List UInt8)
  | exp_val, [] => some (exp_val, [])
  | exp_val, c :: p =>
      if isdigit c then
        if exp_val * 10 + digitValue c < 2 ^ 31 then readExpVal (exp_val * 10 + digitValue c) p
        else none
      else some (exp_val, c :: p)

/-- What a point begins. -/
def readPoint (value : D) : List UInt8 → D × List UInt8
  | [] => (value, [])
  | c :: p => if c = '.'.toUInt8 then readFraction ops value (ops.ofInt 1) p else (value, c :: p)

/-- The exponent with its sign, and where the scan stops. -/
def readExponent : List UInt8 → Option (ℤ × List UInt8)
  | [] => some (0, [])
  | c :: p =>
      if isE c then
        match readSign p with
        | (neg, p) => (readExpVal 0 p).map fun (exp_val, p) =>
            ((if neg then -1 else 1) * (exp_val : ℤ), p)
      else some (0, c :: p)

/-- `strtod`: the value, and what is stored. -/
def strtod (str : List UInt8) (endptr : Bool) : Option (D × Option ℕ) :=
  match readSign (str.dropWhile isspace) with
  | (neg, p) =>
      match readWhole ops (ops.ofInt 0) p with
      | (value, p) =>
          match readPoint ops value p with
          | (value, p) => (readExponent p).map fun (exponent, p) =>
              (ops.mul (ops.mul (ops.ofInt (if neg then -1 else 1)) value)
                (ops.pow (ops.ofInt 10) (ops.ofInt exponent)), storeEnd endptr str p)

end Code

section Standard

def IsSign (w : List UInt8) : Prop := w = [] ∨ w = ['+'.toUInt8] ∨ w = ['-'.toUInt8]

def AllDigits (w : List UInt8) : Prop := ∀ c ∈ w, isdigit c

/-- Digits with an optional point and digits, or a point and at least one digit. -/
inductive Mantissa : List UInt8 → Prop
  | digits {w : List UInt8} (h : AllDigits w) (hne : w ≠ []) : Mantissa w
  | point {w f : List UInt8} (h : AllDigits w) (hf : AllDigits f) (hne : w ≠ [] ∨ f ≠ []) :
      Mantissa (w ++ '.'.toUInt8 :: f)

inductive Exponent : List UInt8 → Prop
  | absent : Exponent []
  | present {c : UInt8} {sign w : List UInt8} (hc : isE c) (hsign : IsSign sign)
      (h : AllDigits w) (hne : w ≠ []) : Exponent (c :: (sign ++ w))

/-- A decimal number with blanks before it. -/
inductive Decimal : List UInt8 → Prop
  | mk {blanks sign mantissa exponent : List UInt8} (hblanks : ∀ c ∈ blanks, isspace c)
      (hsign : IsSign sign) (hmantissa : Mantissa mantissa) (hexponent : Exponent exponent) :
      Decimal (blanks ++ (sign ++ (mantissa ++ exponent)))

/-- The lengths of the decimal numbers at the beginning of a string. -/
def decimals (str : List UInt8) : Set ℕ := {n | n ≤ str.length ∧ Decimal (str.take n)}

end Standard

/-- `strtod` returns, with the end of the longest decimal number, and the beginning
of the string if there is none. -/
def Consumes {D : Type*} (ops : DoubleOps D) (str : List UInt8) : Prop :=
  ∃ v r, strtod ops str true = some (v, some (r.getD 0)) ∧ LastOf (decimals str) r

section Condition

/-- What stands behind the blanks and the sign. -/
def body (str : List UInt8) : List UInt8 := (readSign (str.dropWhile isspace)).2

/-- The digits behind a point that follows the digits before it. -/
def fractionDigits (p : List UInt8) : List UInt8 :=
  match p.dropWhile isdigit with
  | [] => []
  | c :: q => if c = '.'.toUInt8 then q.takeWhile isdigit else []

def HasDigit (p : List UInt8) : Prop := p.takeWhile isdigit ≠ [] ∨ fractionDigits p ≠ []

def afterMantissa (p : List UInt8) : List UInt8 :=
  match p.dropWhile isdigit with
  | [] => []
  | c :: q => if c = '.'.toUInt8 then q.dropWhile isdigit else c :: q

/-- The digits behind an exponent letter and a sign, if there is such a letter. -/
def exponentDigits : List UInt8 → Option (List UInt8)
  | [] => none
  | c :: q => if isE c then some ((readSign q).2.takeWhile isdigit) else none

/-- A character that one of the parts of the scan takes. -/
def Taken (c : UInt8) : Prop :=
  isspace c ∨ c = '+'.toUInt8 ∨ c = '-'.toUInt8 ∨ isdigit c ∨ c = '.'.toUInt8 ∨ isE c

/-- Either there is a number, and digits of a value in the range of `int` stand
behind an exponent letter, or the string begins with none of the characters that
are scanned. -/
def Complete (str : List UInt8) : Prop :=
  (HasDigit (body str) ∧ ∀ ds ∈ exponentDigits (afterMantissa (body str)),
    ds ≠ [] ∧ value 10 (ds.map digitValue) < 2 ^ 31) ∨
  ∀ c ∈ str.head?, ¬ Taken c

end Condition

/-- What stands behind an exponent letter, its sign and digits. -/
def afterExponent : List UInt8 → List UInt8
  | [] => []
  | c :: q => if isE c then (readSign q).2.dropWhile isdigit else c :: q

section Scanning

variable {D : Type*} {ops : DoubleOps D} {v frac : D} {p str : List UInt8}

theorem readWhole_rest : (readWhole ops v p).2 = p.dropWhile isdigit := by
  induction p generalizing v with
  | nil => rfl
  | cons c p ih =>
    rw [readWhole, List.dropWhile_cons]
    split
    · exact ih
    · rfl

theorem readFraction_rest : (readFraction ops v frac p).2 = p.dropWhile isdigit := by
  induction p generalizing v frac with
  | nil => rfl
  | cons c p ih =>
    rw [readFraction, List.dropWhile_cons]
    split
    · exact ih
    · rfl

theorem readPoint_rest : (readPoint ops v (p.dropWhile isdigit)).2 = afterMantissa p := by
  unfold readPoint afterMantissa
  cases p.dropWhile isdigit with
  | nil => rfl
  | cons c q =>
    dsimp only
    split
    · exact readFraction_rest
    · rfl

/-- The digits of the exponent are read exactly when no step overflows, that is,
when their value is in range. -/
theorem readExpVal_rest {n : ℕ} (hn : n < 2 ^ 31) :
    (readExpVal n p).map Prod.snd =
      if extend 10 n ((p.takeWhile isdigit).map digitValue) < 2 ^ 31 then
        some (p.dropWhile isdigit) else none := by
  induction p generalizing n with
  | nil =>
    rw [List.takeWhile_nil, List.map_nil, extend_nil, if_pos hn]
    rfl
  | cons c p ih =>
    rw [readExpVal]
    by_cases hc : isdigit c
    · rw [List.takeWhile_cons_of_pos hc, List.dropWhile_cons_of_pos hc, List.map_cons, extend_cons,
        if_pos hc]
      by_cases hrange : n * 10 + digitValue c < 2 ^ 31
      · rw [if_pos hrange]
        exact ih hrange
      · have hle : n * 10 + digitValue c ≤
            extend 10 (n * 10 + digitValue c) ((p.takeWhile isdigit).map digitValue) :=
          le_extend (by decide)
        rw [if_neg hrange, if_neg (by omega)]
        rfl
    · rw [List.takeWhile_cons_of_neg hc, List.dropWhile_cons_of_neg hc, List.map_nil, extend_nil,
        if_neg hc, if_pos hn]
      rfl

/-- The exponent is in the range of `int`. -/
def InRange (p : List UInt8) : Prop :=
  ∀ ds ∈ exponentDigits p, value 10 (ds.map digitValue) < 2 ^ 31

instance (p : List UInt8) : Decidable (InRange p) :=
  inferInstanceAs (Decidable (∀ ds ∈ exponentDigits p, _))

theorem readExponent_rest :
    (readExponent p).map Prod.snd = if InRange p then some (afterExponent p) else none := by
  unfold readExponent InRange afterExponent exponentDigits
  cases p with
  | nil => simp
  | cons c q =>
    by_cases hc : isE c
    · have hread := readExpVal_rest (p := (readSign q).2) (n := 0) (by decide)
      simp only [hc, if_true, Option.mem_some, forall_eq', Option.map_map]
      exact hread
    · simp [hc]

theorem strtod_end (ops : DoubleOps D) (str : List UInt8) :
    (strtod ops str true).map Prod.snd =
      if InRange (afterMantissa (body str)) then
        some (some (str.length - (afterExponent (afterMantissa (body str))).length))
      else none := by
  have hrest : (readPoint ops (readWhole ops (ops.ofInt 0) (body str)).1
      (readWhole ops (ops.ofInt 0) (body str)).2).2 = afterMantissa (body str) := by
    rw [readWhole_rest, readPoint_rest]
  have hstored : (strtod ops str true).map Prod.snd =
      ((readExponent (afterMantissa (body str))).map Prod.snd).map (storeEnd true str) := by
    rw [← hrest]
    unfold strtod body
    simp only [Option.map_map]
    rfl
  rw [hstored, readExponent_rest]
  split <;> rfl

end Scanning

section Parts

variable {c : UInt8} {p q r str w sign mantissa exponent rest : List UInt8}

theorem isspace_of_isdigit (h : isdigit c) : ¬ isspace c := by
  intro hspace
  have hmem : c ∈ [32, 12, 10, 13, 9, 11] := of_decide_eq_true hspace
  simp only [List.mem_cons, List.not_mem_nil, or_false] at hmem
  rcases hmem with rfl | rfl | rfl | rfl | rfl | rfl <;> exact absurd h (by decide)

theorem isdigit_of_isE (h : isE c) : ¬ isdigit c := by
  rcases of_decide_eq_true h with rfl | rfl <;> decide

theorem takeWhile_digits (hw : AllDigits w) (rest : List UInt8) :
    (w ++ rest).takeWhile isdigit = w ++ rest.takeWhile isdigit :=
  List.takeWhile_append_of_pos hw

theorem dropWhile_digits (hw : AllDigits w) (rest : List UInt8) :
    (w ++ rest).dropWhile isdigit = rest.dropWhile isdigit :=
  List.dropWhile_append_of_pos hw

theorem allDigits_takeWhile (p : List UInt8) : AllDigits (p.takeWhile isdigit) :=
  fun _ hc => List.mem_takeWhile_imp hc

theorem length_dropWhile_le (f : UInt8 → Bool) (p : List UInt8) :
    (p.dropWhile f).length ≤ p.length :=
  (List.dropWhile_suffix f).length_le

/-- A sign is read if there is one. -/
theorem readSign_split (p : List UInt8) : ∃ sign, IsSign sign ∧ p = sign ++ (readSign p).2 := by
  unfold readSign
  cases p with
  | nil => exact ⟨[], .inl rfl, rfl⟩
  | cons c q =>
    by_cases hc : c = '+'.toUInt8 ∨ c = '-'.toUInt8
    · refine ⟨[c], ?_, by simp [hc]⟩
      rcases hc with rfl | rfl
      · exact .inr (.inl rfl)
      · exact .inr (.inr rfl)
    · exact ⟨[], .inl rfl, by simp [hc]⟩

/-- What stands behind a sign is what is left, if it does not begin with one. -/
theorem readSign_append (hsign : IsSign sign)
    (hrest : ∀ c ∈ rest.head?, ¬ (c = '+'.toUInt8 ∨ c = '-'.toUInt8)) :
    (readSign (sign ++ rest)).2 = rest := by
  rcases hsign with rfl | rfl | rfl
  · cases rest with
    | nil => rfl
    | cons c q =>
      have hc := hrest c rfl
      rw [List.nil_append, readSign, if_neg hc]
  · rfl
  · rfl

theorem mantissa_split (p : List UInt8) :
    ∃ m, p = m ++ afterMantissa p ∧ (HasDigit p → Mantissa m) := by
  have hdigits := allDigits_takeWhile p
  have hsplit := List.takeWhile_append_dropWhile (p := isdigit) (l := p)
  unfold HasDigit fractionDigits afterMantissa
  generalize p.takeWhile isdigit = ds at hdigits hsplit
  generalize p.dropWhile isdigit = t at hsplit
  cases t with
  | nil =>
    refine ⟨ds, hsplit.symm, fun h => .digits hdigits ?_⟩
    exact h.resolve_right fun hne => hne rfl
  | cons c q =>
    by_cases hc : c = '.'.toUInt8
    · subst hc
      refine ⟨ds ++ '.'.toUInt8 :: q.takeWhile isdigit, ?_, fun h => ?_⟩
      · dsimp only
        rw [if_pos rfl, List.append_assoc, List.cons_append, List.takeWhile_append_dropWhile]
        exact hsplit.symm
      · dsimp only at h
        rw [if_pos rfl] at h
        exact .point hdigits (allDigits_takeWhile q) h
    · refine ⟨ds, ?_, fun h => .digits hdigits ?_⟩
      · dsimp only
        rw [if_neg hc]
        exact hsplit.symm
      · dsimp only at h
        rw [if_neg hc] at h
        exact h.resolve_right fun hne => hne rfl

/-- What stands behind the exponent, which must have a digit. -/
def standardRest (p : List UInt8) : List UInt8 :=
  if (exponentDigits p).getD [] = [] then p else afterExponent p

theorem exponent_split (p : List UInt8) : ∃ e, p = e ++ standardRest p ∧ Exponent e := by
  unfold standardRest
  split
  · exact ⟨[], rfl, .absent⟩
  · next hne =>
    unfold exponentDigits afterExponent at *
    cases p with
    | nil => exact absurd rfl hne
    | cons c q =>
      by_cases hc : isE c
      · simp only [if_pos hc, Option.getD_some] at hne ⊢
        obtain ⟨sign, hsign, hq⟩ := readSign_split q
        refine ⟨c :: (sign ++ (readSign q).2.takeWhile isdigit), ?_,
          .present hc hsign (allDigits_takeWhile _) hne⟩
        rw [List.cons_append, List.append_assoc, List.takeWhile_append_dropWhile, ← hq]
      · simp only [if_neg hc] at hne
        exact absurd rfl hne

/-- A string in which a digit is found begins with a decimal number. -/
theorem decimal_split (hdigit : HasDigit (body str)) :
    ∃ w, str = w ++ standardRest (afterMantissa (body str)) ∧ Decimal w := by
  obtain ⟨sign, hsign, hbody⟩ := readSign_split (str.dropWhile isspace)
  obtain ⟨m, hm, hmantissa⟩ := mantissa_split (body str)
  obtain ⟨e, he, hexponent⟩ := exponent_split (afterMantissa (body str))
  refine ⟨str.takeWhile isspace ++ (sign ++ (m ++ e)), ?_,
    .mk (fun c hc => List.mem_takeWhile_imp hc) hsign (hmantissa hdigit) hexponent⟩
  rw [List.append_assoc, List.append_assoc, List.append_assoc, ← he, ← hm]
  unfold body
  rw [← hbody, List.takeWhile_append_dropWhile]

theorem length_standardRest_le (p : List UInt8) : (standardRest p).length ≤ p.length := by
  obtain ⟨e, he, _⟩ := exponent_split p
  have hlen := congrArg List.length he
  rw [List.length_append] at hlen
  omega

theorem length_readSign_le (p : List UInt8) : (readSign p).2.length ≤ p.length := by
  obtain ⟨sign, _, hp⟩ := readSign_split p
  have hlen := congrArg List.length hp
  rw [List.length_append] at hlen
  omega

theorem afterMantissa_of_point (h : p.dropWhile isdigit = '.'.toUInt8 :: q) :
    afterMantissa p = q.dropWhile isdigit := by
  rw [afterMantissa, h]
  rfl

theorem afterMantissa_of_ne (h : p.dropWhile isdigit = c :: q) (hc : c ≠ '.'.toUInt8) :
    afterMantissa p = c :: q := by
  rw [afterMantissa, h]
  exact if_neg hc

theorem length_afterMantissa_le (p : List UInt8) :
    (afterMantissa p).length ≤ (p.dropWhile isdigit).length := by
  unfold afterMantissa
  cases p.dropWhile isdigit with
  | nil => exact le_rfl
  | cons c q =>
    dsimp only
    split
    · exact (length_dropWhile_le _ q).trans (Nat.le_succ _)
    · exact le_rfl

theorem dropWhile_point (hw : AllDigits w) (q : List UInt8) :
    (w ++ '.'.toUInt8 :: q).dropWhile isdigit = '.'.toUInt8 :: q := by
  rw [dropWhile_digits hw]
  rfl

theorem takeWhile_point (hw : AllDigits w) (q : List UInt8) :
    (w ++ '.'.toUInt8 :: q).takeWhile isdigit = w := by
  rw [takeWhile_digits hw]
  exact List.append_nil w

/-- The scan finds a digit in a mantissa, and goes to its end at least. -/
theorem mantissa_append (hmantissa : Mantissa mantissa) (rest : List UInt8) :
    HasDigit (mantissa ++ rest) ∧ (afterMantissa (mantissa ++ rest)).length ≤ rest.length := by
  cases hmantissa with
  | digits h hne =>
    refine ⟨.inl ?_, (length_afterMantissa_le _).trans ?_⟩
    · rw [takeWhile_digits h]
      exact List.append_ne_nil_of_left_ne_nil hne _
    · rw [dropWhile_digits h]
      exact length_dropWhile_le _ rest
  | @point w f h hf hne =>
    have hdrop : (w ++ '.'.toUInt8 :: f ++ rest).dropWhile isdigit =
        '.'.toUInt8 :: (f ++ rest) := by
      rw [List.append_assoc]
      exact dropWhile_point h _
    refine ⟨hne.imp (fun hw => ?_) fun hf_ne => ?_, ?_⟩
    · rw [List.append_assoc, List.cons_append, takeWhile_point h]
      exact hw
    · have hfraction : fractionDigits (w ++ '.'.toUInt8 :: f ++ rest) =
          (f ++ rest).takeWhile isdigit := by
        rw [fractionDigits, hdrop]
        rfl
      rw [hfraction, takeWhile_digits hf]
      exact List.append_ne_nil_of_left_ne_nil hf_ne _
    · rw [afterMantissa_of_point hdrop, dropWhile_digits hf]
      exact length_dropWhile_le _ rest

/-- A mantissa with an exponent letter behind it is scanned exactly. -/
theorem afterMantissa_append (hmantissa : Mantissa mantissa) (hc : isE c) (q : List UInt8) :
    afterMantissa (mantissa ++ c :: q) = c :: q := by
  have hdrop : (c :: q).dropWhile isdigit = c :: q :=
    List.dropWhile_cons_of_neg (isdigit_of_isE hc)
  have hpoint : c ≠ '.'.toUInt8 := by
    rintro rfl
    exact absurd hc (by decide)
  cases hmantissa with
  | digits h _ => exact afterMantissa_of_ne ((dropWhile_digits h _).trans hdrop) hpoint
  | @point w f h hf _ =>
    have hscan : (w ++ '.'.toUInt8 :: f ++ c :: q).dropWhile isdigit =
        '.'.toUInt8 :: (f ++ c :: q) := by
      rw [List.append_assoc]
      exact dropWhile_point h _
    rw [afterMantissa_of_point hscan, dropWhile_digits hf, hdrop]

theorem head_digits (hw : AllDigits w) (hne : w ≠ []) : ∃ c t, w = c :: t ∧ isdigit c := by
  obtain ⟨c, t, rfl⟩ := List.exists_cons_of_ne_nil hne
  exact ⟨c, t, rfl, hw c List.mem_cons_self⟩

theorem not_sign_of_isdigit (h : isdigit c) : ¬ (c = '+'.toUInt8 ∨ c = '-'.toUInt8) := by
  rintro (rfl | rfl) <;> exact absurd h (by decide)

/-- The scan goes to the end of a mantissa and an exponent at least. -/
theorem exponent_append (hmantissa : Mantissa mantissa) (hexponent : Exponent exponent)
    (rest : List UInt8) :
    (standardRest (afterMantissa (mantissa ++ (exponent ++ rest)))).length ≤ rest.length := by
  cases hexponent with
  | absent => exact (length_standardRest_le _).trans (mantissa_append hmantissa rest).2
  | @present c sign w hc hsign h hne =>
    rw [List.cons_append, afterMantissa_append hmantissa hc, List.append_assoc]
    obtain ⟨d, t, hw, hd⟩ := head_digits h hne
    have hread : (readSign (sign ++ (w ++ rest))).2 = w ++ rest := by
      refine readSign_append hsign fun b hb => ?_
      rw [hw, List.cons_append, List.head?_cons, Option.mem_some] at hb
      exact hb ▸ not_sign_of_isdigit hd
    have hdigits : exponentDigits (c :: (sign ++ (w ++ rest))) =
        some (w ++ rest.takeWhile isdigit) := by
      rw [exponentDigits, if_pos hc, hread, takeWhile_digits h]
    have hafter : afterExponent (c :: (sign ++ (w ++ rest))) = rest.dropWhile isdigit := by
      rw [afterExponent, if_pos hc, hread, dropWhile_digits h]
    have hne_digits : w ++ rest.takeWhile isdigit ≠ [] :=
      List.append_ne_nil_of_left_ne_nil hne _
    rw [standardRest, hdigits, Option.getD_some, if_neg hne_digits, hafter]
    exact length_dropWhile_le _ rest

theorem head_mantissa (hmantissa : Mantissa mantissa) :
    ∃ c t, mantissa = c :: t ∧ (isdigit c ∨ c = '.'.toUInt8) := by
  cases hmantissa with
  | digits h hne =>
    obtain ⟨c, t, hw, hc⟩ := head_digits h hne
    exact ⟨c, t, hw, .inl hc⟩
  | @point w f h _ _ =>
    cases w with
    | nil => exact ⟨_, f, rfl, .inr rfl⟩
    | cons c w => exact ⟨c, _, rfl, .inl (h c List.mem_cons_self)⟩

/-- Blanks and a sign before a mantissa are scanned exactly. -/
theorem body_append (hblanks : ∀ c ∈ w, isspace c) (hsign : IsSign sign)
    (hmantissa : Mantissa mantissa) (rest : List UInt8) :
    body (w ++ (sign ++ (mantissa ++ rest))) = mantissa ++ rest := by
  obtain ⟨c, t, hm, hc⟩ := head_mantissa hmantissa
  have hspace : ¬ isspace c := hc.elim isspace_of_isdigit (by rintro rfl; decide)
  have hdrop : (sign ++ (mantissa ++ rest)).dropWhile isspace = sign ++ (mantissa ++ rest) := by
    rcases hsign with rfl | rfl | rfl
    · rw [hm]
      exact List.dropWhile_cons_of_neg hspace
    · rfl
    · rfl
  rw [body, List.dropWhile_append_of_pos hblanks, hdrop]
  refine readSign_append hsign fun b hb => ?_
  rw [hm, List.cons_append, List.head?_cons, Option.mem_some] at hb
  subst hb
  exact hc.elim not_sign_of_isdigit (by rintro rfl; decide)

/-- No decimal number at the beginning of a string is longer than what a scan with
a way back takes. -/
theorem decimal_le (hdecimal : Decimal w) (rest : List UInt8) :
    HasDigit (body (w ++ rest)) ∧
      (standardRest (afterMantissa (body (w ++ rest)))).length ≤ rest.length := by
  cases hdecimal with
  | @mk blanks sign mantissa exponent hblanks hsign hmantissa hexponent =>
    have hbody : body (blanks ++ (sign ++ (mantissa ++ exponent)) ++ rest) =
        mantissa ++ (exponent ++ rest) := by
      rw [List.append_assoc, List.append_assoc, List.append_assoc]
      exact body_append hblanks hsign hmantissa _
    rw [hbody]
    exact ⟨(mantissa_append hmantissa _).1, exponent_append hmantissa hexponent rest⟩

end Parts

section Longest

variable {c : UInt8} {q str : List UInt8}

/-- Where a digit is found, the longest decimal number ends with an exponent that
has a digit, or before it. -/
theorem lastOf_decimals (hdigit : HasDigit (body str)) :
    LastOf (decimals str)
      (some (str.length - (standardRest (afterMantissa (body str))).length)) := by
  obtain ⟨w, hstr, hdecimal⟩ := decimal_split hdigit
  have hlen := congrArg List.length hstr
  rw [List.length_append] at hlen
  have hcount : str.length - (standardRest (afterMantissa (body str))).length = w.length := by
    omega
  have htake : str.take w.length = w := by
    conv_lhs => rw [hstr]
    exact List.take_left
  refine .found ⟨?_, ?_⟩
  · rw [hcount]
    exact ⟨by omega, htake.symm ▸ hdecimal⟩
  · rintro n ⟨hn, hprefix⟩
    have hle := (decimal_le hprefix (str.drop n)).2
    rw [List.take_append_drop, List.length_drop] at hle
    omega

theorem lastOf_decimals_none (hdigit : ¬ HasDigit (body str)) : LastOf (decimals str) none := by
  refine .absent (Set.eq_empty_of_forall_notMem ?_)
  rintro n ⟨_, hdecimal⟩
  have h := (decimal_le hdecimal (str.drop n)).1
  rw [List.take_append_drop] at h
  exact hdigit h

theorem length_afterExponent_le (p : List UInt8) : (afterExponent p).length ≤ p.length := by
  unfold afterExponent
  cases p with
  | nil => exact le_rfl
  | cons c q =>
    dsimp only
    split
    · exact ((length_dropWhile_le _ _).trans (length_readSign_le q)).trans (Nat.le_succ _)
    · exact le_rfl

/-- Both ends agree unless an exponent letter stands without digits. -/
theorem length_afterExponent_eq_iff (p : List UInt8) :
    (afterExponent p).length = (standardRest p).length ↔ exponentDigits p ≠ some [] := by
  unfold standardRest
  cases p with
  | nil => exact iff_of_true rfl (by simp [exponentDigits])
  | cons c q =>
    by_cases hc : isE c
    · have hlt : (afterExponent (c :: q)).length < (c :: q).length := by
        rw [afterExponent, if_pos hc, List.length_cons]
        exact Nat.lt_succ_of_le ((length_dropWhile_le _ _).trans (length_readSign_le q))
      rw [exponentDigits, if_pos hc, Option.getD_some, Ne, Option.some.injEq]
      split
      · next h => exact iff_of_false hlt.ne fun hne => hne h
      · next h => exact iff_of_true rfl h
    · have hsame : afterExponent (c :: q) = c :: q := if_neg hc
      rw [exponentDigits, if_neg hc, Option.getD_none, if_pos rfl, hsame]
      exact iff_of_true rfl (by simp)

theorem body_of_not (hspace : ¬ isspace c) (hsign : ¬ (c = '+'.toUInt8 ∨ c = '-'.toUInt8)) :
    body (c :: q) = c :: q := by
  rw [body, List.dropWhile_cons_of_neg hspace, readSign, if_neg hsign]

theorem afterMantissa_of_not (hdigit : ¬ isdigit c) (hpoint : c ≠ '.'.toUInt8) :
    afterMantissa (c :: q) = c :: q :=
  afterMantissa_of_ne (List.dropWhile_cons_of_neg hdigit) hpoint

theorem length_body_le (str : List UInt8) : (body str).length ≤ (str.dropWhile isspace).length :=
  length_readSign_le _

/-- Nothing is scanned exactly where the string begins with a character that no part
takes. -/
theorem scanned_nothing_iff (c : UInt8) (q : List UInt8) :
    (afterExponent (afterMantissa (body (c :: q)))).length = (c :: q).length ↔ ¬ Taken c := by
  have hexponent := length_afterExponent_le (afterMantissa (body (c :: q)))
  have hmantissa := length_afterMantissa_le (body (c :: q))
  have hdigits := length_dropWhile_le isdigit (body (c :: q))
  have hbody := length_body_le (c :: q)
  have hblanks := length_dropWhile_le isspace (c :: q)
  rw [List.length_cons] at *
  constructor
  · -- each part in turn would leave less than the string
    intro hall
    have hspace : ¬ isspace c := by
      intro h
      rw [List.dropWhile_cons_of_pos h] at hbody
      have hle := length_dropWhile_le isspace q
      omega
    have hsign : ¬ (c = '+'.toUInt8 ∨ c = '-'.toUInt8) := by
      intro h
      have hq : body (c :: q) = q := by
        rw [body, List.dropWhile_cons_of_neg hspace, readSign, if_pos h]
      rw [hq] at hdigits hmantissa hexponent hall
      omega
    rw [body_of_not hspace hsign] at hdigits hmantissa hexponent hall
    have hdigit : ¬ isdigit c := by
      intro h
      rw [List.dropWhile_cons_of_pos h] at hmantissa
      have hle := length_dropWhile_le isdigit q
      omega
    have hpoint : c ≠ '.'.toUInt8 := by
      rintro rfl
      rw [afterMantissa_of_point (List.dropWhile_cons_of_neg hdigit)] at hexponent hall
      have hle := length_dropWhile_le isdigit q
      omega
    rw [afterMantissa_of_not hdigit hpoint] at hall
    have hletter : ¬ isE c := by
      intro h
      rw [afterExponent, if_pos h] at hall
      have hle := (length_dropWhile_le isdigit _).trans (length_readSign_le q)
      omega
    rintro (h | h | h | h | h | h)
    · exact hspace h
    · exact hsign (.inl h)
    · exact hsign (.inr h)
    · exact hdigit h
    · exact hpoint h
    · exact hletter h
  · intro hnot
    unfold Taken at hnot
    simp only [not_or] at hnot
    obtain ⟨hspace, hplus, hminus, hdigit, hpoint, hletter⟩ := hnot
    rw [body_of_not hspace (not_or.mpr ⟨hplus, hminus⟩), afterMantissa_of_not hdigit hpoint,
      afterExponent, if_neg hletter, List.length_cons]

/-- A string that begins with no character of a number has no digit and no
exponent. -/
theorem nothing_of_not_taken (h : ∀ c ∈ str.head?, ¬ Taken c) :
    ¬ HasDigit (body str) ∧ exponentDigits (afterMantissa (body str)) = none := by
  cases str with
  | nil => exact ⟨by simp [HasDigit, fractionDigits, body, readSign], rfl⟩
  | cons c q =>
    have hnot := h c rfl
    unfold Taken at hnot
    simp only [not_or] at hnot
    obtain ⟨hspace, hplus, hminus, hdigit, hpoint, hletter⟩ := hnot
    have hfraction : fractionDigits (c :: q) = [] := by
      rw [fractionDigits, List.dropWhile_cons_of_neg hdigit]
      exact if_neg hpoint
    rw [body_of_not hspace (not_or.mpr ⟨hplus, hminus⟩), afterMantissa_of_not hdigit hpoint,
      HasDigit, List.takeWhile_cons_of_neg hdigit, hfraction, exponentDigits, if_neg hletter]
    exact ⟨by simp, rfl⟩

theorem length_scan_le (str : List UInt8) :
    (afterExponent (afterMantissa (body str))).length ≤ str.length :=
  calc (afterExponent (afterMantissa (body str))).length
    _ ≤ (afterMantissa (body str)).length := length_afterExponent_le _
    _ ≤ ((body str).dropWhile isdigit).length := length_afterMantissa_le _
    _ ≤ (body str).length := length_dropWhile_le _ _
    _ ≤ (str.dropWhile isspace).length := length_body_le str
    _ ≤ str.length := length_dropWhile_le _ _

theorem consumes_iff_of_lastOf {D : Type*} (ops : DoubleOps D) {r : Option ℕ}
    (hr : LastOf (decimals str) r) :
    Consumes ops str ↔ InRange (afterMantissa (body str)) ∧
      str.length - (afterExponent (afterMantissa (body str))).length = r.getD 0 := by
  have hend := strtod_end ops str
  constructor
  · rintro ⟨v, r', hstrtod, hlast⟩
    rw [hstrtod, hlast.unique hr, Option.map_some] at hend
    split at hend
    · next hrange => exact ⟨hrange, (Option.some.inj (Option.some.inj hend)).symm⟩
    · cases hend
  · rintro ⟨hrange, hlen⟩
    rw [if_pos hrange, hlen, Option.map_eq_some_iff] at hend
    obtain ⟨⟨v, n⟩, hstrtod, hn⟩ := hend
    exact ⟨v, r, by rw [hstrtod]; exact congrArg (fun n => some (v, n)) hn, hr⟩

end Longest

/-- The end is right, and the exponent in range, exactly for complete strings. -/
theorem consumes_iff {D : Type*} (ops : DoubleOps D) (str : List UInt8) :
    Consumes ops str ↔ Complete str := by
  have hscan := length_scan_le str
  by_cases hdigit : HasDigit (body str)
  · have hsecond : ¬ ∀ c ∈ str.head?, ¬ Taken c := fun h => (nothing_of_not_taken h).1 hdigit
    have hends := length_afterExponent_eq_iff (afterMantissa (body str))
    have hstandard := (length_standardRest_le (afterMantissa (body str))).trans
      (length_afterMantissa_le _)
    have hbody := (length_dropWhile_le isdigit (body str)).trans (length_body_le str)
    have hblanks := length_dropWhile_le isspace str
    have hequal : str.length - (afterExponent (afterMantissa (body str))).length =
        str.length - (standardRest (afterMantissa (body str))).length ↔
          exponentDigits (afterMantissa (body str)) ≠ some [] := by
      rw [← hends]
      omega
    rw [consumes_iff_of_lastOf ops (lastOf_decimals hdigit), Option.getD_some, hequal, Complete,
      or_iff_left hsecond, and_iff_right hdigit, InRange]
    constructor
    · rintro ⟨hrange, hne⟩ ds hds
      exact ⟨fun hnil => hne (hnil ▸ hds), hrange ds hds⟩
    · intro h
      exact ⟨fun ds hds => (h ds hds).2, fun hnil => (h [] hnil).1 rfl⟩
  · rw [consumes_iff_of_lastOf ops (lastOf_decimals_none hdigit), Option.getD_none, Complete,
      or_iff_right fun h => hdigit h.1]
    constructor
    · rintro ⟨_, hzero⟩ c hc
      cases str with
      | nil => cases hc
      | cons b q =>
        obtain rfl : b = c := by simpa using hc
        exact (scanned_nothing_iff b q).mp (by omega)
    · intro h
      refine ⟨fun ds hds => ?_, ?_⟩
      · rw [(nothing_of_not_taken h).2] at hds
        cases hds
      · cases str with
        | nil => rfl
        | cons c q =>
          rw [(scanned_nothing_iff c q).mpr (h c rfl), Nat.sub_self]

/-- Operations on exact numbers, with powers of integers. -/
def exactOps : DoubleOps ℚ where
  ofInt n := n
  tenth := 1 / 10
  add x y := x + y
  mul x y := x * y
  pow x y := if 0 ≤ y then x ^ y.num.toNat else 1 / x ^ (-y).num.toNat

/-- An exponent letter without digits is consumed. -/
theorem strtod_letter : ¬ Consumes exactOps ['1'.toUInt8, 'e'.toUInt8] := by
  have hdigit : HasDigit (body ['1'.toUInt8, 'e'.toUInt8]) := .inl (by decide)
  rw [consumes_iff_of_lastOf exactOps (lastOf_decimals hdigit)]
  decide

end Heartix.Stdlib
