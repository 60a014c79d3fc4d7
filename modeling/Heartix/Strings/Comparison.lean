import Heartix.Lib.ThreeWay
import Heartix.Strings.Substring

/-!
The functions that compare strings and memory. They all go through the characters as
`unsigned char`, so each of them is the lexicographic order of what it looks at: the
strings, their beginnings, or their lower case.
-/

namespace Heartix.Strings

open Stdlib ThreeWay

def memcmp : List UInt8 → List UInt8 → ℕ → Option ℤ
  | _, _, 0 => some 0
  | a :: mem_a, b :: mem_b, len + 1 =>
      if b < a then some 1
      else if a < b then some (-1)
      else memcmp mem_a mem_b len
  | _, _, _ => none

def strcoll (str_a str_b : List UInt8) : Option ℤ := strcmp str_a str_b

def strcasecmp : List UInt8 → List UInt8 → Option ℤ
  | x :: str_a, y :: str_b =>
      let a := tolower x
      let b := tolower y
      if a = 0 ∧ b = 0 then some 0
      else if a < b then some (-1)
      else if b < a then some 1
      else strcasecmp str_a str_b
  | _, _ => none

def strncasecmp : List UInt8 → List UInt8 → ℕ → Option ℤ
  | _, _, 0 => some 0
  | x :: str_a, y :: str_b, max + 1 =>
      let a := tolower x
      let b := tolower y
      if a = 0 ∧ b = 0 then some 0
      else if a < b then some (-1)
      else if b < a then some 1
      else strncasecmp str_a str_b max
  | _, _, _ => none

/-- The lexicographic order of characters. -/
def lexical (s t : List UInt8) : Ordering := List.compareLex compare s t

section Lexical

variable {a b : UInt8} {s t : List UInt8}

theorem compare_of_lt (h : a < b) : compare a b = .lt := if_pos h

theorem compare_of_gt (h : b < a) : compare a b = .gt := by
  have hnot : ¬ a < b := by
    rw [UInt8.lt_iff_toNat_lt] at h ⊢
    omega
  have hne : a ≠ b := by
    rintro rfl
    exact hnot h
  exact (if_neg hnot).trans (if_neg hne)

theorem eq_of_not_lt (h : ¬ a < b) (h' : ¬ b < a) : a = b := by
  rw [UInt8.lt_iff_toNat_lt] at h h'
  rw [← UInt8.toNat_inj]
  omega

theorem lexical_cons_lt (h : a < b) : lexical (a :: s) (b :: t) = .lt := by
  unfold lexical
  rw [List.compareLex_cons_cons, compare_of_lt h]
  rfl

theorem lexical_cons_gt (h : b < a) : lexical (a :: s) (b :: t) = .gt := by
  unfold lexical
  rw [List.compareLex_cons_cons, compare_of_gt h]
  rfl

theorem lexical_cons_self (a : UInt8) : lexical (a :: s) (a :: t) = lexical s t := by
  have hself : compare a a = .eq := Std.LawfulEqCmp.compare_eq_iff_eq.mpr rfl
  unfold lexical
  rw [List.compareLex_cons_cons, hself]
  rfl

end Lexical

section Bounded

variable {s t : List UInt8}

theorem memcmp_eq (len : ℕ) (hs : len ≤ s.length) (ht : len ≤ t.length) :
    memcmp s t len = some (sign (lexical (s.take len) (t.take len))) := by
  induction len generalizing s t with
  | zero =>
    rw [memcmp, List.take_zero, List.take_zero]
    rfl
  | succ len ih =>
    obtain ⟨a, s, rfl⟩ := List.exists_cons_of_length_pos (Nat.lt_of_lt_of_le len.succ_pos hs)
    obtain ⟨b, t, rfl⟩ := List.exists_cons_of_length_pos (Nat.lt_of_lt_of_le len.succ_pos ht)
    rw [memcmp, List.take_succ_cons, List.take_succ_cons]
    by_cases hgt : b < a
    · rw [if_pos hgt, lexical_cons_gt hgt]
      rfl
    by_cases hlt : a < b
    · rw [if_neg hgt, if_pos hlt, lexical_cons_lt hlt]
      rfl
    obtain rfl := eq_of_not_lt hlt hgt
    rw [if_neg hgt, if_neg hlt, lexical_cons_self]
    exact ih (Nat.le_of_succ_le_succ hs) (Nat.le_of_succ_le_succ ht)

/-- The text of a pointer with a limit: up to the terminator, as far as the limit goes. -/
def textUpTo (n : ℕ) (p : List UInt8) : List UInt8 := (p.take n).takeWhile (· ≠ 0)

theorem textUpTo_zero (p : List UInt8) : textUpTo 0 p = [] := by
  rw [textUpTo, List.take_zero]
  rfl

theorem textUpTo_succ (n : ℕ) (a : UInt8) (p : List UInt8) :
    textUpTo (n + 1) (a :: p) = if a = 0 then [] else a :: textUpTo n p := by
  unfold textUpTo
  rw [List.take_succ_cons, List.takeWhile_cons]
  by_cases ha : a = 0
  · rw [if_pos ha, if_neg (by simpa using ha)]
  · rw [if_neg ha, if_pos (by simpa using ha)]

theorem lexical_text_lt {a b : UInt8} (h : a < b) (n : ℕ) :
    lexical (textUpTo (n + 1) (a :: s)) (textUpTo (n + 1) (b :: t)) = .lt := by
  have hb : b ≠ 0 := by
    rintro rfl
    exact absurd h (UInt8.not_lt.mpr (UInt8.zero_le))
  rw [textUpTo_succ, textUpTo_succ, if_neg hb]
  by_cases ha : a = 0
  · rw [if_pos ha]
    rfl
  · rw [if_neg ha]
    exact lexical_cons_lt h

theorem lexical_swap (s t : List UInt8) : lexical t s = (lexical s t).swap := by
  unfold lexical
  exact Std.OrientedCmp.eq_swap

/-- A pointer that can be read up to the limit. -/
def Readable (n : ℕ) (p : List UInt8) : Prop := 0 ∈ p ∨ n ≤ p.length

theorem Readable.cons {n : ℕ} {p : List UInt8} (h : Readable (n + 1) p) :
    ∃ a rest, p = a :: rest ∧ (a ≠ 0 → Readable n rest) := by
  cases p with
  | nil =>
    rcases h with h | h
    · cases h
    · exact absurd h (Nat.not_succ_le_zero n)
  | cons a rest =>
    refine ⟨a, rest, rfl, fun ha => ?_⟩
    rcases h with h | h
    · rcases List.mem_cons.mp h with h | h
      · exact absurd h.symm ha
      · exact Or.inl h
    · exact Or.inr (Nat.le_of_succ_le_succ h)

theorem strncmp_eq (n : ℕ) (hs : Readable n s) (ht : Readable n t) :
    strncmp s t n = some (sign (lexical (textUpTo n s) (textUpTo n t))) := by
  induction n generalizing s t with
  | zero =>
    rw [strncmp, textUpTo_zero, textUpTo_zero]
    rfl
  | succ n ih =>
    obtain ⟨a, s, rfl, hsRest⟩ := hs.cons
    obtain ⟨b, t, rfl, htRest⟩ := ht.cons
    rw [strncmp]
    by_cases hzero : a = 0 ∧ b = 0
    · rw [if_pos hzero, textUpTo_succ, textUpTo_succ, if_pos hzero.1, if_pos hzero.2]
      rfl
    rw [if_neg hzero]
    by_cases hlt : a < b
    · rw [if_pos hlt, lexical_text_lt hlt]
      rfl
    rw [if_neg hlt]
    by_cases hgt : b < a
    · rw [if_pos hgt, lexical_swap, lexical_text_lt hgt]
      rfl
    obtain rfl := eq_of_not_lt hlt hgt
    have ha : a ≠ 0 := fun ha => hzero ⟨ha, ha⟩
    rw [if_neg hgt, textUpTo_succ, textUpTo_succ, if_neg ha, if_neg ha, lexical_cons_self]
    exact ih (hsRest ha) (htRest ha)

theorem strncmp_of_length_lt {n : ℕ} (h : s.length < n) : strncmp s t n = strcmp s t := by
  induction n generalizing s t with
  | zero => exact absurd h (Nat.not_lt_zero _)
  | succ n ih =>
    cases s with
    | nil => cases t <;> rfl
    | cons a s =>
      cases t with
      | nil => rfl
      | cons b t =>
        rw [strncmp, strcmp, ih (Nat.lt_of_succ_lt_succ h)]

/-- The text of a pointer. -/
def textOf (p : List UInt8) : List UInt8 := p.takeWhile (· ≠ 0)

theorem textUpTo_of_length_le {n : ℕ} {p : List UInt8} (h : p.length ≤ n) :
    textUpTo n p = textOf p := by
  rw [textUpTo, List.take_of_length_le h]
  rfl

theorem strcmp_eq (hs : 0 ∈ s) (ht : 0 ∈ t) :
    strcmp s t = some (sign (lexical (textOf s) (textOf t))) := by
  have hlong : s.length < s.length + t.length + 1 := by omega
  rw [← strncmp_of_length_lt hlong, strncmp_eq _ (Or.inl hs) (Or.inl ht),
    textUpTo_of_length_le (by omega), textUpTo_of_length_le (by omega)]

end Bounded

section Caseless

variable {s t : List UInt8}

theorem strncasecmp_eq_strncmp (n : ℕ) (s t : List UInt8) :
    strncasecmp s t n = strncmp (s.map tolower) (t.map tolower) n := by
  induction n generalizing s t with
  | zero => rw [strncasecmp, strncmp]
  | succ n ih =>
    cases s with
    | nil => cases t <;> rfl
    | cons a s =>
      cases t with
      | nil => rfl
      | cons b t =>
        rw [List.map_cons, List.map_cons, strncasecmp, strncmp, ih]

theorem strcasecmp_eq_strcmp (s t : List UInt8) :
    strcasecmp s t = strcmp (s.map tolower) (t.map tolower) := by
  induction s generalizing t with
  | nil => cases t <;> rfl
  | cons a s ih =>
    cases t with
    | nil => rfl
    | cons b t => rw [List.map_cons, List.map_cons, strcasecmp, strcmp, ih]

theorem tolower_eq_zero_iff (a : UInt8) : tolower a = 0 ↔ a = 0 := by
  rw [← UInt8.toNat_inj, ← UInt8.toNat_inj, toNat_tolower]
  change _ = 0 ↔ a.toNat = 0
  split
  · omega
  · rfl

theorem zero_mem_lower (p : List UInt8) : 0 ∈ p.map tolower ↔ 0 ∈ p := by
  rw [List.mem_map]
  constructor
  · rintro ⟨a, ha, hzero⟩
    rwa [← (tolower_eq_zero_iff a).mp hzero]
  · exact fun h => ⟨0, h, (tolower_eq_zero_iff 0).mpr rfl⟩

theorem textOf_lower (p : List UInt8) : textOf (p.map tolower) = (textOf p).map tolower := by
  unfold textOf
  rw [List.takeWhile_map]
  congr 2
  funext a
  exact decide_eq_decide.mpr (not_congr (tolower_eq_zero_iff a))

theorem textUpTo_lower (n : ℕ) (p : List UInt8) :
    textUpTo n (p.map tolower) = (textUpTo n p).map tolower := by
  unfold textUpTo
  rw [← List.map_take]
  exact textOf_lower (p.take n)

end Caseless

section Orders

/-- The function compares what it reads of two pointers: its answers are -1, 0 and 1, those
for exchanged arguments are opposite, it answers 0 for equal texts only, and what is not
above a text is not above any text further up. -/
structure Orders (f : List UInt8 → List UInt8 → Option ℤ) (P : List UInt8 → Prop)
    (key : List UInt8 → List UInt8) : Prop where
  value : ∀ p q, P p → P q → f p q = some (sign (lexical (key p) (key q)))
  opposite : ∀ p q, P p → P q → f q p = (f p q).map fun v => -v
  equal : ∀ p q, P p → P q → (f p q = some 0 ↔ key p = key q)
  trans : ∀ p q r, P p → P q → P r → (∃ v ≤ 0, f p q = some v) → (∃ v ≤ 0, f q r = some v) →
    ∃ v ≤ 0, f p r = some v

theorem lexical_trans {s t u : List UInt8} (hst : sign (lexical s t) ≤ 0)
    (htu : sign (lexical t u) ≤ 0) : sign (lexical s u) ≤ 0 :=
  sign_trans (List.compareLex compare) hst htu

theorem lexical_eq_iff {s t : List UInt8} : sign (lexical s t) = 0 ↔ s = t :=
  sign_zero_iff (List.compareLex compare)

theorem orders_of_value {f : List UInt8 → List UInt8 → Option ℤ} {P : List UInt8 → Prop}
    {key : List UInt8 → List UInt8}
    (hvalue : ∀ p q, P p → P q → f p q = some (sign (lexical (key p) (key q)))) :
    Orders f P key where
  value := hvalue
  opposite p q hp hq := by
    rw [hvalue p q hp hq, hvalue q p hq hp, Option.map_some, lexical_swap, sign_swap]
  equal p q hp hq := by
    rw [hvalue p q hp hq, Option.some_inj, lexical_eq_iff]
  trans p q r hp hq hr hpq hqr := by
    obtain ⟨v, hv, hpq⟩ := hpq
    obtain ⟨w, hw, hqr⟩ := hqr
    rw [hvalue p q hp hq] at hpq
    rw [hvalue q r hq hr] at hqr
    obtain rfl := Option.some.inj hpq
    obtain rfl := Option.some.inj hqr
    exact ⟨_, lexical_trans hv hw, hvalue p r hp hr⟩

/-- Each function is an order of the texts it is meant to compare: of whole strings, of
their beginnings, of their lower case, of blocks of memory. -/
theorem comparisons_order (n : ℕ) :
    Orders strcmp (0 ∈ ·) textOf ∧ Orders strcoll (0 ∈ ·) textOf ∧
      Orders (strncmp · · n) (Readable n) (textUpTo n) ∧
      Orders strcasecmp (0 ∈ ·) (fun p => (textOf p).map tolower) ∧
      Orders (strncasecmp · · n) (Readable n) (fun p => (textUpTo n p).map tolower) ∧
      Orders (memcmp · · n) (n ≤ ·.length) (List.take n) := by
  have hstrcmp : Orders strcmp (0 ∈ ·) textOf :=
    orders_of_value fun p q hp hq => strcmp_eq hp hq
  have hreadable {p : List UInt8} (hp : Readable n p) : Readable n (p.map tolower) := by
    unfold Readable
    rw [zero_mem_lower, List.length_map]
    exact hp
  refine ⟨hstrcmp, hstrcmp, orders_of_value fun p q hp hq => strncmp_eq n hp hq, ?_, ?_,
    orders_of_value fun p q hp hq => memcmp_eq n hp hq⟩
  · apply orders_of_value
    intro p q hp hq
    rw [strcasecmp_eq_strcmp, strcmp_eq ((zero_mem_lower p).mpr hp) ((zero_mem_lower q).mpr hq),
      textOf_lower, textOf_lower]
  · apply orders_of_value
    intro p q hp hq
    rw [strncasecmp_eq_strncmp, strncmp_eq n (hreadable hp) (hreadable hq), textUpTo_lower,
      textUpTo_lower]

end Orders

end Heartix.Strings
