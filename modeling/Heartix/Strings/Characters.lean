import Heartix.Lib.Occurrence
import Mathlib.Data.List.Basic

/-!
`strlen`, `strcmp`, `strncmp`, `strchr` and `strrchr`. A pointer is the list of the bytes from it to
the end of the memory that may be read, a result the distance from the pointer
passed, and a function that would read beyond the end has no result. `char` is
signed, so a character of 128 and more compares as a negative number.
-/

namespace Heartix.Strings

open Occurrence

/-- The value of a `char` in an arithmetic context. -/
def charValue (b : UInt8) : ℤ := if b.toNat < 128 then b.toNat else b.toNat - 256

/-- The conversion of an `int` to `char`. -/
def toChar (c : ℤ) : UInt8 := UInt8.ofNat (c % 256).toNat

def strlen : List UInt8 → Option ℕ
  | [] => none
  | b :: str => if b = 0 then some 0 else (strlen str).map (· + 1)

def strcmp : List UInt8 → List UInt8 → Option ℤ
  | a :: str_a, b :: str_b =>
      if a = 0 ∧ b = 0 then some 0
      else if a < b then some (-1)
      else if b < a then some 1
      else strcmp str_a str_b
  | _, _ => none

def strncmp : List UInt8 → List UInt8 → ℕ → Option ℤ
  | _, _, 0 => some 0
  | a :: str_a, b :: str_b, max + 1 =>
      if a = 0 ∧ b = 0 then some 0
      else if a < b then some (-1)
      else if b < a then some 1
      else strncmp str_a str_b max
  | _, _, _ => none

/-- `strchr`. Not finding the character is `some none`. -/
def strchr : List UInt8 → ℤ → Option (Option ℕ)
  | [], _ => none
  | b :: str, c =>
      if b = 0 then some none
      else if charValue b = c then some (some 0)
      else (strchr str c).map (Option.map (· + 1))

/-- The loop of `strrchr` from the position `rstr` down. -/
def strrchrLoop (str : List UInt8) (c : ℤ) (rstr : ℕ) : Option (Option ℕ) :=
  match str[rstr]? with
  | none => none
  | some b =>
      if charValue b = c then some (some rstr)
      else
        match rstr with
        | 0 => some none
        | rstr + 1 => strrchrLoop str c rstr

def strrchr (str : List UInt8) (c : ℤ) : Option (Option ℕ) :=
  match strlen str with
  | none => none
  | some n => strrchrLoop str c n

section Values

variable {b : UInt8} {c : ℤ}

theorem toNat_toChar (c : ℤ) : ((toChar c).toNat : ℤ) = c % 256 := by
  have hlow : 0 ≤ c % 256 := Int.emod_nonneg c (by decide)
  have hhigh : c % 256 < 256 := Int.emod_lt_of_pos c (by decide)
  have hnat : (c % 256).toNat < 2 ^ 8 := by omega
  rw [toChar, UInt8.toNat_ofNat', Nat.mod_eq_of_lt hnat, Int.toNat_of_nonneg hlow]

/-- A comparison with a `char` sees the characters it converts to, but only for
the values that a `char` can have. -/
theorem charValue_eq_iff : charValue b = c ↔ toChar c = b ∧ -128 ≤ c ∧ c ≤ 127 := by
  have hb := b.toNat_lt
  have hc := toNat_toChar c
  rw [← UInt8.toNat_inj]
  unfold charValue
  constructor
  · intro h
    split at h <;> omega
  · rintro ⟨h, hlow, hhigh⟩
    split <;> omega

theorem charValue_inj {a : UInt8} : charValue a = charValue b ↔ a = b := by
  have ha := a.toNat_lt
  have hb := b.toNat_lt
  rw [← UInt8.toNat_inj]
  unfold charValue
  constructor
  · intro h
    split at h <;> split at h <;> omega
  · intro h
    rw [h]

theorem charValue_eq_zero_iff : charValue b = 0 ↔ b = 0 :=
  charValue_inj (b := 0)

end Values

/-- The places where a comparison with the number is true. -/
def equalPlaces (str : List UInt8) (c : ℤ) : Set ℕ := {i | ∃ b, str[i]? = some b ∧ charValue b = c}

theorem mem_equalPlaces {str : List UInt8} {c : ℤ} {i : ℕ} :
    i ∈ equalPlaces str c ↔ ∃ b, str[i]? = some b ∧ charValue b = c :=
  Iff.rfl

section Terminated

variable {s rest : List UInt8} {c : ℤ}

theorem strlen_terminated (hs : 0 ∉ s) (rest : List UInt8) :
    strlen (s ++ 0 :: rest) = some s.length := by
  induction s with
  | nil => rfl
  | cons b s ih =>
    rw [List.mem_cons, not_or] at hs
    have hb : b ≠ 0 := fun h => hs.1 h.symm
    rw [List.cons_append, strlen, if_neg hb, ih hs.2, List.length_cons]
    rfl

/-- What `strchr` finds: the first character whose value is the number itself. -/
theorem strchr_terminated (hs : 0 ∉ s) (rest : List UInt8) (c : ℤ) :
    ∃ r, strchr (s ++ 0 :: rest) c = some r ∧
      FirstOf (equalPlaces s c) r := by
  induction s with
  | nil =>
    refine ⟨none, rfl, FirstOf.absent (Set.eq_empty_of_forall_notMem ?_)⟩
    rintro i ⟨b, hb, _⟩
    simp at hb
  | cons b s ih =>
    rw [List.mem_cons, not_or] at hs
    have hb : b ≠ 0 := fun h => hs.1 h.symm
    obtain ⟨r, hr, hfirst⟩ := ih hs.2
    rw [List.cons_append, strchr, if_neg hb]
    by_cases hc : charValue b = c
    · rw [if_pos hc]
      exact ⟨some 0, rfl, FirstOf.here ⟨b, rfl, hc⟩⟩
    · rw [if_neg hc, hr]
      refine ⟨r.map (· + 1), rfl, FirstOf.later ?_ ?_ hfirst⟩
      · rintro ⟨b', hb', hc'⟩
        rw [List.getElem?_cons_zero, Option.some.injEq] at hb'
        exact hc (hb' ▸ hc')
      · intro i
        simp only [mem_equalPlaces, List.getElem?_cons_succ]

/-- `strchr` for a number that is the value of a character. -/
theorem strchr_charValue (hs : 0 ∉ s) (rest : List UInt8) (b : UInt8) :
    strchr (s ++ 0 :: rest) (charValue b) = some (if b ∈ s then some (s.idxOf b) else none) := by
  induction s with
  | nil => rfl
  | cons a s ih =>
    rw [List.mem_cons, not_or] at hs
    have ha : a ≠ 0 := fun h => hs.1 h.symm
    rw [List.cons_append, strchr, if_neg ha]
    by_cases hab : a = b
    · subst hab
      rw [if_pos rfl, if_pos List.mem_cons_self, List.idxOf_cons_self]
    · rw [if_neg (mt charValue_inj.1 hab), ih hs.2, List.idxOf_cons_ne s hab]
      by_cases hb : b ∈ s
      · rw [if_pos hb, if_pos (List.mem_cons_of_mem a hb)]
        rfl
      · rw [if_neg hb, if_neg fun hmem => (List.mem_cons.1 hmem).elim (fun h => hab h.symm) hb]
        rfl

/-- `strcmp` looks no further than the first terminator. -/
theorem strcmp_eq_zero_iff (hs : 0 ∉ s) {t : List UInt8} (ht : 0 ∉ t) (rest rest' : List UInt8) :
    ∃ r, strcmp (s ++ 0 :: rest) (t ++ 0 :: rest') = some r ∧ (r = 0 ↔ s = t) := by
  induction s generalizing t with
  | nil =>
    cases t with
    | nil => exact ⟨0, rfl, by simp⟩
    | cons b t =>
      have hb : b ≠ 0 := fun h => ht (h ▸ List.mem_cons_self)
      have hpos : 0 < b := UInt8.pos_iff_ne_zero.2 hb
      refine ⟨-1, ?_, by simp⟩
      simp only [List.nil_append, List.cons_append, strcmp, true_and, if_neg hb, if_pos hpos]
  | cons a s ih =>
    rw [List.mem_cons, not_or] at hs
    have ha : a ≠ 0 := fun h => hs.1 h.symm
    cases t with
    | nil =>
      have hpos : 0 < a := UInt8.pos_iff_ne_zero.2 ha
      have hlt : ¬a < 0 := UInt8.not_lt_zero
      refine ⟨1, ?_, by simp⟩
      simp only [List.nil_append, List.cons_append, strcmp, ha, false_and, if_false, if_neg hlt,
        if_pos hpos]
    | cons b t =>
      rw [List.mem_cons, not_or] at ht
      rw [List.cons_append, List.cons_append, strcmp, if_neg fun h => ha h.1]
      by_cases hlt : a < b
      · rw [if_pos hlt]
        refine ⟨-1, rfl, by simp [UInt8.ne_of_lt hlt]⟩
      · by_cases hgt : b < a
        · rw [if_neg hlt, if_pos hgt]
          refine ⟨1, rfl, by simp [(UInt8.ne_of_lt hgt).symm]⟩
        · obtain rfl : a = b := UInt8.le_antisymm (UInt8.not_lt.1 hgt) (UInt8.not_lt.1 hlt)
          rw [if_neg hlt, if_neg hlt]
          obtain ⟨r, hr, hzero⟩ := ih hs.2 ht.2
          exact ⟨r, hr, by simp [hzero]⟩

/-- `strncmp` on as many characters as there are before the terminators. -/
theorem strncmp_eq_zero_iff (hs : 0 ∉ s) {t : List UInt8} {n : ℕ} (hns : n ≤ s.length)
    (hnt : n ≤ t.length) (rest rest' : List UInt8) :
    ∃ r, strncmp (s ++ rest) (t ++ rest') n = some r ∧ (r = 0 ↔ s.take n = t.take n) := by
  induction n generalizing s t with
  | zero => exact ⟨0, by cases s ++ rest <;> rfl, by simp⟩
  | succ n ih =>
    rcases s with _ | ⟨a, s⟩
    · exact absurd hns (by simp)
    rcases t with _ | ⟨b, t⟩
    · exact absurd hnt (by simp)
    rw [List.mem_cons, not_or] at hs
    rw [List.length_cons] at hns hnt
    have ha : a ≠ 0 := fun h => hs.1 h.symm
    rw [List.cons_append, List.cons_append, strncmp, if_neg fun h => ha h.1,
      List.take_succ_cons, List.take_succ_cons, List.cons.injEq]
    by_cases hlt : a < b
    · rw [if_pos hlt]
      exact ⟨-1, rfl, by simp [UInt8.ne_of_lt hlt]⟩
    · by_cases hgt : b < a
      · rw [if_neg hlt, if_pos hgt]
        exact ⟨1, rfl, by simp [(UInt8.ne_of_lt hgt).symm]⟩
      · obtain rfl : a = b := UInt8.le_antisymm (UInt8.not_lt.1 hgt) (UInt8.not_lt.1 hlt)
        rw [if_neg hlt, if_neg hlt]
        obtain ⟨r, hr, hzero⟩ := ih hs.2 (t := t) (by omega) (by omega)
        exact ⟨r, hr, by simp [hzero]⟩

theorem strncmp_comm (s t : List UInt8) (n : ℕ) :
    strncmp t s n = (strncmp s t n).map fun r => -r := by
  induction n generalizing s t with
  | zero => cases s <;> cases t <;> rfl
  | succ n ih =>
    rcases s with _ | ⟨a, s⟩
    · cases t <;> rfl
    rcases t with _ | ⟨b, t⟩
    · rfl
    rw [strncmp, strncmp]
    by_cases hzero : a = 0 ∧ b = 0
    · rw [if_pos hzero, if_pos hzero.symm]
      rfl
    · rw [if_neg hzero, if_neg fun h => hzero h.symm]
      by_cases hlt : a < b
      · rw [if_pos hlt, if_neg (UInt8.lt_asymm hlt), if_pos hlt]
        rfl
      · by_cases hgt : b < a
        · rw [if_pos hgt, if_neg hlt, if_pos hgt]
          rfl
        · rw [if_neg hlt, if_neg hgt, if_neg hgt, if_neg hlt]
          exact ih s t

/-- Comparing with a word, over its length, tells whether the other one begins with it. -/
theorem strncmp_word (hs : 0 ∉ s) {t : List UInt8} (ht : t.length = s.length) :
    strncmp t s s.length = some 0 ↔ t = s := by
  obtain ⟨r, hr, hzero⟩ := strncmp_eq_zero_iff hs s.length.le_refl ht.ge [] []
  rw [List.append_nil, List.append_nil] at hr
  rw [List.take_length, ← ht, List.take_length] at hzero
  rw [strncmp_comm, hr, Option.map_some, Option.some_inj, Int.neg_eq_zero, hzero, eq_comm]

theorem strrchrLoop_lastOf {str : List UInt8} {n : ℕ} (hn : n < str.length) (c : ℤ) :
    ∃ r, strrchrLoop str c n = some r ∧
      LastOf {i ∈ equalPlaces str c | i ≤ n} r := by
  induction n with
  | zero =>
    have hget : str[0]? = some str[0] := List.getElem?_eq_getElem hn
    rw [strrchrLoop, hget]
    by_cases hc : charValue str[0] = c
    · simp only [if_pos hc]
      exact ⟨some 0, rfl, LastOf.here ⟨str[0], hget, hc⟩⟩
    · simp only [if_neg hc]
      refine ⟨none, rfl, LastOf.absent (Set.eq_empty_of_forall_notMem ?_)⟩
      rintro i ⟨⟨b, hb, hbc⟩, hi⟩
      obtain rfl : i = 0 := by omega
      rw [hget, Option.some.injEq] at hb
      exact hc (hb ▸ hbc)
  | succ n ih =>
    have hget : str[n + 1]? = some str[n + 1] := List.getElem?_eq_getElem hn
    obtain ⟨r, hr, hlast⟩ := ih (by omega)
    rw [strrchrLoop, hget]
    by_cases hc : charValue str[n + 1] = c
    · simp only [if_pos hc]
      exact ⟨some (n + 1), rfl, LastOf.here ⟨str[n + 1], hget, hc⟩⟩
    · simp only [if_neg hc, hr]
      refine ⟨r, rfl, LastOf.earlier ?_ hlast⟩
      rintro ⟨b, hb, hbc⟩
      rw [hget, Option.some.injEq] at hb
      exact hc (hb ▸ hbc)

theorem getElem?_terminated (s rest : List UInt8) (i : ℕ) :
    (s ++ [0])[i]? = if i ≤ s.length then (s ++ 0 :: rest)[i]? else none := by
  by_cases hi : i ≤ s.length
  · rw [if_pos hi]
    rcases Nat.lt_or_ge i s.length with hlt | hge
    · rw [List.getElem?_append_left hlt, List.getElem?_append_left hlt]
    · obtain rfl : i = s.length := by omega
      rw [List.getElem?_append_right le_rfl, List.getElem?_append_right le_rfl, Nat.sub_self]
      rfl
  · rw [if_neg hi, List.getElem?_eq_none]
    rw [List.length_append, List.length_singleton]
    omega

/-- What `strrchr` finds, the terminator included. -/
theorem strrchr_terminated (hs : 0 ∉ s) (rest : List UInt8) (c : ℤ) :
    ∃ r, strrchr (s ++ 0 :: rest) c = some r ∧
      LastOf (equalPlaces (s ++ [0]) c) r := by
  have hlen : s.length < (s ++ 0 :: rest).length := by
    rw [List.length_append, List.length_cons]
    omega
  obtain ⟨r, hr, hlast⟩ := strrchrLoop_lastOf hlen c
  refine ⟨r, ?_, ?_⟩
  · rw [strrchr, strlen_terminated hs rest]
    exact hr
  · have hset : {i ∈ equalPlaces (s ++ 0 :: rest) c | i ≤ s.length} =
        equalPlaces (s ++ [0]) c := by
      ext i
      change i ∈ equalPlaces (s ++ 0 :: rest) c ∧ i ≤ s.length ↔ _
      rw [mem_equalPlaces, mem_equalPlaces, getElem?_terminated s rest]
      by_cases hi : i ≤ s.length
      · simp only [hi, if_true, and_true]
      · simp [hi]
    rw [← hset]
    exact hlast

end Terminated

section Duality

variable {s rest : List UInt8} {c : ℤ}

/-- The places of a character in a string, the terminating NUL included. -/
def occurrences (s : List UInt8) (c : ℤ) : Set ℕ := {i | (s ++ [0])[i]? = some (toChar c)}

/-- `strchr` and `strrchr` find the first and the last place of a character. -/
structure Dual (s rest : List UInt8) (c : ℤ) : Prop where
  first : ∃ r, strchr (s ++ 0 :: rest) c = some r ∧ FirstOf (occurrences s c) r
  last : ∃ r, strrchr (s ++ 0 :: rest) c = some r ∧ LastOf (occurrences s c) r
  agree : (occurrences s c).Subsingleton →
    strchr (s ++ 0 :: rest) c = strrchr (s ++ 0 :: rest) c
  terminator : c = 0 → strchr (s ++ 0 :: rest) c = some (some s.length) ∧
    strrchr (s ++ 0 :: rest) c = some (some s.length)

theorem occurrences_eq_empty_iff : occurrences s c = ∅ ↔ toChar c ∉ s ++ [0] := by
  rw [Set.eq_empty_iff_forall_notMem, List.mem_iff_getElem?, not_exists]
  rfl

theorem mem_occurrences {i : ℕ} : i ∈ occurrences s c ↔ (s ++ [0])[i]? = some (toChar c) :=
  Iff.rfl

theorem equalPlaces_subset_occurrences : equalPlaces (s ++ [0]) c ⊆ occurrences s c := by
  rintro i ⟨b, hb, hc⟩
  rw [mem_occurrences, hb, (charValue_eq_iff.1 hc).1]

/-- The comparisons of the code see the occurrences where the number is the
value of a character. -/
theorem equalPlaces_eq_occurrences (hlow : -128 ≤ c) (hhigh : c ≤ 127) :
    equalPlaces (s ++ [0]) c = occurrences s c := by
  apply Set.Subset.antisymm equalPlaces_subset_occurrences
  intro i hi
  exact ⟨toChar c, hi, charValue_eq_iff.2 ⟨rfl, hlow, hhigh⟩⟩

/-- The terminator compares equal to zero only. -/
theorem equalPlaces_terminated (hc : c ≠ 0) : equalPlaces (s ++ [0]) c = equalPlaces s c := by
  ext i
  constructor
  · rintro ⟨b, hb, hbc⟩
    refine ⟨b, ?_, hbc⟩
    rcases Nat.lt_or_ge i s.length with hlt | hge
    · rwa [List.getElem?_append_left hlt] at hb
    · have hmem : b ∈ [0] := by
        rw [List.getElem?_append_right hge] at hb
        exact List.mem_of_getElem? hb
      obtain rfl := List.mem_singleton.1 hmem
      exact absurd hbc fun h => hc (h ▸ rfl)
  · rintro ⟨b, hb, hbc⟩
    have hi : i < s.length := (List.getElem?_eq_some_iff.1 hb).1
    exact ⟨b, by rw [List.getElem?_append_left hi, hb], hbc⟩

theorem dual_of_finds (hfirst : ∃ r, strchr (s ++ 0 :: rest) c = some r ∧
      FirstOf (occurrences s c) r)
    (hlast : ∃ r, strrchr (s ++ 0 :: rest) c = some r ∧ LastOf (occurrences s c) r)
    (hc : c ≠ 0) : Dual s rest c := by
  refine ⟨hfirst, hlast, ?_, fun h => absurd h hc⟩
  intro hsub
  obtain ⟨r, hr, hfirst⟩ := hfirst
  obtain ⟨r', hr', hlast⟩ := hlast
  rw [hr, hr', hfirst.eq_of_subsingleton hlast hsub]

/-- The two functions are dual for the characters that do not occur at all, and
for the numbers other than zero that are values of a `char`. -/
theorem strchr_strrchr_dual_iff (hs : 0 ∉ s) (rest : List UInt8) (c : ℤ) :
    Dual s rest c ↔ toChar c ∉ s ++ [0] ∨ (-128 ≤ c ∧ c ≤ 127 ∧ c ≠ 0) := by
  obtain ⟨r, hr, hfirst⟩ := strchr_terminated hs rest c
  obtain ⟨r', hr', hlast⟩ := strrchr_terminated hs rest c
  constructor
  · intro hdual
    rw [Classical.or_iff_not_imp_left, not_not]
    intro hmem
    obtain ⟨q, hq, hqfirst⟩ := hdual.first
    obtain rfl : r = q := Option.some.inj (hr.symm.trans hq)
    have hne : r ≠ none := by
      rw [Ne, hqfirst.eq_none_iff, occurrences_eq_empty_iff]
      exact not_not.2 hmem
    rw [Ne, hfirst.eq_none_iff, ← Ne, ← Set.nonempty_iff_ne_empty] at hne
    obtain ⟨i, b, hb, hbc⟩ := hne
    have hrange := (charValue_eq_iff.1 hbc).2
    refine ⟨hrange.1, hrange.2, ?_⟩
    rintro rfl
    rw [charValue_eq_zero_iff] at hbc
    exact hs (hbc ▸ List.mem_of_getElem? hb)
  · rintro (habsent | ⟨hlow, hhigh, hc⟩)
    · have hc : c ≠ 0 := by
        rintro rfl
        exact habsent (List.mem_append_right s (List.mem_singleton.2 rfl))
      have hempty := occurrences_eq_empty_iff.2 habsent
      have hequal := Set.subset_eq_empty equalPlaces_subset_occurrences hempty
      rw [← equalPlaces_terminated hc] at hfirst
      rw [hequal, ← hempty] at hfirst hlast
      exact dual_of_finds ⟨r, hr, hfirst⟩ ⟨r', hr', hlast⟩ hc
    · rw [← equalPlaces_terminated hc, equalPlaces_eq_occurrences hlow hhigh] at hfirst
      rw [equalPlaces_eq_occurrences hlow hhigh] at hlast
      exact dual_of_finds ⟨r, hr, hfirst⟩ ⟨r', hr', hlast⟩ hc

theorem strchr_strrchr_dual_iff_above : Dual [97, 200] [] (-56) ↔
    toChar (-56) ∉ [97, 200] ++ [0] ∨ (-128 ≤ (-56 : ℤ) ∧ (-56 : ℤ) ≤ 127 ∧ (-56 : ℤ) ≠ 0) :=
  strchr_strrchr_dual_iff (by decide) [] (-56)

/-- The terminator is not found by `strchr`. -/
theorem strchr_misses_terminator : ¬Dual [97] [] 0 := by
  intro hdual
  have hfound := (hdual.terminator rfl).1
  exact absurd hfound (by decide)

end Duality

end Heartix.Strings
