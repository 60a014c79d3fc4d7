import Heartix.Strings.Characters
import Heartix.Stdlib.Strtol
import Mathlib.Data.List.Forall2

/-!
`strstr` and `strcasestr`. Both look at every position of the haystack for the
needle. The first test of `strstr` is the wrong way round, so that it returns
the haystack for every needle that is not empty.
-/

namespace Heartix.Strings

open Occurrence Stdlib

/-- The inner loop of `strstr` from two characters on: whether all were the
same. What the loop tests is `str_b[i]`, with the index of the outer loop. -/
def strstrSame (str_b : List UInt8) (i : ℕ) : List UInt8 → List UInt8 → Option Bool
  | a, b =>
      match str_b[i]? with
      | none => none
      | some last =>
          if last = 0 then some true
          else
            match a, b with
            | x :: a, y :: b => if x ≠ y then some false else strstrSame str_b i a b
            | _, _ => none

/-- The outer loop of `strstr` from `str_a[i]` on. -/
def strstrLoop (str_b : List UInt8) : List UInt8 → ℕ → Option (Option ℕ)
  | [], _ => none
  | x :: str_a, i =>
      if x = 0 then some none
      else
        match strstrSame str_b i (x :: str_a) str_b with
        | none => none
        | some true => some (some i)
        | some false => strstrLoop str_b str_a (i + 1)

def strstr (str_a str_b : List UInt8) : Option (Option ℕ) :=
  match str_b with
  | [] => none
  | b :: _ => if b ≠ 0 then some (some 0) else strstrLoop str_b str_a 0

/-- The inner loop of `strcasestr`, and whether it stopped at the end of the
needle. -/
def atNeedleEnd : List UInt8 → List UInt8 → Option Bool
  | [], _ => none
  | x :: h_it, n_it =>
      if x = 0 then n_it.head?.map fun y => decide (y = 0)
      else
        match n_it with
        | [] => none
        | y :: n_it =>
            if y = 0 then some true
            else if tolower x ≠ tolower y then some false
            else atNeedleEnd h_it n_it

/-- The outer loop of `strcasestr`. -/
def strcasestrLoop : List UInt8 → List UInt8 → Option (Option ℕ)
  | [], _ => none
  | x :: h, needle =>
      if x = 0 then some none
      else
        match atNeedleEnd (x :: h) needle with
        | none => none
        | some true => some (some 0)
        | some false => (strcasestrLoop h needle).map (Option.map (· + 1))

/-- `strcasestr`, where `none` is a NULL argument. -/
def strcasestr (haystack needle : Option (List UInt8)) : Option (Option ℕ) :=
  match haystack, needle with
  | some haystack, some needle =>
      match needle with
      | [] => none
      | b :: _ => if b = 0 then some (some 0) else strcasestrLoop haystack needle
  | _, _ => some none

section Matches

variable {a b : UInt8} {h n : List UInt8}

/-- The places where a string occurs in another. -/
def placesOf (n h : List UInt8) : Set ℕ := {i | i ≤ h.length ∧ n <+: h.drop i}

/-- The same character, or the two forms of one letter. -/
def SameLetter (a b : UInt8) : Prop :=
  a = b ∨ ∃ k < 26, (a.toNat = 65 + k ∧ b.toNat = 97 + k) ∨ (a.toNat = 97 + k ∧ b.toNat = 65 + k)

/-- A string begins with another up to the case of letters. -/
def PrefixUpToCase (n h : List UInt8) : Prop := ∃ m, m <+: h ∧ List.Forall₂ SameLetter m n

/-- The places where a string occurs in another up to the case of letters. -/
def placesUpToCase (n h : List UInt8) : Set ℕ := {i | i ≤ h.length ∧ PrefixUpToCase n (h.drop i)}

theorem isupper_iff : isupper a ↔ 65 ≤ a.toNat ∧ a.toNat ≤ 90 := by
  rw [isupper, decide_eq_true_iff, UInt8.le_iff_toNat_le, UInt8.le_iff_toNat_le]
  rfl

theorem toNat_tolower (a : UInt8) :
    (tolower a).toNat = if 65 ≤ a.toNat ∧ a.toNat ≤ 90 then a.toNat + 32 else a.toNat := by
  unfold tolower
  by_cases hup : isupper a
  · have hbound := isupper_iff.1 hup
    have hsub : (a - 'A'.toUInt8).toNat = a.toNat - 65 :=
      UInt8.toNat_sub_of_le _ _ (UInt8.le_iff_toNat_le.2 hbound.1)
    rw [if_pos hup, if_pos hbound, UInt8.toNat_add, hsub]
    change (97 + (a.toNat - 65)) % 256 = a.toNat + 32
    omega
  · rw [if_neg hup, if_neg (mt isupper_iff.2 hup)]

theorem tolower_eq_iff : tolower a = tolower b ↔ SameLetter a b := by
  have ha := a.toNat_lt
  have hb := b.toNat_lt
  rw [SameLetter, ← UInt8.toNat_inj, ← UInt8.toNat_inj, toNat_tolower, toNat_tolower]
  constructor
  · intro h
    rcases Nat.lt_trichotomy a.toNat b.toNat with hlt | heq | hgt
    · refine Or.inr ⟨a.toNat - 65, ?_, Or.inl ?_⟩ <;> split at h <;> split at h <;> omega
    · exact Or.inl heq
    · refine Or.inr ⟨b.toNat - 65, ?_, Or.inr ?_⟩ <;> split at h <;> split at h <;> omega
  · rintro (heq | ⟨k, hk, hlow | hup⟩)
    · rw [heq]
    · rw [if_pos (by omega), if_neg (by omega)]
      omega
    · rw [if_neg (by omega), if_pos (by omega)]
      omega

theorem PrefixUpToCase.nil (h : List UInt8) : PrefixUpToCase [] h :=
  ⟨[], List.nil_prefix, List.Forall₂.nil⟩

theorem prefixUpToCase_nil_iff : PrefixUpToCase n [] ↔ n = [] := by
  constructor
  · rintro ⟨m, hm, hsame⟩
    rw [List.prefix_nil] at hm
    subst hm
    exact List.forall₂_nil_left_iff.1 hsame
  · rintro rfl
    exact PrefixUpToCase.nil []

theorem prefixUpToCase_cons_iff :
    PrefixUpToCase (b :: n) (a :: h) ↔ SameLetter a b ∧ PrefixUpToCase n h := by
  constructor
  · rintro ⟨m, hm, hsame⟩
    obtain ⟨x, m', hx, hrest, rfl⟩ := List.forall₂_cons_right_iff.1 hsame
    rw [List.cons_prefix_cons] at hm
    obtain ⟨rfl, hm⟩ := hm
    exact ⟨hx, m', hm, hrest⟩
  · rintro ⟨hx, m, hm, hrest⟩
    exact ⟨a :: m, List.cons_prefix_cons.2 ⟨rfl, hm⟩, List.Forall₂.cons hx hrest⟩

theorem mem_placesOf {i : ℕ} : i ∈ placesOf n h ↔ i ≤ h.length ∧ n <+: h.drop i :=
  Iff.rfl

theorem mem_placesUpToCase {i : ℕ} :
    i ∈ placesUpToCase n h ↔ i ≤ h.length ∧ PrefixUpToCase n (h.drop i) :=
  Iff.rfl

theorem zero_mem_placesOf_iff : 0 ∈ placesOf n h ↔ n <+: h := by
  rw [mem_placesOf, List.drop_zero, and_iff_right (Nat.zero_le _)]

theorem zero_mem_placesUpToCase_iff : 0 ∈ placesUpToCase n h ↔ PrefixUpToCase n h := by
  rw [mem_placesUpToCase, List.drop_zero, and_iff_right (Nat.zero_le _)]

theorem succ_mem_placesUpToCase_iff {i : ℕ} :
    i + 1 ∈ placesUpToCase n (a :: h) ↔ i ∈ placesUpToCase n h := by
  rw [mem_placesUpToCase, mem_placesUpToCase, List.drop_succ_cons, List.length_cons,
    Nat.add_le_add_iff_right]

end Matches

section Search

variable {h n : List UInt8}

/-- The inner loop of `strcasestr` ends at the end of the needle where the
needle is there. -/
theorem atNeedleEnd_terminated (hh : 0 ∉ h) (hn : 0 ∉ n) (restH restN : List UInt8) :
    ∃ found, atNeedleEnd (h ++ 0 :: restH) (n ++ 0 :: restN) = some found ∧
      (found = true ↔ PrefixUpToCase n h) := by
  induction h generalizing n with
  | nil =>
    rw [prefixUpToCase_nil_iff]
    cases n with
    | nil => exact ⟨true, rfl, by simp⟩
    | cons y n =>
      have hy : y ≠ 0 := fun hzero => hn (hzero ▸ List.mem_cons_self)
      exact ⟨decide (y = 0), rfl, by simp [hy]⟩
  | cons x h ih =>
    rw [List.mem_cons, not_or] at hh
    have hx : x ≠ 0 := fun hzero => hh.1 hzero.symm
    cases n with
    | nil =>
      refine ⟨true, ?_, by simp [PrefixUpToCase.nil]⟩
      simp only [List.cons_append, List.nil_append, atNeedleEnd, if_neg hx, if_true]
    | cons y n =>
      rw [List.mem_cons, not_or] at hn
      have hy : y ≠ 0 := fun hzero => hn.1 hzero.symm
      rw [prefixUpToCase_cons_iff, ← tolower_eq_iff]
      simp only [List.cons_append, atNeedleEnd, if_neg hx, if_neg hy]
      by_cases hcase : tolower x = tolower y
      · rw [if_neg (not_not.2 hcase)]
        obtain ⟨found, heq, hiff⟩ := ih hh.2 hn.2
        exact ⟨found, heq, hiff.trans (and_iff_right hcase).symm⟩
      · rw [if_pos hcase]
        exact ⟨false, rfl, by simp [hcase]⟩

theorem strcasestrLoop_firstOf (hh : 0 ∉ h) (hn : 0 ∉ n) (hne : n ≠ []) :
    ∃ r, FirstOf (placesUpToCase n h) r ∧ ∀ restH restN,
      strcasestrLoop (h ++ 0 :: restH) (n ++ 0 :: restN) = some r := by
  induction h with
  | nil =>
    refine ⟨none, FirstOf.absent (Set.eq_empty_of_forall_notMem ?_), fun _ _ => rfl⟩
    rintro i ⟨_, hi⟩
    rw [List.drop_nil, prefixUpToCase_nil_iff] at hi
    exact hne hi
  | cons x h ih =>
    have hx : x ≠ 0 := fun hzero => hh (hzero ▸ List.mem_cons_self)
    by_cases hfound : PrefixUpToCase n (x :: h)
    · refine ⟨some 0, FirstOf.here (zero_mem_placesUpToCase_iff.2 hfound), ?_⟩
      intro restH restN
      obtain ⟨found, heq, hiff⟩ := atNeedleEnd_terminated hh hn restH restN
      obtain rfl := hiff.2 hfound
      rw [List.cons_append] at heq ⊢
      simp only [strcasestrLoop, if_neg hx, heq]
    · obtain ⟨r, hfirst, hr⟩ := ih (fun hmem => hh (List.mem_cons_of_mem x hmem))
      refine ⟨r.map (· + 1), FirstOf.later (mt zero_mem_placesUpToCase_iff.1 hfound)
        (fun i => succ_mem_placesUpToCase_iff.symm) hfirst, ?_⟩
      intro restH restN
      obtain ⟨found, heq, hiff⟩ := atNeedleEnd_terminated hh hn restH restN
      obtain rfl := Bool.eq_false_iff.2 (mt hiff.1 hfound)
      rw [List.cons_append] at heq ⊢
      simp only [strcasestrLoop, if_neg hx, heq, hr]
      rfl

/-- `strcasestr` finds the first place, and does not look behind the terminators. -/
theorem strcasestr_firstOf (hh : 0 ∉ h) (hn : 0 ∉ n) :
    ∃ r, FirstOf (placesUpToCase n h) r ∧ ∀ restH restN,
      strcasestr (some (h ++ 0 :: restH)) (some (n ++ 0 :: restN)) = some r := by
  cases n with
  | nil =>
    have hzero := zero_mem_placesUpToCase_iff.2 (PrefixUpToCase.nil h)
    exact ⟨some 0, FirstOf.here hzero, fun _ _ => rfl⟩
  | cons y n =>
    have hy : y ≠ 0 := fun hzero => hn (hzero ▸ List.mem_cons_self)
    obtain ⟨r, hfirst, hr⟩ := strcasestrLoop_firstOf hh hn (List.cons_ne_nil y n)
    refine ⟨r, hfirst, ?_⟩
    intro restH restN
    rw [← hr restH restN]
    simp only [strcasestr, List.cons_append, if_neg hy]

/-- `strstr` returns the haystack where the needle is not empty, and for an
empty needle where the haystack is not. -/
theorem strstr_terminated (hh : 0 ∉ h) (hn : 0 ∉ n) (restH restN : List UInt8) :
    strstr (h ++ 0 :: restH) (n ++ 0 :: restN) =
      some (if n = [] ∧ h = [] then none else some 0) := by
  cases n with
  | nil =>
    cases h with
    | nil => rfl
    | cons x h =>
      have hx : x ≠ 0 := fun hzero => hh (hzero ▸ List.mem_cons_self)
      have hsame : strstrSame (0 :: restN) 0 (x :: (h ++ 0 :: restH)) (0 :: restN) =
          some true := rfl
      rw [if_neg fun hboth => List.cons_ne_nil x h hboth.2]
      simp only [List.nil_append, List.cons_append, strstr, ne_eq, not_true, if_false,
        strstrLoop, if_neg hx, hsame]
  | cons y n =>
    have hy : y ≠ 0 := fun hzero => hn (hzero ▸ List.mem_cons_self)
    rw [List.cons_append, if_neg fun hboth => List.cons_ne_nil y n hboth.1]
    exact if_pos hy

end Search

section Agreement

variable {h n : List UInt8}

def Letterless (s : List UInt8) : Prop := ∀ b ∈ s, isalpha b = false

theorem SameLetter.eq_of_isalpha {a b : UInt8} (hab : SameLetter a b)
    (ha : isalpha a = false) : a = b := by
  rcases hab with heq | ⟨k, hk, hcase⟩
  · exact heq
  · exfalso
    rw [isalpha, Bool.or_eq_false_iff, islower, isupper, decide_eq_false_iff_not,
      decide_eq_false_iff_not, UInt8.le_iff_toNat_le, UInt8.le_iff_toNat_le,
      UInt8.le_iff_toNat_le, UInt8.le_iff_toNat_le] at ha
    have hlower : ¬(97 ≤ a.toNat ∧ a.toNat ≤ 122) := ha.1
    have hupper : ¬(65 ≤ a.toNat ∧ a.toNat ≤ 90) := ha.2
    omega

theorem Letterless.prefixUpToCase_iff (hh : Letterless h) : PrefixUpToCase n h ↔ n <+: h := by
  induction h generalizing n with
  | nil => rw [prefixUpToCase_nil_iff, List.prefix_nil]
  | cons a h ih =>
    have ha : isalpha a = false := hh a List.mem_cons_self
    have hrest : Letterless h := fun b hb => hh b (List.mem_cons_of_mem a hb)
    cases n with
    | nil => simp [PrefixUpToCase.nil]
    | cons b n =>
      rw [prefixUpToCase_cons_iff, List.cons_prefix_cons, ih hrest]
      have hsame : SameLetter a b ↔ b = a :=
        ⟨fun hab => (hab.eq_of_isalpha ha).symm, fun heq => Or.inl heq.symm⟩
      rw [hsame]

theorem Letterless.places_eq (hh : Letterless h) : placesUpToCase n h = placesOf n h := by
  ext i
  have hdrop : Letterless (h.drop i) := fun b hb => hh b (List.mem_of_mem_drop hb)
  rw [mem_placesUpToCase, mem_placesOf, hdrop.prefixUpToCase_iff]

/-- Both functions find the first match, read nothing behind the terminators,
and agree on strings without letters. -/
structure FindsFirst (h n : List UInt8) : Prop where
  strstr : ∃ r, FirstOf (placesOf n h) r ∧ ∀ restH restN,
    strstr (h ++ 0 :: restH) (n ++ 0 :: restN) = some r
  strcasestr : ∃ r, FirstOf (placesUpToCase n h) r ∧ ∀ restH restN,
    strcasestr (some (h ++ 0 :: restH)) (some (n ++ 0 :: restN)) = some r
  agree : Letterless h → Letterless n → ∀ restH restN,
    Strings.strstr (h ++ 0 :: restH) (n ++ 0 :: restN) =
      Strings.strcasestr (some (h ++ 0 :: restH)) (some (n ++ 0 :: restN))

/-- The search of `strstr` is right where the haystack begins with the needle,
unless both are empty. -/
theorem strstr_strcasestr_iff (hh : 0 ∉ h) (hn : 0 ∉ n) :
    FindsFirst h n ↔ (n ≠ [] ∧ n <+: h) ∨ (n = [] ∧ h ≠ []) := by
  have hvalue := strstr_terminated hh hn
  constructor
  · intro hfinds
    obtain ⟨r, hfirst, hr⟩ := hfinds.strstr
    have heq := Option.some.inj ((hr [] []).symm.trans (hvalue [] []))
    by_cases hboth : n = [] ∧ h = []
    · exfalso
      rw [if_pos hboth] at heq
      rw [heq, FirstOf.none_iff, Set.eq_empty_iff_forall_notMem] at hfirst
      apply hfirst 0
      rw [zero_mem_placesOf_iff, hboth.1]
      exact List.nil_prefix
    · rw [if_neg hboth] at heq
      rw [heq, FirstOf.some_iff] at hfirst
      have hprefix := zero_mem_placesOf_iff.1 hfirst.1
      by_cases hempty : n = []
      · exact Or.inr ⟨hempty, fun hnil => hboth ⟨hempty, hnil⟩⟩
      · exact Or.inl ⟨hempty, hprefix⟩
  · intro hcond
    have hboth : ¬(n = [] ∧ h = []) := by
      rintro ⟨hempty, hnil⟩
      rcases hcond with ⟨hne, _⟩ | ⟨_, hne⟩
      · exact hne hempty
      · exact hne hnil
    have hprefix : n <+: h := by
      rcases hcond with ⟨_, hpre⟩ | ⟨hempty, _⟩
      · exact hpre
      · rw [hempty]
        exact List.nil_prefix
    have hfirst := FirstOf.here (zero_mem_placesOf_iff.2 hprefix)
    have hzero : ∀ restH restN,
        strstr (h ++ 0 :: restH) (n ++ 0 :: restN) = some (some 0) := by
      intro restH restN
      rw [hvalue restH restN, if_neg hboth]
    refine ⟨⟨some 0, hfirst, hzero⟩, strcasestr_firstOf hh hn, ?_⟩
    intro hletters _ restH restN
    obtain ⟨r, hcase, hr⟩ := strcasestr_firstOf hh hn
    rw [hletters.places_eq] at hcase
    rw [hzero, hr, hcase.unique hfirst]

theorem strstr_strcasestr_iff_prefix : FindsFirst [97, 98] [97] ↔
    (([97] : List UInt8) ≠ [] ∧ ([97] : List UInt8) <+: [97, 98]) ∨
      (([97] : List UInt8) = [] ∧ ([97, 98] : List UInt8) ≠ []) :=
  strstr_strcasestr_iff (by decide) (by decide)

/-- A needle that is in the haystack, but not at its beginning. -/
theorem strstr_finds_too_early : ¬FindsFirst [97, 98] [98] := by
  intro hfinds
  obtain ⟨r, hfirst, hr⟩ := hfinds.strstr
  have hzero : r = some 0 := Option.some.inj (hr [] []).symm
  rw [hzero, FirstOf.some_iff] at hfirst
  exact absurd (zero_mem_placesOf_iff.1 hfirst.1) (by decide)

end Agreement

end Heartix.Strings
