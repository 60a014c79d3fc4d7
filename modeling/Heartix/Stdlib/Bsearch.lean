import Heartix.Lib.Bisection

/-!
`bsearch`. Pointers and sizes are machine words. The comparator is called with
pointers, and the elements it is called with are recorded beside the result.
-/

namespace Heartix.Stdlib

open Bisection

def NULL : UInt64 := 0

theorem toNat_mid {low high : UInt64} (h : low < high) :
    (low + (high - low) / 2).toNat = middle low.toNat high.toNat := by
  have hlt := UInt64.lt_iff_toNat_lt.mp h
  have hhigh := high.toNat_lt
  have hsub := UInt64.toNat_sub_of_le high low (UInt64.le_iff_toNat_le.mpr hlt.le)
  have htwo : (2 : UInt64).toNat = 2 := rfl
  rw [UInt64.toNat_add, UInt64.toNat_div, hsub, htwo]
  unfold middle
  exact Nat.mod_eq_of_lt (by omega)

theorem toNat_mid_succ {mid high : UInt64} (h : mid.toNat < high.toNat) :
    (mid + 1).toNat = mid.toNat + 1 := by
  have hhigh := high.toNat_lt
  have hone : (1 : UInt64).toNat = 1 := rfl
  rw [UInt64.toNat_add, hone]
  exact Nat.mod_eq_of_lt (by omega)

section Search

variable (comparator : UInt64 → UInt64 → ℤ) (value array size : UInt64)

/-- The loop of `bsearch`: the elements that the key is compared with, and the result. -/
def bsearchLoop (low high : UInt64) : List UInt64 × UInt64 :=
  if _ : low < high then
    let mid := low + (high - low) / 2
    let elem := array + mid * size
    let cmp := comparator value elem
    if cmp < 0 then (bsearchLoop low mid).map (elem :: ·) id
    else if 0 < cmp then (bsearchLoop (mid + 1) high).map (elem :: ·) id
    else ([elem], elem)
  else ([], NULL)
termination_by high.toNat - low.toNat
decreasing_by
  · have hmid := middle_bounds (UInt64.lt_iff_toNat_lt.mp ‹low < high›)
    have hlow := UInt64.lt_iff_toNat_lt.mp ‹low < high›
    rw [toNat_mid ‹low < high›]
    omega
  · have hmid := middle_bounds (UInt64.lt_iff_toNat_lt.mp ‹low < high›)
    have hhigh : (low + (high - low) / 2).toNat < high.toNat := by
      rw [toNat_mid ‹low < high›]
      exact hmid.2
    rw [toNat_mid_succ hhigh, toNat_mid ‹low < high›]
    omega

def bsearch (num_elements : UInt64) : List UInt64 × UInt64 :=
  bsearchLoop comparator value array size 0 num_elements

end Search

/-- An array as a caller has one: it ends before the end of memory, and with elements in
it it is not at NULL. -/
structure ArrayObject where
  array : UInt64
  num_elements : UInt64
  size : UInt64
  fits : array.toNat + num_elements.toNat * size.toNat ≤ 2 ^ 64
  notNull : 0 < num_elements.toNat → array ≠ NULL

namespace ArrayObject

/-- Where the element `i` starts. -/
def element (a : ArrayObject) (i : ℕ) : UInt64 := UInt64.ofNat (a.array.toNat + i * a.size.toNat)

variable {a : ArrayObject} {i : ℕ}

theorem toNat_element (hi : i < a.num_elements.toNat) :
    (a.element i).toNat = a.array.toNat + i * a.size.toNat := by
  have harray := a.array.toNat_lt
  have hfits := a.fits
  have hlt : a.array.toNat + i * a.size.toNat < 2 ^ 64 := by
    rcases Nat.eq_zero_or_pos a.size.toNat with hzero | hpos
    · rw [hzero, Nat.mul_zero]
      exact harray
    · have hmul := Nat.mul_lt_mul_of_pos_right hi hpos
      omega
  exact UInt64.toNat_ofNat_of_lt' hlt

/-- An element lies inside the array. -/
theorem element_inside (hi : i < a.num_elements.toNat) :
    a.array.toNat ≤ (a.element i).toNat ∧ (a.element i).toNat + a.size.toNat ≤
      a.array.toNat + a.num_elements.toNat * a.size.toNat := by
  have hmul := Nat.mul_le_mul_right a.size.toNat (Nat.succ_le_of_lt hi)
  rw [Nat.succ_mul] at hmul
  rw [toNat_element hi]
  omega

theorem element_ne_null (hi : i < a.num_elements.toNat) : a.element i ≠ NULL := by
  intro hnull
  have hle := (element_inside hi).1
  rw [hnull] at hle
  apply a.notNull (by omega)
  exact UInt64.toNat_inj.mp (Nat.le_zero.mp hle)

theorem elem_eq (a : ArrayObject) (mid : UInt64) :
    a.array + mid * a.size = a.element mid.toNat := by
  apply UInt64.toNat_inj.mp
  unfold element
  rw [UInt64.toNat_add, UInt64.toNat_mul, UInt64.toNat_ofNat', Nat.add_mod_mod]

/-- The element a round of the loop looks at. -/
theorem elem_middle (a : ArrayObject) {low high : UInt64} (h : low < high) :
    a.array + (low + (high - low) / 2) * a.size = a.element (middle low.toNat high.toNat) := by
  rw [elem_eq, toNat_mid h]

/-- The side of the element `i` that the key is on. -/
def side (a : ArrayObject) (comparator : UInt64 → UInt64 → ℤ) (value : UInt64) (i : ℕ) : ℤ :=
  comparator value (a.element i)

/-- The pointer to the element that is found. -/
def found (a : ArrayObject) (i : Option ℕ) : UInt64 := i.elim NULL a.element

theorem bsearchLoop_eq (a : ArrayObject) (comparator : UInt64 → UInt64 → ℤ)
    (value low high : UInt64) :
    bsearchLoop comparator value a.array a.size low high =
      (search (a.side comparator value) low.toNat high.toNat).map (List.map a.element) a.found := by
  induction low, high using bsearchLoop.induct comparator value a.array a.size with
  | case1 low high hlt mid elem cmp hbefore ih =>
    have hmid : mid.toNat = middle low.toNat high.toNat := toNat_mid hlt
    have helem : elem = a.element (middle low.toNat high.toNat) := a.elem_middle hlt
    have hcmp : cmp = a.side comparator value (middle low.toNat high.toNat) :=
      congrArg (comparator value) helem
    rw [search_before (UInt64.lt_iff_toNat_lt.mp hlt) (hcmp ▸ hbefore), bsearchLoop, dif_pos hlt]
    change (if cmp < 0 then (bsearchLoop comparator value a.array a.size low mid).map (elem :: ·) id
      else _) = _
    rw [if_pos hbefore, ih, hmid, helem]
    rfl
  | case2 low high hlt mid elem cmp hnot hbehind ih =>
    have hmid : mid.toNat = middle low.toNat high.toNat := toNat_mid hlt
    have hsucc : (mid + 1).toNat = middle low.toNat high.toNat + 1 := by
      rw [← hmid]
      exact toNat_mid_succ (hmid ▸ (middle_bounds (UInt64.lt_iff_toNat_lt.mp hlt)).2)
    have helem : elem = a.element (middle low.toNat high.toNat) := a.elem_middle hlt
    have hcmp : cmp = a.side comparator value (middle low.toNat high.toNat) :=
      congrArg (comparator value) helem
    rw [search_behind (UInt64.lt_iff_toNat_lt.mp hlt) (hcmp ▸ hbehind), bsearchLoop, dif_pos hlt]
    change (if cmp < 0 then _ else if 0 < cmp then
      (bsearchLoop comparator value a.array a.size (mid + 1) high).map (elem :: ·) id
      else _) = _
    rw [if_neg hnot, if_pos hbehind, ih, hsucc, helem]
    rfl
  | case3 low high hlt mid elem cmp hnot hnot' =>
    have helem : elem = a.element (middle low.toNat high.toNat) := a.elem_middle hlt
    have hcmp : cmp = a.side comparator value (middle low.toNat high.toNat) :=
      congrArg (comparator value) helem
    have hzero : cmp = 0 := by omega
    rw [search_at (UInt64.lt_iff_toNat_lt.mp hlt) (hcmp ▸ hzero), bsearchLoop, dif_pos hlt]
    change (if cmp < 0 then _ else if 0 < cmp then _ else ([elem], elem)) = _
    rw [if_neg hnot, if_neg hnot', helem]
    rfl
  | case4 low high hle =>
    rw [search_empty (fun hlt => hle (UInt64.lt_iff_toNat_lt.mpr hlt)), bsearchLoop, dif_neg hle]
    rfl

/-- A pointer to the start of the element `i`. -/
def StartsAt (a : ArrayObject) (p : UInt64) (i : ℕ) : Prop :=
  i < a.num_elements.toNat ∧ p.toNat = a.array.toNat + i * a.size.toNat

/-- The comparator is called with elements of the array only, at most as often as their
number has binary digits. -/
theorem bsearch_probes (a : ArrayObject) (comparator : UInt64 → UInt64 → ℤ) (value : UInt64) :
    (∀ p ∈ (bsearch comparator value a.array a.size a.num_elements).1, ∃ i, a.StartsAt p i) ∧
      (bsearch comparator value a.array a.size a.num_elements).1.length ≤
        a.num_elements.toNat.size := by
  unfold bsearch
  rw [a.bsearchLoop_eq]
  constructor
  · intro p hp
    obtain ⟨i, hi, rfl⟩ := List.mem_map.mp hp
    have hlt := (mem_probes hi).2
    exact ⟨i, hlt, toNat_element hlt⟩
  · exact (List.length_map a.element).le.trans (length_probes_le _ _ _)

/-- A search with a key and a comparator whose sign falls along the array ends, having
looked at elements of the array only. It finds an element that is equal to the key, if
there is one. -/
theorem bsearch_correct (a : ArrayObject) (comparator : UInt64 → UInt64 → ℤ) (value : UInt64)
    (hsorted : Falling (a.side comparator value) 0 a.num_elements.toNat) :
    ∃ probes result, bsearch comparator value a.array a.size a.num_elements = (probes, result) ∧
      (∀ p ∈ probes, ∃ i, a.StartsAt p i) ∧
      ((∃ p i, a.StartsAt p i ∧ comparator value p = 0) →
        result ≠ NULL ∧ comparator value result = 0 ∧ ∃ i, a.StartsAt result i) ∧
      ((∀ p i, a.StartsAt p i → comparator value p ≠ 0) → result = NULL) := by
  have hprobes := (a.bsearch_probes comparator value).1
  have hresult : (bsearch comparator value a.array a.size a.num_elements).2 =
      a.found (search (a.side comparator value) 0 a.num_elements.toNat).2 := by
    unfold bsearch
    rw [a.bsearchLoop_eq]
    rfl
  generalize bsearch comparator value a.array a.size a.num_elements = run at hprobes hresult
  refine ⟨run.1, run.2, rfl, hprobes, ?_, ?_⟩
  · rintro ⟨p, i, ⟨hi, hp⟩, hequal⟩
    obtain rfl : p = a.element i := UInt64.toNat_inj.mp (hp.trans (toNat_element hi).symm)
    cases hfound : (search (a.side comparator value) 0 a.num_elements.toNat).2 with
    | none => exact absurd hequal ((not_found_iff hsorted).mp hfound i (Nat.zero_le i) hi)
    | some j =>
      obtain ⟨hmem, hat⟩ := found_spec hfound
      have hj := (mem_probes hmem).2
      rw [hresult, hfound]
      exact ⟨element_ne_null hj, hat, j, hj, toNat_element hj⟩
  · intro hnone
    have hempty : (search (a.side comparator value) 0 a.num_elements.toNat).2 = none :=
      (not_found_iff hsorted).mpr fun i _ hi => hnone (a.element i) i ⟨hi, toNat_element hi⟩
    rw [hresult, hempty]
    rfl

/-- Three elements of eight bytes. -/
def threeWords : ArrayObject := ⟨4096, 3, 8, by decide, by decide⟩

/-- A search for the element in the middle, by its place. -/
theorem bsearch_correct_threeWords :
    ∃ probes result, bsearch (fun key elem => (key.toNat : ℤ) - elem.toNat) 4104
        threeWords.array threeWords.size threeWords.num_elements = (probes, result) ∧
      (∀ p ∈ probes, ∃ i, threeWords.StartsAt p i) ∧
      ((∃ p i, threeWords.StartsAt p i ∧ ((4104 : UInt64).toNat : ℤ) - p.toNat = 0) →
        result ≠ NULL ∧ ((4104 : UInt64).toNat : ℤ) - result.toNat = 0 ∧
          ∃ i, threeWords.StartsAt result i) ∧
      ((∀ p i, threeWords.StartsAt p i → ((4104 : UInt64).toNat : ℤ) - p.toNat ≠ 0) →
        result = NULL) := by
  refine threeWords.bsearch_correct (fun key elem => (key.toNat : ℤ) - elem.toNat) 4104 ?_
  intro i hi j hj hij
  apply SignType.sign.monotone
  have hle := Nat.mul_le_mul_right threeWords.size.toNat hij
  have hfirst := toNat_element hi.2
  have hlast := toNat_element hj.2
  change (_ : ℤ) - ((threeWords.element j).toNat : ℤ) ≤ _ - ((threeWords.element i).toNat : ℤ)
  omega

end ArrayObject

end Heartix.Stdlib
