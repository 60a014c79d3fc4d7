import Heartix.Stdlib.Bsearch
import Heartix.Stdlib.Qsort

/-!
`bsearch` on an array that `qsort` has sorted, with one comparison of elements for both.
The search reads the elements where the sort has left them.
-/

namespace Heartix.Stdlib

open Bisection Quicksort
open scoped List

/-- What a program sorts and searches by: a comparison whose sign depends on the order of
its arguments alone. -/
structure Comparison (α : Type*) where
  compare : α → α → ℤ
  opposite : ∀ x y, compare x y ≤ 0 ↔ 0 ≤ compare y x
  trans : ∀ x y z, compare x y ≤ 0 → compare y z ≤ 0 → compare x z ≤ 0

namespace Comparison

variable {α : Type*} (c : Comparison α)

theorem total (x y : α) : c.compare x y ≤ 0 ∨ c.compare y x ≤ 0 := by
  rw [c.opposite x y]
  exact (le_total (c.compare y x) 0).symm

/-- Along a sorted array the side that a key is on falls. -/
theorem falling (key : α) {ys : List α} (hsorted : ys.Pairwise (c.compare · · ≤ 0))
    {side : ℕ → ℤ} (hside : ∀ i (hi : i < ys.length), side i = c.compare key ys[i]) :
    Falling side 0 ys.length := by
  intro i hi j hj hij
  have hi' : i < ys.length := hi.2
  have hj' : j < ys.length := hj.2
  dsimp only
  rw [hside i hi', hside j hj']
  rcases hij.eq_or_lt with rfl | hlt
  · exact le_rfl
  have hle : c.compare ys[i] ys[j] ≤ 0 := List.pairwise_iff_getElem.mp hsorted i j hi' hj' hlt
  rcases lt_trichotomy (c.compare key ys[i]) 0 with hneg | hzero | hpos
  · have hkey := c.trans key ys[i] ys[j] hneg.le hle
    have hnot : ¬ 0 ≤ c.compare key ys[j] := by
      intro hge
      have hback := c.trans ys[i] ys[j] key hle ((c.opposite _ _).mpr hge)
      exact absurd ((c.opposite _ _).mp hback) (not_le.mpr hneg)
    rw [sign_neg (not_le.mp hnot), sign_neg hneg]
  · have hkey := c.trans key ys[i] ys[j] hzero.le hle
    rw [hzero, sign_zero]
    exact sign_nonpos_iff.mpr hkey
  · rw [sign_pos hpos]
    exact SignType.le_one _

end Comparison

/-- The memory that the elements fill, after it was sorted. -/
theorem qsort_memory {size : ℕ} (comparator : Vector UInt8 size → Vector UInt8 size → ℤ)
    {xs ys : List (Vector UInt8 size)} (helements : xs.length ≤ 2 ^ 31 - 1)
    (hmemory : xs.length * size < 2 ^ 64) {fuel : ℕ}
    (h : sort (NotAbove comparator) fuel xs = some ys) :
    qsort comparator fuel (memory xs) xs.length = some (memory ys) := by
  have hlast : ((xs.length : ℤ) - 1).bmod (2 ^ 32) = xs.length - 1 :=
    Int.bmod_eq_of_le (by omega) (by omega)
  have hsort := qsortr_memory comparator fuel [] xs []
    (l := 0) (h := xs.length - 1) rfl (by rw [List.length_nil]; omega)
    (by rwa [List.length_nil, Nat.zero_add])
  rw [List.nil_append, List.append_nil, h] at hsort
  unfold qsort
  rw [hlast, hsort, Option.map_some, List.nil_append, List.append_nil]

namespace ArrayObject

variable (a : ArrayObject)

/-- The element that a pointer into the array points to. -/
def contents (bytes : List UInt8) (p : UInt64) : Vector UInt8 a.size.toNat :=
  Vector.ofFn fun i => bytes.getD (p.toNat - a.array.toNat + i) 0

theorem contents_element {ys : List (Vector UInt8 a.size.toNat)}
    (hys : ys.length = a.num_elements.toNat) {i : ℕ} (hi : i < ys.length) :
    a.contents (memory ys) (a.element i) = ys[i] := by
  have hstart : (a.element i).toNat - a.array.toNat = (memory (ys.take i)).length := by
    rw [toNat_element (hys ▸ hi), length_memory, List.length_take_of_le hi.le]
    omega
  have hsplit : memory ys = memory (ys.take i) ++ (ys[i].toList ++ memory (ys.drop (i + 1))) := by
    rw [← memory_cons, ← memory_append, List.getElem_cons_drop, List.take_append_drop]
  apply Vector.ext
  intro k hk
  unfold contents
  rw [Vector.getElem_ofFn]
  dsimp only
  rw [hstart, hsplit, List.getD_eq_getElem?_getD, List.getElem?_append_right (Nat.le_add_right _ _),
    Nat.add_sub_cancel_left, List.getElem?_append_left (by rwa [Vector.length_toList]),
    List.getElem?_eq_getElem (by rwa [Vector.length_toList])]
  exact Vector.getElem_toList _

theorem memory_lt : a.num_elements.toNat * a.size.toNat < 2 ^ 64 := by
  rcases Nat.eq_zero_or_pos a.num_elements.toNat with hzero | hpos
  · rw [hzero, Nat.zero_mul]
    exact Nat.two_pow_pos 64
  · have hnull : a.array.toNat ≠ 0 := fun h => a.notNull hpos (UInt64.toNat_inj.mp h)
    have hfits := a.fits
    omega

theorem bsearch_result (comparator : UInt64 → UInt64 → ℤ) (value : UInt64) :
    (bsearch comparator value a.array a.size a.num_elements).2 =
      a.found (search (a.side comparator value) 0 a.num_elements.toNat).2 := by
  unfold bsearch
  rw [a.bsearchLoop_eq]
  rfl

/-- The search in a sorted array, for a key that the comparator has. -/
theorem search_sorted (c : Comparison (Vector UInt8 a.size.toNat))
    {ys : List (Vector UInt8 a.size.toNat)} (hys : ys.length = a.num_elements.toNat)
    (hsorted : ys.Pairwise (c.compare · · ≤ 0)) (key : Vector UInt8 a.size.toNat)
    (value : UInt64) :
    let result := (bsearch (fun _ p => c.compare key (a.contents (memory ys) p)) value
      a.array a.size a.num_elements).2
    (result ≠ NULL ↔ ∃ x ∈ ys, c.compare key x = 0) ∧
      (result ≠ NULL → (∃ i, a.StartsAt result i) ∧ a.contents (memory ys) result ∈ ys ∧
        c.compare key (a.contents (memory ys) result) = 0) := by
  intro result
  have hside (i : ℕ) (hi : i < ys.length) :
      a.side (fun _ p => c.compare key (a.contents (memory ys) p)) value i =
        c.compare key ys[i] := by
    unfold side
    dsimp only
    rw [a.contents_element hys hi]
  have hfalling := c.falling key hsorted hside
  have hresult : result = _ := a.bsearch_result _ value
  rw [hys] at hfalling
  cases hfound : (search (a.side (fun _ p => c.compare key (a.contents (memory ys) p)) value) 0
      a.num_elements.toNat).2 with
  | none =>
    rw [hfound] at hresult
    have hnull : result = NULL := hresult
    refine ⟨iff_of_false (fun h => h hnull) ?_, fun h => absurd hnull h⟩
    rintro ⟨x, hx, hequal⟩
    obtain ⟨i, hi, rfl⟩ := List.getElem_of_mem hx
    apply (not_found_iff hfalling).mp hfound i (Nat.zero_le i) (hys ▸ hi)
    rw [hside i hi, hequal]
  | some i =>
    rw [hfound] at hresult
    have helement : result = a.element i := hresult
    obtain ⟨hmem, hat⟩ := found_spec hfound
    have hi := (mem_probes hmem).2
    have hi' : i < ys.length := hys ▸ hi
    rw [hside i hi'] at hat
    have hcontents := a.contents_element hys hi'
    rw [helement, hcontents]
    refine ⟨iff_of_true (element_ne_null hi) ⟨_, List.getElem_mem hi', hat⟩, fun _ => ?_⟩
    exact ⟨⟨i, hi, toNat_element hi⟩, List.getElem_mem hi', hat⟩

/-- After `qsort`, `bsearch` with the same comparison finds an element equal to the key
exactly if there was one in the array before. -/
theorem sorted_search (c : Comparison (Vector UInt8 a.size.toNat))
    (xs : List (Vector UInt8 a.size.toNat)) (hxs : xs.length = a.num_elements.toNat)
    (helements : xs.length ≤ 2 ^ 31 - 1) (key : Vector UInt8 a.size.toNat) (value : UInt64) :
    ∃ sorted, (∀ fuel, 2 * xs.length < fuel →
        qsort c.compare fuel (memory xs) xs.length = some sorted) ∧
      let result := (bsearch (fun _ p => c.compare key (a.contents sorted p)) value
        a.array a.size a.num_elements).2
      (result ≠ NULL ↔ ∃ x ∈ xs, c.compare key x = 0) ∧
      (result ≠ NULL → (∃ i, a.StartsAt result i) ∧ a.contents sorted result ∈ xs ∧
        c.compare key (a.contents sorted result) = 0) := by
  obtain ⟨ys, hys⟩ : ∃ ys, sort (NotAbove c.compare) (2 * xs.length + 1) xs = some ys :=
    sort_returns c.total (Or.inl (Nat.lt_succ_self _))
  have hperm := sort_perm hys
  have hlength : ys.length = a.num_elements.toNat := hperm.length_eq.trans hxs
  obtain ⟨hfound, hresult⟩ :=
    a.search_sorted c hlength (sort_sorted c.total c.trans hys) key value
  refine ⟨memory ys, fun fuel hfuel => ?_, hfound.trans ?_, fun h => ?_⟩
  · exact qsort_memory c.compare helements (hxs ▸ a.memory_lt) (sort_mono hfuel hys)
  · exact exists_congr fun x => and_congr_left fun _ => hperm.mem_iff
  · obtain ⟨hstarts, hmem, hequal⟩ := hresult h
    exact ⟨hstarts, hperm.mem_iff.mp hmem, hequal⟩

/-- Words of eight bytes, by their first byte. -/
def byFirst : Comparison (Vector UInt8 threeWords.size.toNat) where
  compare x y := (x.get ⟨0, by decide⟩).toNat - ((y.get ⟨0, by decide⟩).toNat : ℤ)
  opposite x y := by omega
  trans x y z hxy hyz := by omega

theorem sorted_search_threeWords :
    ∃ sorted, (∀ fuel, 2 * 3 < fuel →
        qsort byFirst.compare fuel (memory [Vector.replicate 8 2, Vector.replicate 8 3,
          Vector.replicate 8 1]) 3 = some sorted) ∧
      let result := (bsearch (fun _ p => byFirst.compare (Vector.replicate 8 2)
        (threeWords.contents sorted p)) 8192 threeWords.array threeWords.size
        threeWords.num_elements).2
      (result ≠ NULL ↔ ∃ x ∈ [Vector.replicate 8 2, Vector.replicate 8 3, Vector.replicate 8 1],
        byFirst.compare (Vector.replicate 8 2) x = 0) ∧
      (result ≠ NULL → (∃ i, threeWords.StartsAt result i) ∧
        threeWords.contents sorted result ∈
          [Vector.replicate 8 2, Vector.replicate 8 3, Vector.replicate 8 1] ∧
        byFirst.compare (Vector.replicate 8 2) (threeWords.contents sorted result) = 0) :=
  threeWords.sorted_search byFirst
    [Vector.replicate 8 2, Vector.replicate 8 3, Vector.replicate 8 1] rfl (by decide)
    (Vector.replicate 8 2) 8192

end ArrayObject

end Heartix.Stdlib
