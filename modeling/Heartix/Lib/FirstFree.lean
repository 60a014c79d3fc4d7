import Mathlib.Data.Finset.Card
import Mathlib.Data.List.Basic
import Mathlib.Order.Interval.Finset.Nat

/-!
Places are given out one after another, each time the first one below a bound
that is still free. As long as there is one, the places given out are new and
different, and how many are left is a matter of counting.
-/

namespace Heartix.FirstFree

/-- The first number below `m` that is not taken. -/
def firstFree (taken : Finset ℕ) (m : ℕ) : Option ℕ :=
  (List.range m).find? fun t => decide (t ∉ taken)

/-- How many numbers below `m` are taken. -/
def occupied (taken : Finset ℕ) (m : ℕ) : ℕ := (taken.filter (· < m)).card

/-- What `k` requests get in turn: a place, or nothing. -/
def seats (m : ℕ) : Finset ℕ → ℕ → List (Option ℕ)
  | _, 0 => []
  | taken, k + 1 =>
      match firstFree taken m with
      | none => none :: seats m taken k
      | some t => some t :: seats m (insert t taken) k

variable {taken : Finset ℕ} {m k r r' t : ℕ}

theorem firstFree_spec (h : firstFree taken m = some t) : t < m ∧ t ∉ taken := by
  refine ⟨List.mem_range.mp (List.mem_of_find?_eq_some h), ?_⟩
  have hfree := List.find?_some h
  exact of_decide_eq_true hfree

theorem firstFree_eq_none_iff : firstFree taken m = none ↔ m ≤ occupied taken m := by
  have hsub : taken.filter (· < m) ⊆ Finset.range m := by
    intro t ht
    exact Finset.mem_range.mpr (Finset.mem_filter.mp ht).2
  unfold firstFree occupied
  rw [List.find?_eq_none]
  constructor
  · intro hall
    have hrange : Finset.range m ⊆ taken.filter (· < m) := by
      intro t ht
      have hlt := Finset.mem_range.mp ht
      have htaken := hall t (List.mem_range.mpr hlt)
      rw [decide_eq_true_iff, not_not] at htaken
      exact Finset.mem_filter.mpr ⟨htaken, hlt⟩
    have hcard := Finset.card_le_card hrange
    rwa [Finset.card_range] at hcard
  · intro hcard t ht
    have heq := Finset.eq_of_subset_of_card_le hsub (by rwa [Finset.card_range])
    have hmem : t ∈ taken.filter (· < m) := by
      rw [heq]
      exact Finset.mem_range.mpr (List.mem_range.mp ht)
    rw [decide_eq_true_iff, not_not]
    exact (Finset.mem_filter.mp hmem).1

theorem occupied_insert (hlt : t < m) (hfree : t ∉ taken) :
    occupied (insert t taken) m = occupied taken m + 1 := by
  unfold occupied
  rw [Finset.filter_insert, if_pos hlt, Finset.card_insert_of_notMem]
  exact fun hmem => hfree (Finset.mem_filter.mp hmem).1

theorem occupied_le_card (taken : Finset ℕ) (m : ℕ) : occupied taken m ≤ taken.card :=
  Finset.card_filter_le taken _

theorem length_seats (m : ℕ) (taken : Finset ℕ) (k : ℕ) : (seats m taken k).length = k := by
  induction k generalizing taken with
  | zero => rfl
  | succ k ih =>
    unfold seats
    cases firstFree taken m with
    | none => exact congrArg (· + 1) (ih taken)
    | some t => exact congrArg (· + 1) (ih (insert t taken))

/-- A place that is given out is below the bound and was free. -/
theorem seats_free (h : (seats m taken k)[r]? = some (some t)) : t < m ∧ t ∉ taken := by
  induction k generalizing taken r with
  | zero => cases h
  | succ k ih =>
    unfold seats at h
    cases hfree : firstFree taken m with
    | none =>
      rw [hfree] at h
      cases r with
      | zero => cases h
      | succ r => exact ih h
    | some u =>
      rw [hfree] at h
      cases r with
      | zero =>
        cases h
        exact firstFree_spec hfree
      | succ r =>
        obtain ⟨hlt, hnot⟩ := ih h
        exact ⟨hlt, fun hmem => hnot (Finset.mem_insert_of_mem hmem)⟩

/-- No place is given out twice. -/
theorem seats_injective (h : (seats m taken k)[r]? = some (some t))
    (h' : (seats m taken k)[r']? = some (some t)) : r = r' := by
  induction k generalizing taken r r' with
  | zero => cases h
  | succ k ih =>
    unfold seats at h h'
    cases hfree : firstFree taken m with
    | none =>
      rw [hfree] at h h'
      cases r with
      | zero => cases h
      | succ r =>
        cases r' with
        | zero => cases h'
        | succ r' => exact congrArg (· + 1) (ih h h')
    | some u =>
      rw [hfree] at h h'
      cases r with
      | zero =>
        cases h
        cases r' with
        | zero => rfl
        | succ r' => exact absurd (Finset.mem_insert_self t taken) (seats_free h').2
      | succ r =>
        cases r' with
        | zero =>
          cases h'
          exact absurd (Finset.mem_insert_self t taken) (seats_free h).2
        | succ r' => exact congrArg (· + 1) (ih h h')

/-- A request goes away empty exactly if the places taken before and those given
out to the requests before it fill the range. -/
theorem seats_eq_none_iff (hr : r < k) :
    (seats m taken k)[r]? = some none ↔ m ≤ occupied taken m + r := by
  induction k generalizing taken r with
  | zero => cases hr
  | succ k ih =>
    unfold seats
    cases hfree : firstFree taken m with
    | none =>
      have hfull := firstFree_eq_none_iff.mp hfree
      cases r with
      | zero => exact iff_of_true rfl hfull
      | succ r =>
        refine iff_of_true ?_ (Nat.le_add_right_of_le hfull)
        exact (ih (Nat.lt_of_succ_lt_succ hr)).mpr (Nat.le_add_right_of_le hfull)
    | some u =>
      obtain ⟨hlt, hnot⟩ := firstFree_spec hfree
      cases r with
      | zero =>
        refine iff_of_false (fun h => ?_) (fun h => ?_)
        · cases h
        · rw [Nat.add_zero, ← firstFree_eq_none_iff, hfree] at h
          cases h
      | succ r =>
        have hrest : (seats m (insert u taken) k)[r]? = some none ↔ _ :=
          ih (Nat.lt_of_succ_lt_succ hr)
        rw [occupied_insert hlt hnot] at hrest
        rw [List.getElem?_cons_succ, hrest, Nat.add_right_comm, Nat.add_assoc]

/-- Where there is room for all requests, each one gets a place. -/
theorem exists_seat (hr : r < k) (hroom : occupied taken m + k ≤ m) :
    ∃ t, (seats m taken k)[r]? = some (some t) := by
  have hlt : r < (seats m taken k).length := by
    rw [length_seats]
    exact hr
  cases hseat : (seats m taken k)[r] with
  | none =>
    have hfull := (seats_eq_none_iff hr).mp ((List.getElem?_eq_getElem hlt).trans
      (congrArg some hseat))
    omega
  | some t => exact ⟨t, (List.getElem?_eq_getElem hlt).trans (congrArg some hseat)⟩

end Heartix.FirstFree
