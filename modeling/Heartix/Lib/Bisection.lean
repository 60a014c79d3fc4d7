import Mathlib.Data.Int.ConditionallyCompleteOrder
import Mathlib.Data.Nat.Size
import Mathlib.Data.Sign.Defs
import Mathlib.Order.ConditionallyCompleteLattice.Basic
import Mathlib.Order.Interval.Set.Defs
import Mathlib.Tactic.Ring

/-!
The search for a place in a half-open interval by halving it. A probe of a place
says whether what is looked for is before it, there, or behind it. Each probe is
inside what is left of the interval, and takes at least half of that away.
-/

namespace Heartix.Bisection

def middle (low high : ℕ) : ℕ := low + (high - low) / 2

theorem middle_bounds {low high : ℕ} (h : low < high) :
    low ≤ middle low high ∧ middle low high < high := by
  unfold middle
  omega

/-- The places that are probed, and the place found. `side i` is negative where what
is looked for is before `i`, and positive where it is behind. -/
def search (side : ℕ → ℤ) (low high : ℕ) : List ℕ × Option ℕ :=
  if _ : low < high then
    if side (middle low high) < 0 then
      (search side low (middle low high)).map (middle low high :: ·) id
    else if 0 < side (middle low high) then
      (search side (middle low high + 1) high).map (middle low high :: ·) id
    else ([middle low high], some (middle low high))
  else ([], none)
termination_by high - low
decreasing_by
  · have hmid := middle_bounds ‹low < high›
    omega
  · have hmid := middle_bounds ‹low < high›
    omega

/-- Going up, what is looked for is first behind the places, then there, then before them. -/
def Falling (side : ℕ → ℤ) (low high : ℕ) : Prop :=
  AntitoneOn (fun i => SignType.sign (side i)) (Set.Ico low high)

variable {side : ℕ → ℤ} {low high i : ℕ}

theorem search_empty (h : ¬low < high) : search side low high = ([], none) := by
  rw [search, dif_neg h]

theorem search_before (h : low < high) (hbefore : side (middle low high) < 0) :
    search side low high =
      (search side low (middle low high)).map (middle low high :: ·) id := by
  rw [search, dif_pos h, if_pos hbefore]

theorem search_behind (h : low < high) (hbehind : 0 < side (middle low high)) :
    search side low high =
      (search side (middle low high + 1) high).map (middle low high :: ·) id := by
  rw [search, dif_pos h, if_neg (Int.not_lt.mpr hbehind.le), if_pos hbehind]

theorem search_at (h : low < high) (hat : side (middle low high) = 0) :
    search side low high = ([middle low high], some (middle low high)) := by
  rw [search, dif_pos h, if_neg (Int.not_lt.mpr hat.ge), if_neg (Int.not_lt.mpr hat.le)]

/-- An interval is empty, or its middle is probed. -/
theorem search_induction (side : ℕ → ℤ) {motive : ℕ → ℕ → Prop}
    (empty : ∀ low high, ¬low < high → motive low high)
    (before : ∀ low high, low < high → side (middle low high) < 0 →
      motive low (middle low high) → motive low high)
    (behind : ∀ low high, low < high → 0 < side (middle low high) →
      motive (middle low high + 1) high → motive low high)
    (hit : ∀ low high, low < high → side (middle low high) = 0 → motive low high)
    (low high : ℕ) : motive low high := by
  induction low, high using search.induct side with
  | case1 low high hlt hbefore ih => exact before low high hlt hbefore ih
  | case2 low high hlt _ hbehind ih => exact behind low high hlt hbehind ih
  | case3 low high hlt hnot hnot' => exact hit low high hlt (by omega)
  | case4 low high hle => exact empty low high hle

theorem mem_probes (h : i ∈ (search side low high).1) : low ≤ i ∧ i < high := by
  induction low, high using search_induction side with
  | empty low high hle =>
    rw [search_empty hle] at h
    cases h
  | before low high hlt hbefore ih =>
    have hmid := middle_bounds hlt
    rw [search_before hlt hbefore] at h
    rcases List.mem_cons.mp h with rfl | hmem
    · exact hmid
    · have hi := ih hmem
      omega
  | behind low high hlt hbehind ih =>
    have hmid := middle_bounds hlt
    rw [search_behind hlt hbehind] at h
    rcases List.mem_cons.mp h with rfl | hmem
    · exact hmid
    · have hi := ih hmem
      omega
  | hit low high hlt hat =>
    rw [search_at hlt hat] at h
    obtain rfl := List.mem_singleton.mp h
    exact middle_bounds hlt

/-- What is left of `n` places after one probe. -/
theorem succ_size_le {m n : ℕ} (hn : 0 < n) (hm : m ≤ n / 2) : m.size + 1 ≤ n.size := by
  rw [Nat.succ_le_iff, Nat.lt_size]
  cases hsize : m.size with
  | zero => exact hn
  | succ k =>
    have hk : 2 ^ k ≤ m := Nat.lt_size.mp (hsize ▸ Nat.lt_succ_self k)
    rw [Nat.pow_succ]
    omega

theorem length_probes_le (side : ℕ → ℤ) (low high : ℕ) :
    (search side low high).1.length ≤ (high - low).size := by
  induction low, high using search_induction side with
  | empty low high hle =>
    rw [search_empty hle]
    exact Nat.zero_le _
  | before low high hlt hbefore ih =>
    rw [search_before hlt hbefore]
    refine (Nat.succ_le_succ ih).trans (succ_size_le (Nat.sub_pos_of_lt hlt) ?_)
    unfold middle
    omega
  | behind low high hlt hbehind ih =>
    rw [search_behind hlt hbehind]
    refine (Nat.succ_le_succ ih).trans (succ_size_le (Nat.sub_pos_of_lt hlt) ?_)
    unfold middle
    omega
  | hit low high hlt hat =>
    rw [search_at hlt hat]
    exact Nat.size_pos.mpr (Nat.sub_pos_of_lt hlt)

/-- The place that is found is one of those probed, and what is looked for is there. -/
theorem found_spec (h : (search side low high).2 = some i) :
    i ∈ (search side low high).1 ∧ side i = 0 := by
  induction low, high using search_induction side with
  | empty low high hle =>
    rw [search_empty hle] at h
    cases h
  | before low high hlt hbefore ih =>
    rw [search_before hlt hbefore] at h ⊢
    obtain ⟨hmem, hat⟩ := ih h
    exact ⟨List.mem_cons_of_mem _ hmem, hat⟩
  | behind low high hlt hbehind ih =>
    rw [search_behind hlt hbehind] at h ⊢
    obtain ⟨hmem, hat⟩ := ih h
    exact ⟨List.mem_cons_of_mem _ hmem, hat⟩
  | hit low high hlt hat =>
    rw [search_at hlt hat] at h ⊢
    obtain rfl := Option.some.inj h
    exact ⟨List.mem_singleton_self _, hat⟩

theorem Falling.mono (h : Falling side low high) {low' high' : ℕ} (hlow : low ≤ low')
    (hhigh : high' ≤ high) : Falling side low' high' := by
  intro i hi j hj hij
  exact h ⟨hlow.trans hi.1, hi.2.trans_le hhigh⟩ ⟨hlow.trans hj.1, hj.2.trans_le hhigh⟩ hij

/-- Behind a place that it is before of, what is looked for is not. -/
theorem Falling.ne_of_before (h : Falling side low high) {m : ℕ} (hm : low ≤ m)
    (hbefore : side m < 0) (hmi : m ≤ i) (hi : i < high) : side i ≠ 0 := by
  have hle := h ⟨hm, hmi.trans_lt hi⟩ ⟨hm.trans hmi, hi⟩ hmi
  intro hzero
  simp [hzero, sign_neg hbefore] at hle

theorem Falling.ne_of_behind (h : Falling side low high) {m : ℕ} (hm : m < high)
    (hbehind : 0 < side m) (hi : low ≤ i) (him : i ≤ m) : side i ≠ 0 := by
  have hle := h ⟨hi, him.trans_lt hm⟩ ⟨hi.trans him, hm⟩ him
  intro hzero
  simp [hzero, sign_pos hbehind] at hle

/-- Nothing is found only where there is nothing to be found. -/
theorem not_found_iff (h : Falling side low high) :
    (search side low high).2 = none ↔ ∀ i, low ≤ i → i < high → side i ≠ 0 := by
  constructor
  · intro hnone
    induction low, high using search_induction side with
    | empty low high hle => exact fun i hi hi' => absurd (hi.trans_lt hi') hle
    | before low high hlt hbefore ih =>
      have hmid := middle_bounds hlt
      rw [search_before hlt hbefore] at hnone
      intro i hi hi'
      rcases Nat.lt_or_ge i (middle low high) with hless | hge
      · exact ih (h.mono le_rfl hmid.2.le) hnone i hi hless
      · exact h.ne_of_before hmid.1 hbefore hge hi'
    | behind low high hlt hbehind ih =>
      have hmid := middle_bounds hlt
      rw [search_behind hlt hbehind] at hnone
      intro i hi hi'
      rcases Nat.lt_or_ge (middle low high) i with hless | hge
      · exact ih (h.mono (hmid.1.trans (Nat.le_succ _)) le_rfl) hnone i hless hi'
      · exact h.ne_of_behind hmid.2 hbehind hi hge
    | hit low high hlt hat =>
      rw [search_at hlt hat] at hnone
      cases hnone
  · intro hall
    cases hfound : (search side low high).2 with
    | none => rfl
    | some i =>
      obtain ⟨hmem, hat⟩ := found_spec hfound
      obtain ⟨hlow, hhigh⟩ := mem_probes hmem
      exact absurd hat (hall i hlow hhigh)

end Heartix.Bisection
