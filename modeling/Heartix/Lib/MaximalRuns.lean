import Mathlib.Data.List.Basic

/-!
The maximal runs of the members of a list that meet a predicate, as pairs of
their first position and the position behind them. A scan that skips what does
not meet the predicate and takes what does finds them from left to right.
-/

namespace Heartix.MaximalRuns

variable {α : Type*} (p : α → Bool)

/-- The positions from `i` up to `j` are a run that no position beside it extends. -/
structure MaximalRun (s : List α) (i j : ℕ) : Prop where
  nonempty : i < j
  within : j ≤ s.length
  meets : ∀ k, i ≤ k → k < j → ∃ b, s[k]? = some b ∧ p b = true
  left : i = 0 ∨ ∃ b, s[i - 1]? = some b ∧ p b = false
  right : j = s.length ∨ ∃ b, s[j]? = some b ∧ p b = false

/-- How many members in front do not meet the predicate. -/
def skipped (s : List α) : ℕ := s.findIdx p

/-- How many members in front meet the predicate. -/
def taken (s : List α) : ℕ := s.findIdx fun b => !p b

/-- The runs of a list whose first member has the position `k`. -/
def runsFrom (k : ℕ) (s : List α) : List (ℕ × ℕ) :=
  let i := skipped p s
  let n := taken p (s.drop i)
  if _ : n = 0 then [] else (k + i, k + i + n) :: runsFrom (k + i + n + 1) (s.drop (i + n + 1))
termination_by s.length
decreasing_by
  have hlen : n ≤ (s.drop i).length := List.findIdx_le_length
  rw [List.length_drop] at hlen ⊢
  omega

def runs (s : List α) : List (ℕ × ℕ) := runsFrom p 0 s

variable {p} {s : List α} {k i j : ℕ}

theorem skipped_le (s : List α) : skipped p s ≤ s.length := List.findIdx_le_length

theorem taken_le (s : List α) : taken p s ≤ s.length := List.findIdx_le_length

theorem getElem?_of_lt_skipped (hi : i < skipped p s) : ∃ b, s[i]? = some b ∧ p b = false := by
  have hlen := Nat.lt_of_lt_of_le hi (skipped_le s)
  exact ⟨s[i], List.getElem?_eq_getElem hlen, by simpa using List.not_of_lt_findIdx hi⟩

theorem getElem?_of_lt_taken (hi : i < taken p s) : ∃ b, s[i]? = some b ∧ p b = true := by
  have hlen := Nat.lt_of_lt_of_le hi (taken_le s)
  exact ⟨s[i], List.getElem?_eq_getElem hlen, by simpa using List.not_of_lt_findIdx hi⟩

theorem getElem?_skipped (hi : skipped p s < s.length) :
    ∃ b, s[skipped p s]? = some b ∧ p b = true :=
  ⟨s[skipped p s], List.getElem?_eq_getElem hi, List.findIdx_getElem⟩

theorem getElem?_taken (hi : taken p s < s.length) :
    ∃ b, s[taken p s]? = some b ∧ p b = false := by
  have hget : (!p s[taken p s]) = true :=
    List.findIdx_getElem (p := fun b => !p b) (w := hi)
  exact ⟨s[taken p s], List.getElem?_eq_getElem hi, by simpa using hget⟩

/-- Behind the skipped members there is a run, or the list ends. -/
theorem taken_eq_zero_iff : taken p (s.drop (skipped p s)) = 0 ↔ skipped p s = s.length := by
  constructor
  · intro hzero
    by_contra hne
    have hlt : skipped p s < s.length := Nat.lt_of_le_of_ne (skipped_le s) hne
    obtain ⟨b, hb, hpb⟩ := getElem?_skipped hlt
    have hdrop : taken p (s.drop (skipped p s)) < (s.drop (skipped p s)).length := by
      rw [hzero, List.length_drop]
      omega
    obtain ⟨b', hb', hpb'⟩ := getElem?_taken hdrop
    rw [hzero, List.getElem?_drop, Nat.add_zero, hb, Option.some.injEq] at hb'
    rw [hb', hpb'] at hpb
    exact Bool.noConfusion hpb
  · intro heq
    have hle := taken_le (p := p) (s.drop (skipped p s))
    rw [List.length_drop, heq, Nat.sub_self] at hle
    rw [heq]
    exact Nat.le_zero.1 hle

theorem runsFrom_of_end (h : skipped p s = s.length) : runsFrom p k s = [] := by
  rw [runsFrom]
  exact dif_pos (taken_eq_zero_iff.2 h)

theorem runsFrom_of_run (h : skipped p s < s.length) :
    runsFrom p k s =
      (k + skipped p s, k + skipped p s + taken p (s.drop (skipped p s))) ::
        runsFrom p (k + skipped p s + taken p (s.drop (skipped p s)) + 1)
          (s.drop (skipped p s + taken p (s.drop (skipped p s)) + 1)) := by
  rw [runsFrom]
  exact dif_neg fun hzero => Nat.ne_of_lt h (taken_eq_zero_iff.1 hzero)

/-- No run reaches over the position `k`. -/
def Border (p : α → Bool) (s : List α) (k : ℕ) : Prop :=
  k = 0 ∨ ∀ b, s[k - 1]? = some b → p b = false

/-- Two runs with the same beginning are the same. -/
theorem MaximalRun.end_unique {j' : ℕ} (h : MaximalRun p s i j) (h' : MaximalRun p s i j') :
    j = j' := by
  have hle : ∀ {j j' : ℕ}, MaximalRun p s i j → MaximalRun p s i j' → j' ≤ j := by
    intro j j' h h'
    by_contra hlt
    have hij := h.nonempty
    have hwithin := h'.within
    obtain ⟨b, hb, hpb⟩ := h'.meets j (by omega) (by omega)
    rcases h.right with hend | ⟨b', hb', hpb'⟩
    · omega
    · rw [hb, Option.some.injEq] at hb'
      rw [hb', hpb'] at hpb
      exact Bool.noConfusion hpb
  exact Nat.le_antisymm (hle h' h) (hle h h')

section Scan

variable (p s k)

/-- Where the first run behind the position `k` begins, or the end. -/
def runStart : ℕ := k + skipped p (s.drop k)

/-- Where it ends. -/
def runEnd : ℕ := runStart p s k + taken p (s.drop (runStart p s k))

variable {p s k}

theorem drop_runStart : (s.drop k).drop (skipped p (s.drop k)) = s.drop (runStart p s k) :=
  List.drop_drop

theorem notMeets_of_lt_runStart {m : ℕ} (hk : k ≤ m) (hm : m < runStart p s k) :
    ∃ b, s[m]? = some b ∧ p b = false := by
  unfold runStart at hm
  obtain ⟨b, hb, hpb⟩ := getElem?_of_lt_skipped (show m - k < skipped p (s.drop k) by omega)
  rw [List.getElem?_drop, Nat.add_sub_cancel' hk] at hb
  exact ⟨b, hb, hpb⟩

theorem meets_of_lt_runEnd {m : ℕ} (hk : runStart p s k ≤ m) (hm : m < runEnd p s k) :
    ∃ b, s[m]? = some b ∧ p b = true := by
  unfold runEnd at hm
  obtain ⟨b, hb, hpb⟩ := getElem?_of_lt_taken
    (show m - runStart p s k < taken p (s.drop (runStart p s k)) by omega)
  rw [List.getElem?_drop, Nat.add_sub_cancel' hk] at hb
  exact ⟨b, hb, hpb⟩

theorem runEnd_le (h : runStart p s k ≤ s.length) : runEnd p s k ≤ s.length := by
  have hle := taken_le (p := p) (s.drop (runStart p s k))
  rw [List.length_drop] at hle
  unfold runEnd
  omega

theorem notMeets_runEnd (h : runEnd p s k < s.length) :
    ∃ b, s[runEnd p s k]? = some b ∧ p b = false := by
  have hlt : taken p (s.drop (runStart p s k)) < (s.drop (runStart p s k)).length := by
    rw [List.length_drop]
    unfold runEnd at h
    omega
  obtain ⟨b, hb, hpb⟩ := getElem?_taken hlt
  rw [List.getElem?_drop] at hb
  exact ⟨b, hb, hpb⟩

theorem runStart_lt_runEnd (h : runStart p s k < s.length) : runStart p s k < runEnd p s k := by
  have hne : taken p (s.drop (runStart p s k)) ≠ 0 := by
    rw [← drop_runStart, Ne, taken_eq_zero_iff, List.length_drop]
    unfold runStart at h
    omega
  unfold runEnd
  omega

/-- The scan from a border finds a maximal run. -/
theorem maximalRun_runStart (hk : Border p s k) (h : runStart p s k < s.length) :
    MaximalRun p s (runStart p s k) (runEnd p s k) := by
  refine ⟨runStart_lt_runEnd h, runEnd_le (Nat.le_of_lt h), fun m => meets_of_lt_runEnd, ?_, ?_⟩
  · rcases Nat.eq_zero_or_pos (runStart p s k) with hzero | hpos
    · exact Or.inl hzero
    · right
      rcases Nat.lt_or_ge k (runStart p s k) with hlt | hge
      · exact notMeets_of_lt_runStart (Nat.le_sub_one_of_lt hlt) (by omega)
      · have heq : runStart p s k = k := Nat.le_antisymm hge (Nat.le_add_right k _)
        have hget : s[k - 1]? = some s[k - 1] := List.getElem?_eq_getElem (by omega)
        rcases hk with rfl | hborder
        · omega
        · rw [heq]
          exact ⟨s[k - 1], hget, hborder _ hget⟩
  · rcases Nat.lt_or_ge (runEnd p s k) s.length with hlt | hge
    · exact Or.inr (notMeets_runEnd hlt)
    · exact Or.inl (Nat.le_antisymm (runEnd_le (Nat.le_of_lt h)) hge)

theorem border_runEnd : Border p s (runEnd p s k + 1) := by
  refine Or.inr fun b hb => ?_
  rw [Nat.add_sub_cancel] at hb
  obtain ⟨b', hb', hpb'⟩ := notMeets_runEnd (List.getElem?_eq_some_iff.1 hb).1
  rw [hb, Option.some.injEq] at hb'
  rw [hb']
  exact hpb'

/-- The runs from a position on: none, or the next one and those behind it. -/
theorem runsFrom_drop_of_end (h : s.length ≤ runStart p s k) : runsFrom p k (s.drop k) = [] := by
  apply runsFrom_of_end
  have hle := skipped_le (p := p) (s.drop k)
  rw [List.length_drop] at hle ⊢
  unfold runStart at h
  omega

theorem runsFrom_drop_of_run (h : runStart p s k < s.length) :
    runsFrom p k (s.drop k) = (runStart p s k, runEnd p s k) ::
      runsFrom p (runEnd p s k + 1) (s.drop (runEnd p s k + 1)) := by
  have hlt : skipped p (s.drop k) < (s.drop k).length := by
    rw [List.length_drop]
    unfold runStart at h
    omega
  have hend : k + (skipped p (s.drop k) + taken p (s.drop (runStart p s k)) + 1) =
      runEnd p s k + 1 := by
    unfold runEnd runStart
    omega
  rw [runsFrom_of_run hlt, drop_runStart, List.drop_drop, hend]
  rfl

end Scan

/-- The runs from a border on are the maximal runs that begin there or later. -/
theorem mem_runsFrom_iff (hk : Border p s k) :
    (i, j) ∈ runsFrom p k (s.drop k) ↔ MaximalRun p s i j ∧ k ≤ i := by
  induction hn : s.length + 1 - k using Nat.strongRecOn generalizing k with
  | ind n ih =>
    have hstart : k ≤ runStart p s k := Nat.le_add_right k _
    have hbefore : MaximalRun p s i j → k ≤ i → runStart p s k ≤ i := by
      intro hrun hki
      by_contra hlt
      obtain ⟨b, hb, hpb⟩ := notMeets_of_lt_runStart hki (Nat.lt_of_not_le hlt)
      obtain ⟨b', hb', hpb'⟩ := hrun.meets i (Nat.le_refl i) hrun.nonempty
      rw [hb, Option.some.injEq] at hb'
      rw [← hb', hpb] at hpb'
      exact Bool.noConfusion hpb'
    rcases Nat.lt_or_ge (runStart p s k) s.length with hlt | hge
    · have hfirst := maximalRun_runStart hk hlt
      have hpos := hfirst.nonempty
      rw [runsFrom_drop_of_run hlt, List.mem_cons,
        ih _ (by omega) border_runEnd rfl, Prod.mk.injEq]
      constructor
      · rintro (⟨rfl, rfl⟩ | ⟨hrun, hle⟩)
        · exact ⟨hfirst, hstart⟩
        · exact ⟨hrun, by omega⟩
      · rintro ⟨hrun, hki⟩
        have hle := hbefore hrun hki
        rcases Nat.lt_or_ge (runEnd p s k) i with hafter | hwithin
        · exact Or.inr ⟨hrun, hafter⟩
        · rcases Nat.eq_or_lt_of_le hle with heq | hinside
          · subst heq
            exact Or.inl ⟨rfl, hrun.end_unique hfirst⟩
          · exfalso
            have hprev : runStart p s k ≤ i - 1 := by omega
            obtain ⟨b, hb, hpb⟩ := meets_of_lt_runEnd hprev (by omega)
            rcases hrun.left with hzero | ⟨b', hb', hpb'⟩
            · omega
            · rw [hb, Option.some.injEq] at hb'
              rw [hb', hpb'] at hpb
              exact Bool.noConfusion hpb
    · rw [runsFrom_drop_of_end hge]
      refine ⟨fun hmem => absurd hmem List.not_mem_nil, ?_⟩
      rintro ⟨hrun, hki⟩
      have hle := hbefore hrun hki
      have hij := hrun.nonempty
      have hjs := hrun.within
      omega

/-- The scan finds the maximal runs. -/
theorem mem_runs_iff : (i, j) ∈ runs p s ↔ MaximalRun p s i j := by
  have h := mem_runsFrom_iff (p := p) (s := s) (i := i) (j := j) (Or.inl rfl : Border p s 0)
  rw [List.drop_zero] at h
  exact h.trans (and_iff_left (Nat.zero_le i))

/-- They come from left to right. -/
theorem pairwise_runsFrom (s : List α) (k : ℕ) :
    (runsFrom p k (s.drop k)).Pairwise (·.2 < ·.1) := by
  induction hn : s.length + 1 - k using Nat.strongRecOn generalizing k with
  | ind n ih =>
    rcases Nat.lt_or_ge (runStart p s k) s.length with hlt | hge
    · have hpos := runStart_lt_runEnd hlt
      have hstart : k ≤ runStart p s k := Nat.le_add_right k _
      rw [runsFrom_drop_of_run hlt]
      refine List.Pairwise.cons ?_ (ih _ (by omega) _ rfl)
      rintro ⟨i, j⟩ hmem
      rw [mem_runsFrom_iff border_runEnd] at hmem
      exact hmem.2
    · rw [runsFrom_drop_of_end hge]
      exact List.Pairwise.nil

theorem pairwise_runs (s : List α) : (runs p s).Pairwise (·.2 < ·.1) := by
  have h := pairwise_runsFrom (p := p) s 0
  rw [List.drop_zero] at h
  exact h

end Heartix.MaximalRuns
