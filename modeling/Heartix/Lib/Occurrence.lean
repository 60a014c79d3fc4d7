import Mathlib.Order.Bounds.Basic
import Mathlib.Data.Set.Insert
import Mathlib.Order.Interval.Set.Basic

/-!
The result of a search among positions: the first or the last member of a set
of natural numbers, or nothing where the set is empty. The rules follow a scan
that looks at one position and goes on with the positions after or before it.
-/

namespace Heartix.Occurrence

/-- The answer of a search for the first position in a set. -/
inductive FirstOf (S : Set ℕ) : Option ℕ → Prop
  | found {i : ℕ} (h : IsLeast S i) : FirstOf S (some i)
  | absent (h : S = ∅) : FirstOf S none

/-- The answer of a search for the last position in a set. -/
inductive LastOf (S : Set ℕ) : Option ℕ → Prop
  | found {i : ℕ} (h : IsGreatest S i) : LastOf S (some i)
  | absent (h : S = ∅) : LastOf S none

variable {S : Set ℕ} {r r' : Option ℕ}

theorem FirstOf.eq_none_iff (h : FirstOf S r) : r = none ↔ S = ∅ := by
  cases h with
  | found h => simpa using Set.Nonempty.ne_empty ⟨_, h.1⟩
  | absent h => simpa using h

theorem LastOf.eq_none_iff (h : LastOf S r) : r = none ↔ S = ∅ := by
  cases h with
  | found h => simpa using Set.Nonempty.ne_empty ⟨_, h.1⟩
  | absent h => simpa using h

theorem FirstOf.some_iff {i : ℕ} : FirstOf S (some i) ↔ IsLeast S i :=
  ⟨fun h => by cases h with | found h => exact h, FirstOf.found⟩

theorem LastOf.some_iff {i : ℕ} : LastOf S (some i) ↔ IsGreatest S i :=
  ⟨fun h => by cases h with | found h => exact h, LastOf.found⟩

theorem FirstOf.none_iff : FirstOf S none ↔ S = ∅ :=
  ⟨fun h => by cases h with | absent h => exact h, FirstOf.absent⟩

theorem LastOf.none_iff : LastOf S none ↔ S = ∅ :=
  ⟨fun h => by cases h with | absent h => exact h, LastOf.absent⟩

/-- A search has one answer. -/
theorem FirstOf.unique (h : FirstOf S r) (h' : FirstOf S r') : r = r' := by
  cases h with
  | found h =>
    cases h' with
    | found h' => rw [h.unique h']
    | absent h' => exact absurd h' (Set.Nonempty.ne_empty ⟨_, h.1⟩)
  | absent h =>
    cases h' with
    | found h' => exact absurd h (Set.Nonempty.ne_empty ⟨_, h'.1⟩)
    | absent h' => rfl

theorem LastOf.unique (h : LastOf S r) (h' : LastOf S r') : r = r' := by
  cases h with
  | found h =>
    cases h' with
    | found h' => rw [h.unique h']
    | absent h' => exact absurd h' (Set.Nonempty.ne_empty ⟨_, h.1⟩)
  | absent h =>
    cases h' with
    | found h' => exact absurd h (Set.Nonempty.ne_empty ⟨_, h'.1⟩)
    | absent h' => rfl

/-- Where there is one position only, it is the first and the last one. -/
theorem FirstOf.eq_of_subsingleton (h : FirstOf S r) (h' : LastOf S r') (hS : S.Subsingleton) :
    r = r' := by
  cases h with
  | found h =>
    cases h' with
    | found h' => rw [hS h.1 h'.1]
    | absent h' => exact absurd h' (Set.Nonempty.ne_empty ⟨_, h.1⟩)
  | absent h =>
    cases h' with
    | found h' => exact absurd h (Set.Nonempty.ne_empty ⟨_, h'.1⟩)
    | absent h' => rfl

theorem FirstOf.here (h : 0 ∈ S) : FirstOf S (some 0) :=
  FirstOf.found ⟨h, fun _ _ => Nat.zero_le _⟩

/-- The scan upwards: this position is not one of them, the others are shifted. -/
theorem FirstOf.later {T : Set ℕ} (h : 0 ∉ S) (hT : ∀ i, i ∈ T ↔ i + 1 ∈ S)
    (hr : FirstOf T r) : FirstOf S (r.map (· + 1)) := by
  cases hr with
  | found hi =>
    refine FirstOf.found ⟨(hT _).1 hi.1, ?_⟩
    intro j hj
    cases j with
    | zero => exact absurd hj h
    | succ j => exact Nat.succ_le_succ (hi.2 ((hT j).2 hj))
  | absent hempty =>
    refine FirstOf.absent (Set.eq_empty_of_forall_notMem ?_)
    intro j hj
    cases j with
    | zero => exact h hj
    | succ j =>
      have hmem : j ∈ T := (hT j).2 hj
      rw [hempty] at hmem
      exact hmem

theorem LastOf.here {k : ℕ} (h : k ∈ S) : LastOf {i ∈ S | i ≤ k} (some k) :=
  LastOf.found ⟨⟨h, le_rfl⟩, fun _ hj => hj.2⟩

/-- The scan downwards: this position is not one of them, those below remain. -/
theorem LastOf.earlier {k : ℕ} (h : k + 1 ∉ S) (hr : LastOf {i ∈ S | i ≤ k} r) :
    LastOf {i ∈ S | i ≤ k + 1} r := by
  have hset : {i ∈ S | i ≤ k + 1} = {i ∈ S | i ≤ k} := by
    ext i
    refine ⟨fun hi => ⟨hi.1, ?_⟩, fun hi => ⟨hi.1, Nat.le_succ_of_le hi.2⟩⟩
    have hne : i ≠ k + 1 := fun heq => h (heq ▸ hi.1)
    have hle := hi.2
    omega
  rw [hset]
  exact hr

end Heartix.Occurrence
