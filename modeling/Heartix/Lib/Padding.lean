import Mathlib.Data.List.Basic

/-!
A word between two runs of a filler that does not occur in it. What is padded can
be taken apart again, unless there is nothing between the runs.
-/

namespace Heartix.Padding

variable {α : Type*}

def padded (filler : α) (left : ℕ) (core : List α) (right : ℕ) : List α :=
  List.replicate left filler ++ core ++ List.replicate right filler

variable {filler c : α} {left left' right right' : ℕ} {core core' : List α}

theorem length_padded : (padded filler left core right).length = left + core.length + right := by
  unfold padded
  rw [List.length_append, List.length_append, List.length_replicate, List.length_replicate]

/-- The run in front of the first other letter. -/
theorem replicate_cons_inj {s t : List α} (hc : c ≠ filler)
    (h : List.replicate left filler ++ c :: s = List.replicate left' filler ++ c :: t) :
    left = left' := by
  induction left generalizing left' with
  | zero =>
    cases left' with
    | zero => rfl
    | succ left' => exact absurd (List.cons.inj h).1 hc
  | succ left ih =>
    cases left' with
    | zero => exact absurd (List.cons.inj h).1.symm hc
    | succ left' => exact congrArg (· + 1) (ih (List.cons.inj h).2)

variable [DecidableEq α]

theorem filter_padded (hcore : filler ∉ core) :
    (padded filler left core right).filter (· ≠ filler) = core := by
  have hrun (n : ℕ) : (List.replicate n filler).filter (· ≠ filler) = [] := by
    rw [List.filter_eq_nil_iff]
    intro x hx
    rw [List.eq_of_mem_replicate hx]
    simp
  have hself : core.filter (· ≠ filler) = core := by
    rw [List.filter_eq_self]
    intro x hx
    have hne : x ≠ filler := by
      rintro rfl
      exact hcore hx
    simpa using hne
  unfold padded
  rw [List.filter_append, List.filter_append, hrun, hrun, hself, List.nil_append, List.append_nil]

theorem padded_inj (hcore : filler ∉ core) (hcore' : filler ∉ core') (hne : core ≠ []) :
    padded filler left core right = padded filler left' core' right' ↔
      left = left' ∧ core = core' ∧ right = right' := by
  constructor
  · intro h
    have hsame := congrArg (List.filter (· ≠ filler)) h
    rw [filter_padded hcore, filter_padded hcore'] at hsame
    subst hsame
    obtain ⟨c, tail, rfl⟩ := List.exists_cons_of_ne_nil hne
    have hc : c ≠ filler := by
      rintro rfl
      exact hcore List.mem_cons_self
    have hlength := congrArg List.length h
    rw [length_padded, length_padded] at hlength
    unfold padded at h
    rw [List.append_assoc, List.append_assoc, List.cons_append, List.cons_append] at h
    have hleft := replicate_cons_inj hc h
    exact ⟨hleft, rfl, by omega⟩
  · rintro ⟨rfl, rfl, rfl⟩
    rfl

end Heartix.Padding
