import Mathlib.Data.List.DropRight

/-!
A list cut at the last place of a separator: what is before it, and the part
behind it, which is the whole list if there is none.
-/

namespace Heartix.Separator

variable {α : Type*} [DecidableEq α]

/-- The front up to the last separator is empty, or it ends in that separator. -/
theorem front_cases (sep : α) (t : List α) :
    t.rdropWhile (· ≠ sep) = [] ∧ sep ∉ t ∧ t.rtakeWhile (· ≠ sep) = t ∨
      ∃ h, t.rdropWhile (· ≠ sep) = h ++ [sep] ∧ t = h ++ sep :: t.rtakeWhile (· ≠ sep) := by
  have hwhole := List.rdropWhile_append_rtakeWhile (p := (· ≠ sep)) (l := t)
  by_cases hnil : t.rdropWhile (· ≠ sep) = []
  · rw [hnil, List.nil_append] at hwhole
    refine .inl ⟨hnil, fun hmem => ?_, hwhole⟩
    have hall := List.rdropWhile_eq_nil_iff.mp hnil sep hmem
    simp at hall
  · have hlast := List.rdropWhile_last_not _ _ hnil
    have hsplit := List.dropLast_append_getLast hnil
    generalize hg : (t.rdropWhile (· ≠ sep)).getLast hnil = g at hlast hsplit
    obtain rfl : g = sep := by simpa using hlast
    refine .inr ⟨_, hsplit.symm, ?_⟩
    conv_lhs => rw [← hwhole, ← hsplit, List.append_assoc, List.singleton_append]

theorem separator_notMem_rest (sep : α) (t : List α) : sep ∉ t.rtakeWhile (· ≠ sep) := by
  intro hmem
  have h := List.mem_rtakeWhile_imp hmem
  simp at h

end Heartix.Separator
