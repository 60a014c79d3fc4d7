import Mathlib.Data.List.Basic

/-!
Lines of fields. A separator ends a field, and what follows the last separator
is a field if it is not empty. Joining fields with the separator and reading the
line back therefore loses an empty field at the end and nothing else.
-/

namespace Heartix.Fields

variable {α : Type*}

/-- The list without an empty last element. -/
def trimmed : List (List α) → List (List α)
  | [] => []
  | [a] => if a.isEmpty then [] else [a]
  | a :: b :: l => a :: trimmed (b :: l)

theorem trimmed_cons (a : List α) {l : List (List α)} (h : l ≠ []) :
    trimmed (a :: l) = a :: trimmed l := by
  cases l with
  | nil => exact absurd rfl h
  | cons b l => rfl

theorem trimmed_of_last_empty {l : List (List α)} (h : l.getLast? = some []) :
    trimmed l = l.dropLast := by
  induction l with
  | nil => rfl
  | cons a l ih =>
    cases l with
    | nil =>
      obtain rfl : a = [] := by simpa using h
      rfl
    | cons b l =>
      rw [trimmed_cons a (List.cons_ne_nil b l), ih (by simpa using h)]
      rfl

theorem trimmed_of_last_ne {l : List (List α)} (h : l.getLast? ≠ some []) :
    trimmed l = l := by
  induction l with
  | nil => rfl
  | cons a l ih =>
    cases l with
    | nil =>
      have ha : a ≠ [] := by simpa using h
      simp [trimmed, ha]
    | cons b l => rw [trimmed_cons a (List.cons_ne_nil b l), ih (by simpa using h)]

/-- The number of elements tells whether the last one was empty. -/
theorem length_trimmed_eq_iff {l : List (List α)} :
    (trimmed l).length = l.length ↔ l.getLast? ≠ some [] := by
  constructor
  · intro hlen hlast
    have hne : l ≠ [] := by
      rintro rfl
      cases hlast
    have hpos := List.length_pos_of_ne_nil hne
    rw [trimmed_of_last_empty hlast, List.length_dropLast] at hlen
    omega
  · intro hlast
    rw [trimmed_of_last_ne hlast]

section

variable [DecidableEq α]

/-- The fields of a line. -/
def fields (sep : α) (line : List α) : List (List α) := trimmed (line.splitOn sep)

@[simp] theorem fields_nil (sep : α) : fields sep [] = [] := by
  simp [fields, trimmed]

theorem fields_of_notMem {sep : α} {a : List α} (ha : sep ∉ a) (hne : a ≠ []) :
    fields sep a = [a] := by
  rw [fields, List.splitOn_eq_singleton ha]
  simp [trimmed, hne]

theorem fields_append_cons {sep : α} {a : List α} (ha : sep ∉ a) (line : List α) :
    fields sep (a ++ sep :: line) = a :: fields sep line := by
  have hne : line.splitOn sep ≠ [] := by simp
  rw [fields, List.splitOn_append_cons_self_of_not_mem ha, trimmed_cons a hne, fields]

/-- A line is empty, one field without a separator, or a field that a separator
ends and a line behind it. -/
@[elab_as_elim]
theorem line_induction (sep : α) {motive : List α → Prop} (nil : motive [])
    (last : ∀ unit, sep ∉ unit → unit ≠ [] → motive unit)
    (cons : ∀ unit line, sep ∉ unit → motive line → motive (unit ++ sep :: line))
    (line : List α) : motive line := by
  induction hn : line.length using Nat.strongRecOn generalizing line with
  | ind n ih =>
    by_cases hsep : sep ∈ line
    · obtain ⟨unit, rest, rfl, hunit⟩ := List.eq_append_cons_of_mem hsep
      refine cons unit rest hunit (ih rest.length ?_ rest rfl)
      simp only [List.length_append, List.length_cons] at hn
      omega
    · by_cases hnil : line = []
      · exact hnil ▸ nil
      · exact last line hsep hnil

/-- Reading back a line joined from fields. -/
theorem fields_intercalate {sep : α} {l : List (List α)} (h : ∀ a ∈ l, sep ∉ a) :
    fields sep ([sep].intercalate l) = trimmed l := by
  by_cases hne : l = []
  · simp [hne, trimmed]
  · rw [fields, List.splitOn_intercalate sep h hne]

end

end Heartix.Fields
