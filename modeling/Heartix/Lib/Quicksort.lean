import Mathlib.Data.List.Perm.Basic
import Mathlib.Data.List.Rotate

/-!
Quicksort with the last element as pivot, where the pivot is sorted once more at
the front of the right part. The parts of a list that gets longer or shorter at
the end by swaps are rotated.
-/

namespace Heartix.Quicksort

open List (Perm)
open scoped List

variable {α : Type*} (le : α → α → Prop) [DecidableRel le]

/-- The elements not above the pivot, and those above it. Swapping the first one
of these with the next element rotates them. -/
def partition (pivot : α) : List α → List α → List α → List α × List α
  | low, high, [] => (low, high)
  | low, high, x :: rest =>
      if le x pivot then partition pivot (low ++ [x]) (high.rotate 1) rest
      else partition pivot low (high ++ [x]) rest

/-- The first number bounds the depth of the recursion. -/
def sort : ℕ → List α → Option (List α)
  | 0, _ => none
  | fuel + 1, xs =>
      match xs.getLast? with
      | none => some xs
      | some pivot =>
          if xs.dropLast = [] then some xs
          else
            match sort fuel (partition le pivot [] [] xs.dropLast).1,
              sort fuel (pivot :: (partition le pivot [] [] xs.dropLast).2.rotate 1) with
            | some left, some right => some (left ++ right)
            | _, _ => none

variable {le} {pivot : α} {low high rest : List α}

variable (le) in
theorem partition_perm (pivot : α) (low high rest : List α) :
    ((partition le pivot low high rest).1 ++ (partition le pivot low high rest).2).Perm
      (low ++ high ++ rest) := by
  induction rest generalizing low high with
  | nil =>
    rw [List.append_nil]
    exact List.Perm.refl _
  | cons x rest ih =>
    unfold partition
    split
    · have hrotate : (low ++ [x] ++ high.rotate 1).Perm (low ++ high ++ [x]) := by
        rw [List.append_assoc, List.append_assoc]
        refine List.Perm.append_left low ?_
        exact (List.perm_append_comm).trans (List.Perm.append_right [x] (List.rotate_perm high 1))
      rw [List.append_cons (low ++ high)]
      exact (ih _ _).trans (List.Perm.append_right rest hrotate)
    · rw [List.append_cons (low ++ high), List.append_assoc low]
      exact ih _ _

theorem partition_low (hlow : ∀ x ∈ low, le x pivot) :
    ∀ x ∈ (partition le pivot low high rest).1, le x pivot := by
  induction rest generalizing low high with
  | nil => exact hlow
  | cons y rest ih =>
    unfold partition
    split
    · refine ih fun x hx => ?_
      rcases List.mem_append.mp hx with hx | hx
      · exact hlow x hx
      · rw [List.mem_singleton.mp hx]
        assumption
    · exact ih hlow

theorem partition_high (hhigh : ∀ x ∈ high, ¬ le x pivot) :
    ∀ x ∈ (partition le pivot low high rest).2, ¬ le x pivot := by
  induction rest generalizing low high with
  | nil => exact hhigh
  | cons y rest ih =>
    unfold partition
    split
    · exact ih fun x hx => hhigh x (List.mem_rotate.mp hx)
    · refine ih fun x hx => ?_
      rcases List.mem_append.mp hx with hx | hx
      · exact hhigh x hx
      · rw [List.mem_singleton.mp hx]
        assumption

theorem sort_append (fuel : ℕ) {init : List α} (hinit : init ≠ []) (pivot : α) :
    sort le (fuel + 1) (init ++ [pivot]) =
      match sort le fuel (partition le pivot [] [] init).1,
        sort le fuel (pivot :: (partition le pivot [] [] init).2.rotate 1) with
      | some left, some right => some (left ++ right)
      | _, _ => none := by
  rw [sort, List.getLast?_append_of_ne_nil _ (List.cons_ne_nil _ _), List.dropLast_concat]
  dsimp only [List.getLast?_singleton]
  rw [if_neg hinit]

section Pass

variable {init : List α}

variable (le) in
theorem length_partition (pivot : α) (init : List α) :
    (partition le pivot [] [] init).1.length + (partition le pivot [] [] init).2.length =
      init.length := by
  have hperm : _ ~ init := partition_perm le pivot [] [] init
  rw [← List.length_append]
  exact hperm.length_eq

variable (le) in
theorem mem_partition (pivot : α) {x : α} (hx : x ∈ init) :
    x ∈ (partition le pivot [] [] init).1 ∨ x ∈ (partition le pivot [] [] init).2 := by
  have hperm : _ ~ init := partition_perm le pivot [] [] init
  exact List.mem_append.mp (hperm.mem_iff.mpr hx)

theorem partition_le : ∀ x ∈ (partition le pivot [] [] init).1, le x pivot :=
  partition_low fun _ hx => absurd hx List.not_mem_nil

variable (le) in
theorem partition_above (pivot : α) (init : List α) :
    ∀ x ∈ (partition le pivot [] [] init).2, ¬ le x pivot :=
  partition_high fun _ hx => absurd hx List.not_mem_nil

/-- Nothing is below the pivot: the right part ends with its last element. -/
theorem ends_of_low_nil (htotal : ∀ x y, le x y ∨ le y x)
    (hlow : (partition le pivot [] [] init).1 = []) (hinit : init ≠ []) :
    ∃ x mid y, pivot :: (partition le pivot [] [] init).2.rotate 1 = x :: mid ++ [y] ∧ le x y := by
  have hlength := length_partition le pivot init
  have habove := partition_above le pivot init
  have hpos := List.length_pos_of_ne_nil hinit
  rw [hlow, List.length_nil] at hlength
  generalize (partition le pivot [] [] init).2 = high at hlength habove
  cases high with
  | nil =>
    rw [List.length_nil] at hlength
    omega
  | cons y mid =>
    refine ⟨pivot, mid, y, ?_, (htotal pivot y).resolve_right (habove y List.mem_cons_self)⟩
    rw [List.rotate_cons_succ, List.rotate_zero, List.cons_append]

end Pass

theorem sort_perm {fuel : ℕ} {xs ys : List α} (h : sort le fuel xs = some ys) : ys ~ xs := by
  induction fuel generalizing xs ys with
  | zero => cases h
  | succ fuel ih =>
    rcases List.eq_nil_or_concat' xs with rfl | ⟨init, pivot, rfl⟩
    · obtain rfl := Option.some.inj h
      exact Perm.refl _
    · by_cases hinit : init = []
      · subst hinit
        obtain rfl := Option.some.inj h
        exact Perm.refl _
      · rw [sort_append fuel hinit] at h
        split at h
        · rename_i left right hleft hright
          obtain rfl := Option.some.inj h
          have hpart : _ ~ init := partition_perm le pivot [] [] init
          calc left ++ right
              ~ (partition le pivot [] [] init).1 ++
                  pivot :: (partition le pivot [] [] init).2.rotate 1 :=
                (ih hleft).append (ih hright)
            _ ~ (partition le pivot [] [] init).1 ++
                  pivot :: (partition le pivot [] [] init).2 :=
                Perm.append_left _ (Perm.cons pivot (List.rotate_perm _ 1))
            _ ~ pivot :: ((partition le pivot [] [] init).1 ++
                  (partition le pivot [] [] init).2) := List.perm_middle
            _ ~ pivot :: init := Perm.cons pivot hpart
            _ ~ init ++ [pivot] := (List.perm_append_singleton pivot init).symm
        · cases h

/-- The result is sorted if the relation is a total preorder. -/
theorem sort_sorted (htotal : ∀ x y, le x y ∨ le y x)
    (htrans : ∀ x y z, le x y → le y z → le x z) {fuel : ℕ} {xs ys : List α}
    (h : sort le fuel xs = some ys) : ys.Pairwise le := by
  induction fuel generalizing xs ys with
  | zero => cases h
  | succ fuel ih =>
    rcases List.eq_nil_or_concat' xs with rfl | ⟨init, pivot, rfl⟩
    · obtain rfl := Option.some.inj h
      exact List.Pairwise.nil
    · by_cases hinit : init = []
      · subst hinit
        obtain rfl := Option.some.inj h
        exact List.pairwise_singleton le pivot
      · rw [sort_append fuel hinit] at h
        split at h
        · rename_i left right hleft hright
          obtain rfl := Option.some.inj h
          refine List.pairwise_append.mpr ⟨ih hleft, ih hright, fun x hx y hy => ?_⟩
          have hxp : le x pivot := partition_le x ((sort_perm hleft).mem_iff.mp hx)
          rcases List.mem_cons.mp ((sort_perm hright).mem_iff.mp hy) with rfl | hy
          · exact hxp
          · have hyp := partition_above le pivot init y (List.mem_rotate.mp hy)
            exact htrans x pivot y hxp ((htotal pivot y).resolve_right hyp)
        · cases h

/-- Where the pivot is below all other elements the right part is no shorter, but
then its first element is not above its last one. -/
theorem sort_returns (htotal : ∀ x y, le x y ∨ le y x) {fuel : ℕ} {xs : List α}
    (hfuel : 2 * xs.length < fuel ∨
      2 * xs.length ≤ fuel ∧ ∃ x mid y, xs = x :: mid ++ [y] ∧ le x y) :
    ∃ ys, sort le fuel xs = some ys := by
  induction fuel generalizing xs with
  | zero =>
    rcases hfuel with hless | ⟨hle, x, mid, y, rfl, -⟩
    · exact absurd hless (Nat.not_lt_zero _)
    · rw [List.length_append, List.length_singleton] at hle
      omega
  | succ fuel ih =>
    rcases List.eq_nil_or_concat' xs with rfl | ⟨init, pivot, rfl⟩
    · exact ⟨[], rfl⟩
    · by_cases hinit : init = []
      · subst hinit
        exact ⟨[pivot], rfl⟩
      · have hpos := List.length_pos_of_ne_nil hinit
        have hlength := length_partition le pivot init
        have hxs : (init ++ [pivot]).length = init.length + 1 := by
          rw [List.length_append, List.length_singleton]
        have hback : (pivot :: (partition le pivot [] [] init).2.rotate 1).length =
            (partition le pivot [] [] init).2.length + 1 := by
          rw [List.length_cons, List.length_rotate]
        have hleft : ∃ left, sort le fuel (partition le pivot [] [] init).1 = some left :=
          ih (Or.inl (by omega))
        have hright : ∃ right, sort le fuel
            (pivot :: (partition le pivot [] [] init).2.rotate 1) = some right := by
          apply ih
          by_cases hlow : (partition le pivot [] [] init).1 = []
          · right
            rw [hlow, List.length_nil] at hlength
            refine ⟨?_, ends_of_low_nil htotal hlow hinit⟩
            rcases hfuel with hless | ⟨-, x, mid, y, heq, hxy⟩
            · omega
            · obtain ⟨rfl, hpivot⟩ := List.append_inj' heq rfl
              obtain rfl := (List.cons.inj hpivot).1
              have hx := mem_partition le pivot (List.mem_cons_self : x ∈ x :: mid)
              rw [hlow] at hx
              exact absurd hxy (partition_above le pivot _ x (hx.resolve_left List.not_mem_nil))
          · left
            have hlow := List.length_pos_of_ne_nil hlow
            omega
        obtain ⟨left, hleft⟩ := hleft
        obtain ⟨right, hright⟩ := hright
        refine ⟨left ++ right, ?_⟩
        rw [sort_append fuel hinit, hleft, hright]

/-- A deeper recursion finds the same. -/
theorem sort_mono {fuel more : ℕ} (hmore : fuel ≤ more) {xs ys : List α}
    (h : sort le fuel xs = some ys) : sort le more xs = some ys := by
  induction fuel generalizing more xs ys with
  | zero => cases h
  | succ fuel ih =>
    obtain ⟨more, rfl⟩ : ∃ n, more = n + 1 := ⟨more - 1, by omega⟩
    rcases List.eq_nil_or_concat' xs with rfl | ⟨init, pivot, rfl⟩
    · exact h
    · by_cases hinit : init = []
      · subst hinit
        exact h
      · rw [sort_append fuel hinit] at h
        split at h
        · rename_i left right hleft hright
          have hle := Nat.le_of_succ_le_succ hmore
          rw [sort_append more hinit, ih hle hleft, ih hle hright]
          exact h
        · cases h

end Heartix.Quicksort
