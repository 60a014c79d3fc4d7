import Heartix.Lib.Quicksort
import Mathlib.Tactic.Ring

/-!
`qsort`. The elements lie one behind the other in memory and are swapped byte by
byte. An access outside the memory has no result, and neither has a recursion that
the first number of `qsortr` does not bound.
-/

namespace Heartix.Stdlib

open Quicksort
open scoped List

/-- Where an element starts, computed as `size_t`. -/
def offset (i : ℤ) (size : ℕ) : ℕ := (i * size % 2 ^ 64).toNat

/-- The loop of `swapElement`. -/
def swapBytes : ℕ → ℕ → ℕ → List UInt8 → Option (List UInt8)
  | 0, _, _, array => some array
  | left + 1, va, vb, array =>
      match array[va]?, array[vb]? with
      | some a, some b => swapBytes left (va + 1) (vb + 1) ((array.set va b).set vb a)
      | _, _ => none

def swapElement (array : List UInt8) (a b : ℤ) (size : ℕ) : Option (List UInt8) :=
  if a = b then some array else swapBytes size (offset a size) (offset b size) array

/-- The element that the comparator reads. -/
def element (array : List UInt8) (i : ℤ) (size : ℕ) : Option (Vector UInt8 size) :=
  let bytes := (array.drop (offset i size)).take size
  if h : bytes.length = size then some ⟨⟨bytes⟩, h⟩ else none

section Calls

variable {size : ℕ} (comparator : Vector UInt8 size → Vector UInt8 size → ℤ)

/-- The loop of `qsortr` over the elements before the pivot `p`, with the number of
rounds that are left: the last `g`, and the array. -/
def partitionLoop (p : ℤ) : ℕ → ℤ → ℤ → List UInt8 → Option (ℤ × List UInt8)
  | 0, _, g, array => some (g, array)
  | left + 1, s, g, array =>
      match element array s size, element array p size with
      | some a, some b =>
          if comparator a b ≤ 0 then
            match swapElement array (g + 1) s size with
            | none => none
            | some array => partitionLoop p left (s + 1) (g + 1) array
          else partitionLoop p left (s + 1) g array
      | _, _ => none

def qsortr : ℕ → ℤ → ℤ → List UInt8 → Option (List UInt8)
  | 0, _, _, _ => none
  | fuel + 1, low, high, array =>
      if high ≤ low then some array
      else
        match partitionLoop comparator high (high - low).toNat low (low - 1) array with
        | none => none
        | some (g, array) =>
            match swapElement array (g + 1) high size with
            | none => none
            | some array =>
                match qsortr fuel low g array with
                | none => none
                | some array => qsortr fuel (g + 1) high array

/-- `qsort`; the index of the last element is an `int`. -/
def qsort (fuel : ℕ) (array : List UInt8) (elements : ℕ) : Option (List UInt8) :=
  qsortr comparator fuel 0 (((elements : ℤ) - 1).bmod (2 ^ 32)) array

end Calls

/-- The memory of an array. -/
def memory {size : ℕ} (xs : List (Vector UInt8 size)) : List UInt8 :=
  (xs.map Vector.toList).flatten

section Memory

variable {size : ℕ} {xs ys zs : List (Vector UInt8 size)}

@[simp] theorem memory_append : memory (xs ++ ys) = memory xs ++ memory ys := by
  unfold memory
  rw [List.map_append, List.flatten_append]

@[simp] theorem memory_cons (x : Vector UInt8 size) : memory (x :: xs) = x.toList ++ memory xs := by
  unfold memory
  rw [List.map_cons, List.flatten_cons]

@[simp] theorem memory_nil : memory ([] : List (Vector UInt8 size)) = [] := rfl

@[simp] theorem length_memory (xs : List (Vector UInt8 size)) :
    (memory xs).length = xs.length * size := by
  induction xs with
  | nil => rw [memory_nil, List.length_nil, List.length_nil, Nat.zero_mul]
  | cons x xs ih =>
    rw [memory_cons, List.length_append, ih, Vector.length_toList, List.length_cons,
      Nat.succ_mul, Nat.add_comm]

theorem offset_eq {n : ℕ} (hn : n * size < 2 ^ 64) : offset n size = n * size := by
  unfold offset
  have hcast : ((n : ℤ) * size) = ((n * size : ℕ) : ℤ) := (Int.natCast_mul n size).symm
  rw [hcast]
  omega

theorem element_memory {n : ℕ} (hn : xs.length = n) (hmemory : n * size < 2 ^ 64)
    (x : Vector UInt8 size) (ys : List (Vector UInt8 size)) :
    element (memory (xs ++ x :: ys)) n size = some x := by
  have hbytes : ((memory (xs ++ x :: ys)).drop (offset n size)).take size = x.toList := by
    rw [offset_eq hmemory, memory_append, memory_cons, ← hn, ← length_memory, List.drop_left,
      List.take_left' Vector.length_toList]
  unfold element
  dsimp only
  rw [dif_pos (by rw [hbytes, Vector.length_toList])]
  congr 1
  apply Vector.toList_inj.mp
  exact hbytes

/-- Two pieces of the same length change places. -/
theorem swapBytes_append {A x B y C : List UInt8} (hxy : x.length = y.length) :
    swapBytes x.length A.length (A.length + x.length + B.length) (A ++ x ++ B ++ y ++ C) =
      some (A ++ y ++ B ++ x ++ C) := by
  induction x generalizing A y B with
  | nil =>
    obtain rfl := List.length_eq_zero_iff.mp hxy.symm
    rw [List.append_nil]
    rfl
  | cons a x ih =>
    cases y with
    | nil => cases hxy
    | cons b y =>
      have hmiddle (c d : UInt8) : A ++ c :: x ++ B ++ d :: y ++ C =
          (A ++ c :: x ++ B) ++ d :: (y ++ C) := by
        rw [List.append_assoc, List.cons_append]
      have hfront (c d : UInt8) : A ++ c :: x ++ B ++ d :: y ++ C =
          A ++ c :: (x ++ B ++ d :: y ++ C) := by
        simp only [List.append_assoc, List.cons_append]
      have hlength (c : UInt8) :
          (A ++ c :: x ++ B).length = A.length + (a :: x).length + B.length := by
        rw [List.length_append, List.length_append, List.length_cons, List.length_cons]
      have hva : (A ++ a :: x ++ B ++ b :: y ++ C)[A.length]? = some a := by
        rw [hfront, List.getElem?_append_right (Nat.le_refl _), Nat.sub_self]
        rfl
      have hvb : (A ++ a :: x ++ B ++ b :: y ++ C)[A.length + (a :: x).length + B.length]? =
          some b := by
        rw [hmiddle, ← hlength a, List.getElem?_append_right (Nat.le_refl _), Nat.sub_self]
        rfl
      have hset : (A ++ a :: x ++ B ++ b :: y ++ C).set A.length b =
          A ++ b :: x ++ B ++ b :: y ++ C := by
        rw [hfront, hfront, List.set_append_right _ _ (Nat.le_refl _), Nat.sub_self]
        rfl
      have hset' : (A ++ b :: x ++ B ++ b :: y ++ C).set
          (A.length + (a :: x).length + B.length) a = A ++ b :: x ++ B ++ a :: y ++ C := by
        rw [hmiddle, hmiddle, ← hlength b, List.set_append_right _ _ (Nat.le_refl _),
          Nat.sub_self]
        rfl
      have hrest := ih (A := A ++ [b]) (B := B ++ [a]) (y := y) (Nat.succ.inj hxy)
      rw [List.length_cons, swapBytes]
      rw [← List.length_cons (a := a), hva, hvb]
      dsimp only
      rw [hset, hset']
      simpa [Nat.add_comm, Nat.add_left_comm, Nat.add_assoc] using hrest

/-- The element behind some elements moves in front of them, and these rotate. -/
theorem swapElement_memory {m n : ℕ} (xs high : List (Vector UInt8 size))
    (x : Vector UInt8 size) (ys : List (Vector UInt8 size)) (hm : xs.length = m)
    (hn : m + high.length = n) (hmemory : n * size < 2 ^ 64) :
    swapElement (memory (xs ++ high ++ x :: ys)) m n size =
      some (memory (xs ++ x :: high.rotate 1 ++ ys)) := by
  unfold swapElement
  cases high with
  | nil =>
    rw [if_pos (by exact_mod_cast hn)]
    simp
  | cons y high =>
    rw [List.length_cons] at hn
    rw [if_neg (by omega), offset_eq hmemory, offset_eq
      (Nat.lt_of_le_of_lt (Nat.mul_le_mul_right size (by omega)) hmemory)]
    have hswap := swapBytes_append (A := memory xs) (x := y.toList) (B := memory high)
      (y := x.toList) (C := memory ys) (by rw [Vector.length_toList, Vector.length_toList])
    have hplace : m * size + size + high.length * size = n * size := by
      rw [← hn, Nat.add_mul, Nat.succ_mul, Nat.add_assoc, Nat.add_comm size]
    rw [Vector.length_toList, length_memory, length_memory, hm, hplace] at hswap
    have hbefore : memory (xs ++ y :: high ++ x :: ys) =
        memory xs ++ y.toList ++ memory high ++ x.toList ++ memory ys := by
      simp only [memory_append, memory_cons, List.append_assoc]
    have hafter : memory (xs ++ x :: (y :: high).rotate 1 ++ ys) =
        memory xs ++ x.toList ++ memory high ++ y.toList ++ memory ys := by
      rw [List.rotate_cons_succ, List.rotate_zero]
      simp only [memory_append, memory_cons, memory_nil, List.append_assoc, List.nil_append]
    rw [hbefore, hafter]
    exact hswap

end Memory

section Refinement

variable {size : ℕ} (comparator : Vector UInt8 size → Vector UInt8 size → ℤ)

/-- What the comparator tells of two elements. -/
def NotAbove (x y : Vector UInt8 size) : Prop := comparator x y ≤ 0

instance : DecidableRel (NotAbove comparator) := fun x y =>
  inferInstanceAs (Decidable (comparator x y ≤ 0))

/-- The loop partitions the elements from `low` on. -/
theorem partitionLoop_memory (before low high rest : List (Vector UInt8 size))
    (pivot : Vector UInt8 size) (after : List (Vector UInt8 size)) {s p g : ℕ}
    (hs : s = (before ++ low ++ high).length)
    (hp : p = s + rest.length) (hg : g = (before ++ low).length)
    (hmemory : (p + 1) * size < 2 ^ 64) :
    partitionLoop comparator p rest.length s (g - 1)
        (memory (before ++ low ++ high ++ rest ++ pivot :: after)) =
      some (((before ++ (partition (NotAbove comparator) pivot low high rest).1).length : ℤ) - 1,
        memory (before ++ (partition (NotAbove comparator) pivot low high rest).1 ++
          (partition (NotAbove comparator) pivot low high rest).2 ++ pivot :: after)) := by
  induction rest generalizing low high s g with
  | nil =>
    subst hg
    rw [List.append_nil]
    rfl
  | cons x rest ih =>
    rw [List.length_cons] at hp
    have hbound : s * size < 2 ^ 64 :=
      Nat.lt_of_le_of_lt (Nat.mul_le_mul_right size (by omega)) hmemory
    have hbound' : p * size < 2 ^ 64 :=
      Nat.lt_of_le_of_lt (Nat.mul_le_mul_right size (by omega)) hmemory
    have hx : element (memory (before ++ low ++ high ++ x :: rest ++ pivot :: after)) s size =
        some x := by
      rw [List.append_assoc _ (x :: rest)]
      exact element_memory hs.symm hbound x _
    have hpivot : element (memory (before ++ low ++ high ++ x :: rest ++ pivot :: after)) p size =
        some pivot := by
      refine element_memory ?_ hbound' pivot _
      rw [List.length_append, ← hs, List.length_cons, hp]
    rw [List.length_cons, partitionLoop, hx, hpivot]
    dsimp only
    by_cases hle : comparator x pivot ≤ 0
    · have hpart : partition (NotAbove comparator) pivot low high (x :: rest) =
          partition (NotAbove comparator) pivot (low ++ [x]) (high.rotate 1) rest := if_pos hle
      have hlen : s = g + high.length := by
        rw [hs, hg, List.length_append]
      have hswap := swapElement_memory (before ++ low) high x (rest ++ pivot :: after)
        hg.symm hlen.symm hbound
      rw [if_pos hle, Int.sub_add_cancel,
        show before ++ low ++ high ++ x :: rest ++ pivot :: after =
        before ++ low ++ high ++ x :: (rest ++ pivot :: after) by
          rw [List.append_assoc _ (x :: rest)]; rfl, hswap, hpart]
      dsimp only
      have hrest := ih (low ++ [x]) (high.rotate 1) (s := s + 1) (g := g + 1)
        (by simp only [List.length_append, List.length_rotate, List.length_singleton, hs]; omega)
        (by omega) (by simp only [List.length_append, List.length_singleton, hg]; omega)
      rw [Int.natCast_add g 1, Int.natCast_add s 1, Int.natCast_one, Int.add_sub_cancel] at hrest
      rw [← hrest]
      simp only [List.append_assoc, List.cons_append, List.nil_append]
    · have hpart : partition (NotAbove comparator) pivot low high (x :: rest) =
          partition (NotAbove comparator) pivot low (high ++ [x]) rest := if_neg hle
      rw [if_neg hle, hpart]
      have hrest := ih low (high ++ [x]) (s := s + 1) (g := g)
        (by simp only [List.length_append, List.length_singleton, hs]; omega)
        (by omega) hg
      rw [Int.natCast_add s 1, Int.natCast_one] at hrest
      rw [← hrest]
      simp only [List.append_assoc, List.cons_append, List.nil_append]

/-- The recursion sorts the elements from `low` to `high` and leaves the others. -/
theorem qsortr_memory (fuel : ℕ) (before mid after : List (Vector UInt8 size)) {l h : ℤ}
    (hlow : l = before.length) (hhigh : h = before.length + mid.length - 1)
    (hmemory : (before.length + mid.length) * size < 2 ^ 64) :
    qsortr comparator fuel l h (memory (before ++ mid ++ after)) =
      (sort (NotAbove comparator) fuel mid).map fun sorted =>
        memory (before ++ sorted ++ after) := by
  induction fuel generalizing before mid after l h with
  | zero => rfl
  | succ fuel ih =>
    rw [qsortr]
    rcases List.eq_nil_or_concat' mid with rfl | ⟨init, pivot, rfl⟩
    · rw [if_pos (by rw [List.length_nil] at hhigh; omega)]
      rfl
    · rw [List.length_append, List.length_singleton] at hhigh hmemory
      by_cases hinit : init = []
      · subst hinit
        rw [if_pos (by rw [List.length_nil] at hhigh; omega)]
        rfl
      · have hpos := List.length_pos_of_ne_nil hinit
        have hlength := length_partition (NotAbove comparator) pivot init
        have hrounds : (h - l).toNat = init.length := by
          omega
        have hpass := partitionLoop_memory comparator before [] [] init pivot after
          (s := before.length) (p := before.length + init.length) (g := before.length)
          (by rw [List.append_nil, List.append_nil]) rfl (by rw [List.append_nil])
          (by rwa [Nat.add_assoc])
        rw [List.append_nil, List.append_nil] at hpass
        have harray : before ++ (init ++ [pivot]) ++ after = before ++ init ++ pivot :: after := by
          simp only [List.append_assoc, List.cons_append, List.nil_append]
        rw [if_neg (by omega), hrounds, harray, hlow,
          show h = ((before.length + init.length : ℕ) : ℤ)
          by omega, hpass]
        rw [sort_append fuel hinit]
        generalize partition (NotAbove comparator) pivot [] [] init = parts at hlength ⊢
        obtain ⟨low, high⟩ := parts
        dsimp only at hlength ⊢
        have hplace : ((before ++ low).length : ℤ) - 1 + 1 = ((before ++ low).length : ℕ) := by
          omega
        have hswap := swapElement_memory (before ++ low) high pivot after
          (n := before.length + init.length) rfl (by rw [List.length_append]; omega)
          (Nat.lt_of_le_of_lt (Nat.mul_le_mul_right size (by omega)) hmemory)
        have hright : (pivot :: high.rotate 1).length = high.length + 1 := by
          rw [List.length_cons, List.length_rotate]
        have hleft := ih before low (pivot :: high.rotate 1 ++ after)
          (l := before.length) (h := (before ++ low).length - 1) rfl
          (by rw [List.length_append]; omega)
          (Nat.lt_of_le_of_lt (Nat.mul_le_mul_right size (by omega)) hmemory)
        rw [hplace, hswap]
        dsimp only
        rw [List.append_assoc (before ++ low), hleft]
        rcases hsorted : sort (NotAbove comparator) fuel low with _ | left
        · rfl
        · have hsame : left.length = low.length := (sort_perm hsorted).length_eq
          have hback := ih (before ++ left) (pivot :: high.rotate 1) after
            (l := (before ++ low).length) (h := (before.length + init.length : ℕ))
            (by rw [List.length_append, List.length_append, hsame])
            (by rw [List.length_append, hright]; omega)
            (by
              rw [List.length_append, hright]
              exact Nat.lt_of_le_of_lt (Nat.mul_le_mul_right size (by omega)) hmemory)
          rw [Option.map_some]
          dsimp only
          rw [← List.append_assoc, hback]
          rcases sort (NotAbove comparator) fuel (pivot :: high.rotate 1) with _ | right
          · rfl
          · simp only [Option.map_some, List.append_assoc]

end Refinement

/-- `qsort` sorts every array of elements whose number an `int` can hold, moving
whole elements, and returns. -/
theorem qsort_sorts {size : ℕ} (comparator : Vector UInt8 size → Vector UInt8 size → ℤ)
    (htotal : ∀ x y, comparator x y ≤ 0 ∨ comparator y x ≤ 0)
    (htrans : ∀ x y z, comparator x y ≤ 0 → comparator y z ≤ 0 → comparator x z ≤ 0)
    (xs : List (Vector UInt8 size)) (helements : xs.length ≤ 2 ^ 31 - 1)
    (hmemory : (memory xs).length < 2 ^ 64) :
    ∃ ys : List (Vector UInt8 size), ys ~ xs ∧ ys.Pairwise (comparator · · ≤ 0) ∧
      ∀ fuel, 2 * xs.length < fuel →
        qsort comparator fuel (memory xs) xs.length = some (memory ys) := by
  obtain ⟨ys, hys⟩ : ∃ ys, sort (NotAbove comparator) (2 * xs.length + 1) xs = some ys :=
    sort_returns htotal (Or.inl (Nat.lt_succ_self _))
  refine ⟨ys, sort_perm hys, sort_sorted htotal htrans hys, fun fuel hfuel => ?_⟩
  have hlast : ((xs.length : ℤ) - 1).bmod (2 ^ 32) = xs.length - 1 :=
    Int.bmod_eq_of_le (by omega) (by omega)
  rw [length_memory] at hmemory
  have hsort := qsortr_memory comparator fuel [] xs []
    (l := 0) (h := xs.length - 1) rfl (by rw [List.length_nil]; omega)
    (by rwa [List.length_nil, Nat.zero_add])
  rw [List.nil_append, List.append_nil, sort_mono hfuel hys] at hsort
  unfold qsort
  rw [hlast, hsort, Option.map_some, List.nil_append, List.append_nil]

/-- Elements of two bytes, compared by the first one. -/
def firstByte (x y : Vector UInt8 2) : ℤ := (x[0].toNat : ℤ) - y[0].toNat

/-- The last element is the smallest, as the minimum of what is left always is. -/
theorem qsort_sorts_descending :
    ∃ ys : List (Vector UInt8 2), ys ~ [#v[3, 1], #v[2, 1], #v[2, 0], #v[1, 1]] ∧
      ys.Pairwise (firstByte · · ≤ 0) ∧
      ∀ fuel, 2 * 4 < fuel → qsort firstByte fuel [3, 1, 2, 1, 2, 0, 1, 1] 4 = some (memory ys) :=
  qsort_sorts firstByte (fun x y => by unfold firstByte; omega)
    (fun x y z hxy hyz => by unfold firstByte at *; omega)
    [#v[3, 1], #v[2, 1], #v[2, 0], #v[1, 1]] (by decide) (by decide)

end Heartix.Stdlib
