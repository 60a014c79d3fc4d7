import Mathlib.Data.Int.Basic
import Mathlib.Data.List.Basic

/-!
Memory that is written in steps, each of which may leave it. A step paints a region
if it writes what a given picture has there and nothing elsewhere. Steps that paint
parts of one picture paint their union, whatever their order and overlaps.
-/

namespace Heartix.Painting

variable {α ι : Type*}

/-- The elements from an offset on are replaced, undefined outside the first `size`
ones. -/
def store (size : ℕ) (offset : ℤ) (data : List α) (memory : ℕ → α) : Option (ℕ → α) :=
  if 0 ≤ offset ∧ offset + data.length ≤ size then
    some fun i => if offset ≤ i then data[(i - offset).toNat]?.getD (memory i) else memory i
  else none

/-- A step is defined, writes what the picture has in the region, and keeps the rest. -/
def Paints (picture : ℕ → α) (region : ℕ → Prop) (step : (ℕ → α) → Option (ℕ → α)) : Prop :=
  ∀ memory, ∃ memory', step memory = some memory' ∧
    (∀ i, region i → memory' i = picture i) ∧ ∀ i, ¬ region i → memory' i = memory i

variable {picture : ℕ → α} {region region' : ℕ → Prop} {step : (ℕ → α) → Option (ℕ → α)}

theorem Paints.congr (h : Paints picture region step) (hregion : ∀ i, region i ↔ region' i) :
    Paints picture region' step := by
  intro memory
  obtain ⟨memory', hstep, hin, hout⟩ := h memory
  exact ⟨memory', hstep, fun i hi => hin i ((hregion i).mpr hi),
    fun i hi => hout i (mt (hregion i).mp hi)⟩

theorem paints_store {size : ℕ} {offset : ℕ} {data : List α}
    (hsize : offset + data.length ≤ size)
    (hdata : ∀ j (hj : j < data.length), data[j] = picture (offset + j)) :
    Paints picture (fun i => offset ≤ i ∧ i < offset + data.length)
      (store size offset data) := by
  intro memory
  refine ⟨_, if_pos ⟨by omega, by omega⟩, fun i hi => ?_, fun i hi => ?_⟩
  · have hj : ((i : ℤ) - offset).toNat = i - offset := by omega
    have hlt : i - offset < data.length := by omega
    rw [if_pos (Int.ofNat_le.mpr hi.1), hj, List.getElem?_eq_getElem hlt, Option.getD_some,
      hdata, Nat.add_sub_cancel' hi.1]
  · by_cases hle : (offset : ℤ) ≤ i
    · rw [if_pos hle, List.getElem?_eq_none (by omega), Option.getD_none]
    · exact if_neg hle

/-- Steps that paint one after another paint all their regions. -/
theorem paints_foldlM {steps : ι → (ℕ → α) → Option (ℕ → α)} {regions : ι → ℕ → Prop}
    {indices : List ι} (h : ∀ k ∈ indices, Paints picture (regions k) (steps k)) :
    Paints picture (fun i => ∃ k ∈ indices, regions k i)
      fun memory => indices.foldlM (fun memory k => steps k memory) memory := by
  intro memory
  induction indices generalizing memory with
  | nil =>
    refine ⟨memory, rfl, fun i hi => ?_, fun i _ => rfl⟩
    obtain ⟨k, hk, _⟩ := hi
    cases hk
  | cons k indices ih =>
    obtain ⟨next, hstep, hin, hout⟩ := h k List.mem_cons_self memory
    obtain ⟨last, hrest, hin', hout'⟩ :=
      ih (fun l hl => h l (List.mem_cons_of_mem k hl)) next
    refine ⟨last, ?_, fun i hi => ?_, fun i hi => ?_⟩
    · dsimp only
      rw [List.foldlM_cons, hstep]
      exact hrest
    · by_cases hlater : ∃ l ∈ indices, regions l i
      · exact hin' i hlater
      · rw [hout' i hlater]
        obtain ⟨l, hl, hregion⟩ := hi
        rcases List.mem_cons.mp hl with rfl | hl
        · exact hin i hregion
        · exact absurd ⟨l, hl, hregion⟩ hlater
    · rw [hout' i fun ⟨l, hl, hregion⟩ => hi ⟨l, List.mem_cons_of_mem k hl, hregion⟩,
        hout i fun hregion => hi ⟨k, List.mem_cons_self, hregion⟩]

end Heartix.Painting
