import Mathlib.Data.List.GetD
import Heartix.Strings.Memmove

/-!
`memcpy` within one object, with its loops over words, halfwords and bytes. The
result that a copy should have is the one in which all bytes are read before the
first is stored. `memmove` has it always, `memcpy` wherever the destination does
not lie behind the source.
-/

namespace Heartix.Strings

open Overwrite

/-- `*(T*) targetPtr = *(const T*) sourcePtr` for a type of `size` bytes, which are
all loaded before they are stored. -/
def assign (size dest src : ℕ) (memory : List UInt8) : Option (List UInt8) :=
  if src + size ≤ memory.length ∧ dest + size ≤ memory.length then
    some (overwrite memory dest ((memory.drop src).take size))
  else none

/-- `while(num--)`. -/
def memcpyBytes (dest src : ℕ) : (num : ℕ) → List UInt8 → Option (List UInt8)
  | 0, memory => some memory
  | num + 1, memory =>
      (assign 1 dest src memory).bind (memcpyBytes (dest + 1) (src + 1) num)

/-- `while(num >= 2)`, and the loop after it. -/
def memcpyHalfwords (dest src : ℕ) : (num : ℕ) → List UInt8 → Option (List UInt8)
  | num + 2, memory =>
      (assign 2 dest src memory).bind (memcpyHalfwords (dest + 2) (src + 2) num)
  | num, memory => memcpyBytes dest src num memory

/-- `while(num >= 4)`, and the loops after it. -/
def memcpy (dest src : ℕ) : (num : ℕ) → List UInt8 → Option (List UInt8)
  | num + 4, memory => (assign 4 dest src memory).bind (memcpy (dest + 4) (src + 4) num)
  | num, memory => memcpyHalfwords dest src num memory

/-- The memory after a copy in which every byte is read first: in the destination,
what was in the source before. There is no result if an access leaves the
object. -/
def simultaneous (dest src num : ℕ) (memory : List UInt8) : Option (List UInt8) :=
  if num = 0 ∨ dest + num ≤ memory.length ∧ src + num ≤ memory.length then
    some (memory.mapIdx fun i b =>
      if dest ≤ i ∧ i < dest + num then memory.getD (src + (i - dest)) b else b)
  else none

section Copying

variable {dest src num size : ℕ} {memory : List UInt8}

theorem simultaneous_eq (hdest : dest + num ≤ memory.length) (hsrc : src + num ≤ memory.length) :
    simultaneous dest src num memory =
      some (overwrite memory dest ((memory.drop src).take num)) := by
  have hlen : ((memory.drop src).take num).length = num := by
    rw [List.length_take, List.length_drop]
    omega
  unfold simultaneous
  rw [if_pos (.inr ⟨hdest, hsrc⟩)]
  congr 1
  refine List.ext_getElem? fun i => ?_
  rw [List.getElem?_mapIdx, getElem?_overwrite (by omega), hlen]
  by_cases hi : i < memory.length
  · rw [List.getElem?_eq_getElem hi, Option.map_some]
    by_cases hin : dest ≤ i ∧ i < dest + num
    · rw [if_pos hin, if_pos hin, List.getElem?_take_of_lt (by omega), List.getElem?_drop,
        List.getD_eq_getElem _ _ (by omega), List.getElem?_eq_getElem (by omega)]
    · rw [if_neg hin, if_neg hin]
  · rw [List.getElem?_eq_none (by omega), Option.map_none, if_neg (by omega)]

@[simp] theorem simultaneous_zero : simultaneous dest src 0 memory = some memory := by
  unfold simultaneous
  rw [if_pos (.inl rfl)]
  congr 1
  refine List.ext_getElem? fun i => ?_
  rw [List.getElem?_mapIdx]
  cases memory[i]? with
  | none => rfl
  | some b =>
    rw [Option.map_some, if_neg (by omega)]

theorem simultaneous_eq_none (hnum : num ≠ 0)
    (hout : memory.length < dest + num ∨ memory.length < src + num) :
    simultaneous dest src num memory = none := by
  unfold simultaneous
  exact if_neg (by omega)

/-- A word copied first does not change what is copied behind it, if the
destination does not lie behind the source. -/
theorem simultaneous_add (hle : dest ≤ src) (hsize : size ≠ 0) (memory : List UInt8) :
    simultaneous dest src (num + size) memory =
      (assign size dest src memory).bind (simultaneous (dest + size) (src + size) num) := by
  unfold assign
  by_cases hword : src + size ≤ memory.length ∧ dest + size ≤ memory.length
  · obtain ⟨hsrc, hdest⟩ := hword
    have hlen : ((memory.drop src).take size).length = size := by
      rw [List.length_take, List.length_drop]
      omega
    have hmemory : (overwrite memory dest ((memory.drop src).take size)).length =
        memory.length := length_overwrite (by omega)
    rw [if_pos ⟨hsrc, hdest⟩, Option.bind_some]
    by_cases hall : src + (num + size) ≤ memory.length
    · have hrest : (overwrite memory dest ((memory.drop src).take size)).drop (src + size) =
          memory.drop (src + size) := drop_overwrite_of_le (by omega) (by omega)
      have hjoin := overwrite_overwrite (b := (memory.drop (src + size)).take num)
        (show dest + ((memory.drop src).take size).length ≤ memory.length by omega)
      rw [hlen] at hjoin
      rw [simultaneous_eq (by omega) hall, simultaneous_eq (by omega) (by omega), hrest, hjoin,
        Nat.add_comm num size, List.take_add, List.drop_drop]
    · by_cases hnum : num = 0
      · omega
      · rw [simultaneous_eq_none (by omega) (.inr (by omega)),
          simultaneous_eq_none hnum (.inr (by omega))]
  · rw [if_neg hword, simultaneous_eq_none (by omega) (by omega)]
    rfl

theorem memcpyBytes_eq (hle : dest ≤ src) (memory : List UInt8) :
    memcpyBytes dest src num memory = simultaneous dest src num memory := by
  induction num generalizing dest src memory with
  | zero => rw [simultaneous_zero, memcpyBytes]
  | succ num ih =>
    rw [memcpyBytes, simultaneous_add hle one_ne_zero]
    congr 1
    funext memory
    exact ih (by omega) memory

theorem memcpyHalfwords_eq (hle : dest ≤ src) (memory : List UInt8) :
    memcpyHalfwords dest src num memory = simultaneous dest src num memory := by
  induction num using Nat.strong_induction_on generalizing dest src memory with
  | _ num ih =>
    match num with
    | 0 | 1 =>
      unfold memcpyHalfwords
      exact memcpyBytes_eq hle memory
    | num + 2 =>
      rw [memcpyHalfwords, simultaneous_add hle two_ne_zero]
      congr 1
      funext memory
      exact ih num (by omega) (by omega) memory

/-- No chunk is overwritten before it is read. -/
theorem memcpy_eq (hle : dest ≤ src) (memory : List UInt8) :
    memcpy dest src num memory = simultaneous dest src num memory := by
  induction num using Nat.strong_induction_on generalizing dest src memory with
  | _ num ih =>
    match num with
    | 0 | 1 | 2 | 3 =>
      unfold memcpy
      exact memcpyHalfwords_eq hle memory
    | num + 4 =>
      rw [memcpy, simultaneous_add hle four_ne_zero]
      congr 1
      funext memory
      exact ih num (by omega) (by omega) memory

/-- With the destination one byte behind the source, `memcpy` repeats words. -/
example : memcpy 1 0 5 [1, 2, 3, 4, 5, 6] = some [1, 1, 2, 3, 4, 4] ∧
    memmove 1 0 5 [1, 2, 3, 4, 5, 6] = some [1, 1, 2, 3, 4, 5] := by
  decide

theorem memmoveDown_eq_none (hnum : num ≠ 0)
    (hout : memory.length < dest + num) : memmoveDown dest src num memory = none := by
  obtain ⟨n, rfl⟩ := Nat.exists_eq_succ_of_ne_zero hnum
  unfold memmoveDown
  split
  · rfl
  · exact if_neg (by omega)

theorem memmoveUp_eq_none (hle : dest ≤ src) (hnum : num ≠ 0)
    (hout : memory.length < src + num) : memmoveUp dest src num memory = none := by
  induction num generalizing dest src memory with
  | zero => exact absurd rfl hnum
  | succ num ih =>
    unfold memmoveUp
    split
    · rfl
    · next b hb =>
      have hin : src < memory.length := (List.getElem?_eq_some_iff.mp hb).1
      rw [if_pos (by omega)]
      exact ih (by omega) (by omega) (by rw [List.length_set]; omega)

theorem memmove_eq_simultaneous (dest src num : ℕ) (memory : List UInt8) :
    memmove dest src num memory = simultaneous dest src num memory := by
  by_cases hnum : num = 0
  · subst hnum
    rw [simultaneous_zero]
    unfold memmove memmoveDown memmoveUp
    exact ite_self _
  · by_cases hin : dest + num ≤ memory.length ∧ src + num ≤ memory.length
    · rw [memmove_eq hin.1 hin.2, simultaneous_eq hin.1 hin.2]
    · rw [simultaneous_eq_none hnum (by omega)]
      unfold memmove
      by_cases hlt : dest > src
      · rw [if_pos hlt]
        exact memmoveDown_eq_none hnum (by omega)
      · rw [if_neg hlt]
        exact memmoveUp_eq_none (by omega) hnum (by omega)

end Copying

end Heartix.Strings
