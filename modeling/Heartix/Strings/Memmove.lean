import Heartix.Lib.Overwrite

/-!
`memmove` within one object: source and destination are offsets into the same
bytes and may overlap. An access outside the object has no result. Each of the
two loops reads a byte before it is overwritten, because it runs away from the
destination.
-/

namespace Heartix.Strings

open Overwrite

/-- The loop for a destination behind the source, which begins with the last
byte. -/
def memmoveDown (dest src : ℕ) : (num : ℕ) → List UInt8 → Option (List UInt8)
  | 0, memory => some memory
  | num + 1, memory =>
      match memory[src + num]? with
      | none => none
      | some b =>
          if dest + num < memory.length then
            memmoveDown dest src num (memory.set (dest + num) b)
          else none

/-- The loop for any other destination. -/
def memmoveUp (dest src : ℕ) : (num : ℕ) → List UInt8 → Option (List UInt8)
  | 0, memory => some memory
  | num + 1, memory =>
      match memory[src]? with
      | none => none
      | some b =>
          if dest < memory.length then memmoveUp (dest + 1) (src + 1) num (memory.set dest b)
          else none

def memmove (dest src num : ℕ) (memory : List UInt8) : Option (List UInt8) :=
  if dest > src then memmoveDown dest src num memory else memmoveUp dest src num memory

section Moving

variable {dest src num : ℕ} {memory : List UInt8}

theorem take_succ_drop {b : UInt8} (hb : memory[src + num]? = some b) :
    (memory.drop src).take (num + 1) = (memory.drop src).take num ++ [b] := by
  rw [List.take_add_one, List.getElem?_drop, hb]
  rfl

theorem memmoveDown_eq (hle : src ≤ dest) (hdest : dest + num ≤ memory.length) :
    memmoveDown dest src num memory =
      some (overwrite memory dest ((memory.drop src).take num)) := by
  induction num generalizing memory with
  | zero =>
    rw [List.take_zero, overwrite_nil]
    rfl
  | succ num ih =>
    obtain ⟨b, hb⟩ : ∃ b, memory[src + num]? = some b :=
      ⟨memory[src + num], List.getElem?_eq_getElem (by omega)⟩
    -- the byte just stored lies behind all that is still to be read
    have hblock : ((memory.set (dest + num) b).drop src).take num = (memory.drop src).take num := by
      rw [List.drop_set, if_neg (by omega), List.take_set_of_le (by omega)]
    have hlen : ((memory.drop src).take num).length = num := by
      rw [List.length_take, List.length_drop]
      omega
    have hroom : dest + ((memory.drop src).take num).length < memory.length := by omega
    have hend := overwrite_set_end hroom b
    rw [hlen] at hend
    unfold memmoveDown
    simp only [hb]
    rw [if_pos (by omega), ih (by rw [List.length_set]; omega), hblock, take_succ_drop hb, hend]

theorem memmoveUp_eq (hle : dest ≤ src) (hsrc : src + num ≤ memory.length) :
    memmoveUp dest src num memory =
      some (overwrite memory dest ((memory.drop src).take num)) := by
  induction num generalizing dest src memory with
  | zero =>
    rw [List.take_zero, overwrite_nil]
    rfl
  | succ num ih =>
    obtain ⟨b, hb⟩ : ∃ b, memory[src]? = some b :=
      ⟨memory[src], List.getElem?_eq_getElem (by omega)⟩
    have hblock : (memory.set dest b).drop (src + 1) = memory.drop (src + 1) :=
      List.drop_set_of_lt (by omega)
    have hcons : memory.drop src = b :: memory.drop (src + 1) := by
      rw [List.drop_eq_getElem?_toList_append, hb]
      rfl
    unfold memmoveUp
    simp only [hb]
    rw [if_pos (by omega), ih (by omega) (by rw [List.length_set]; omega), hblock,
      overwrite_set_front (by omega), hcons, List.take_succ_cons]

/-- Moved bytes arrive as they were, however the two places overlap. -/
theorem memmove_eq (hdest : dest + num ≤ memory.length) (hsrc : src + num ≤ memory.length) :
    memmove dest src num memory = some (overwrite memory dest ((memory.drop src).take num)) := by
  unfold memmove
  by_cases hlt : dest > src
  · rw [if_pos hlt]
    exact memmoveDown_eq (Nat.le_of_lt hlt) hdest
  · rw [if_neg hlt]
    exact memmoveUp_eq (Nat.le_of_not_lt hlt) hsrc

end Moving

end Heartix.Strings
