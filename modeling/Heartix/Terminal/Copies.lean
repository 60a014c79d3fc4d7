import Heartix.Strings.Memcpy
import Heartix.Lib.LittleEndian
import Heartix.Terminal.Client
import Heartix.Terminal.Document
import Heartix.Terminal.Headless

/-!
The places where the terminal moves the contents of a buffer towards its front
with `memcpy`. The models of the callers state the result; here it is compared
with the copy itself.
-/

namespace Heartix.Terminal

open Overwrite Strings

/-- `sizeof(int)`. -/
def sizeofInt : ℕ := 4

/-- An `int` in memory. -/
def intBytes (n : ℤ) : List UInt8 := LittleEndian.bytes sizeofInt (n % 2 ^ 32).toNat

/-- An array of `int` in memory. -/
def arrayBytes (l : List ℤ) : List UInt8 := l.flatMap intBytes

theorem length_intBytes (n : ℤ) : (intBytes n).length = sizeofInt :=
  LittleEndian.length_bytes _ _

theorem length_arrayBytes (l : List ℤ) : (arrayBytes l).length = l.length * sizeofInt := by
  induction l with
  | nil => rfl
  | cons n l ih =>
    unfold arrayBytes at ih ⊢
    rw [List.flatMap_cons, List.length_append, ih, length_intBytes, List.length_cons,
      Nat.succ_mul, Nat.add_comm]

theorem arrayBytes_append (l l' : List ℤ) : arrayBytes (l ++ l') = arrayBytes l ++ arrayBytes l' :=
  List.flatMap_append

/-- A copy to the front of the object. -/
theorem memcpy_front (front moved : List UInt8) :
    memcpy 0 front.length moved.length (front ++ moved) =
      some (moved ++ (front ++ moved).drop moved.length) := by
  have hlen : (front ++ moved).length = front.length + moved.length := List.length_append
  rw [memcpy_eq (Nat.zero_le _), simultaneous_eq (by omega) (by omega), List.drop_left,
    List.take_length, overwrite, List.take_zero, List.nil_append, Nat.zero_add]

/-- A vector moved up by `k` places, with its end filled. -/
theorem toList_movedUp {α : Type*} {n : ℕ} (v : Vector α n) (k : ℕ) (fill : Fin n → α) :
    (Vector.ofFn fun i : Fin n => if h : i.val + k < n then v[i.val + k] else fill i).toList =
      v.toList.drop k ++ (List.ofFn fill).drop (n - k) := by
  have hlen : (v.toList.drop k).length = n - k := by
    rw [List.length_drop, Vector.length_toList]
  refine List.ext_getElem ?_ fun i hi hi' => ?_
  · rw [List.length_append, hlen, List.length_drop, List.length_ofFn, Vector.length_toList]
    omega
  · rw [Vector.length_toList] at hi
    rw [Vector.getElem_toList, Vector.getElem_ofFn]
    by_cases hmoved : i + k < n
    · rw [dif_pos hmoved, List.getElem_append_left (by omega), List.getElem_drop,
        Vector.getElem_toList]
      simp only [Nat.add_comm]
    · rw [dif_neg hmoved, List.getElem_append_right (by omega), List.getElem_drop,
        List.getElem_ofFn]
      congr 2
      omega

theorem toList_shifted (buffer : Vector ℤ bufferSize) :
    (Client.shifted buffer).toList =
      buffer.toList.tail ++ buffer.toList.drop (bufferSize - 1) := by
  have hfill : List.ofFn (fun i : Fin bufferSize => buffer[i.val]) = buffer.toList := by
    rw [← Vector.toList_ofFn, Vector.ofFn_getElem]
  rw [Client.shifted, toList_movedUp buffer 1 fun i => buffer[i.val], hfill, List.drop_one]

/-- `getChar` moves the keys that are left to the front of its side buffer. -/
theorem memcpy_shifted (buffer : Vector ℤ bufferSize) :
    memcpy 0 sizeofInt ((bufferSize - 1) * sizeofInt) (arrayBytes buffer.toList) =
      some (arrayBytes (Client.shifted buffer).toList) := by
  have hcons : buffer.toList = buffer[0] :: buffer.toList.tail := by
    cases h : buffer.toList with
    | nil => exact absurd (congrArg List.length h) (by rw [Vector.length_toList]; decide)
    | cons a l =>
      have hpos : 0 < buffer.toList.length := by
        rw [h, List.length_cons]
        omega
      have ha : buffer[0] = a := by
        rw [← Vector.getElem_toList hpos]
        simp only [h, List.getElem_cons_zero]
      rw [ha, List.tail_cons]
  have hinit : buffer.toList =
      buffer.toList.take (bufferSize - 1) ++ buffer.toList.drop (bufferSize - 1) :=
    (List.take_append_drop _ _).symm
  have hmoved : (arrayBytes buffer.toList.tail).length = (bufferSize - 1) * sizeofInt := by
    rw [length_arrayBytes, List.length_tail, Vector.length_toList]
  have hdrop : (arrayBytes buffer.toList).drop ((bufferSize - 1) * sizeofInt) =
      arrayBytes (buffer.toList.drop (bufferSize - 1)) := by
    conv_lhs => rw [hinit, arrayBytes_append]
    refine List.drop_left' ?_
    rw [length_arrayBytes, List.length_take, Vector.length_toList]
    rfl
  have hsplit : arrayBytes buffer.toList = intBytes buffer[0] ++ arrayBytes buffer.toList.tail := by
    conv_lhs => rw [hcons]
    rfl
  have hcopy := memcpy_front (intBytes buffer[0]) (arrayBytes buffer.toList.tail)
  rw [← hsplit, hmoved, length_intBytes, hdrop] at hcopy
  rw [hcopy, toList_shifted, arrayBytes_append]

/-- The cells of the last line, which begins at an even offset. -/
theorem drop_blank {n m : ℕ} (hm : m % 2 = 0) :
    (List.ofFn fun i : Fin n => blankByte i).drop m = (List.range (n - m)).map blankByte := by
  refine List.ext_getElem ?_ fun i hi hi' => ?_
  · rw [List.length_drop, List.length_ofFn, List.length_map, List.length_range]
  · have heven : (m + i) % 2 = i % 2 := by omega
    rw [List.getElem_drop, List.getElem_ofFn, List.getElem_map, List.getElem_range]
    simp only [blankByte, heven]

theorem toList_scrolled (output : Vector UInt8 screenSize) :
    (scrolled output).toList = output.toList.drop (SCREEN_WIDTH * 2) ++
      (List.range (SCREEN_WIDTH * 2)).map blankByte := by
  rw [scrolled, toList_movedUp output (SCREEN_WIDTH * 2) fun i => blankByte i,
    drop_blank (m := screenSize - SCREEN_WIDTH * 2) rfl]
  rfl

/-- `normalize` moves the lines up and then fills the last one. -/
theorem memcpy_scrolled (output : Vector UInt8 screenSize) :
    ∃ moved, memcpy 0 (SCREEN_WIDTH * 2) (screenSize - lineBytes.toNat) output.toList =
        some moved ∧
      (scrolled output).toList = overwrite moved (screenSize - lineBytes.toNat)
        ((List.range (SCREEN_WIDTH * 2)).map blankByte) := by
  have hfront : (output.toList.take (SCREEN_WIDTH * 2)).length = SCREEN_WIDTH * 2 := by
    rw [List.length_take, Vector.length_toList]
    rfl
  have hmoved : (output.toList.drop (SCREEN_WIDTH * 2)).length =
      screenSize - lineBytes.toNat := by
    rw [List.length_drop, Vector.length_toList]
    rfl
  have hcopy := memcpy_front (output.toList.take (SCREEN_WIDTH * 2))
    (output.toList.drop (SCREEN_WIDTH * 2))
  rw [List.take_append_drop, hfront, hmoved] at hcopy
  refine ⟨_, hcopy, ?_⟩
  have hend : (output.toList.drop (SCREEN_WIDTH * 2) ++
      output.toList.drop (screenSize - lineBytes.toNat)).drop
        (screenSize - lineBytes.toNat + SCREEN_WIDTH * 2) = [] := by
    refine List.drop_of_length_le ?_
    rw [List.length_append, hmoved, List.length_drop, Vector.length_toList]
    decide
  rw [toList_scrolled, overwrite, List.take_left' hmoved, List.length_map,
    List.length_range, hend, List.append_nil]

/-- `remove` moves the rest of the line over the character. -/
theorem memcpy_remove {line after : TerminalLine} {position : ℤ}
    (hbuffer : line.length ≤ line.buffer.length) (hpos : 0 < line.length)
    (hremove : line.remove position = some after) :
    memcpy position.toNat (position.toNat + 1) (line.length - position.toNat - 1) line.buffer =
      some after.buffer := by
  unfold TerminalLine.remove at hremove
  rw [if_pos hpos] at hremove
  split at hremove
  · next hin =>
    obtain rfl := Option.some.inj hremove
    have hlt : position.toNat < line.length := by omega
    have hlen : ((line.buffer.drop (position.toNat + 1)).take
        (line.length - position.toNat - 1)).length = line.length - position.toNat - 1 := by
      rw [List.length_take, List.length_drop]
      omega
    rw [memcpy_eq (Nat.le_succ _), simultaneous_eq (by omega) (by omega), overwrite, hlen,
      List.drop_take, List.append_assoc]
    congr 4
    omega
  · cases hremove

/-- `memmove` copies for any overlap, and `memcpy` wherever the destination does not
lie behind the source, which is how the terminal moves buffers up. -/
theorem overlapping_copies :
    (∀ (memory : List UInt8) (dest src num : ℕ),
      memmove dest src num memory = simultaneous dest src num memory) ∧
    (∀ (memory : List UInt8) (dest src num : ℕ), dest ≤ src →
      memcpy dest src num memory = simultaneous dest src num memory) ∧
    (∀ (line after : TerminalLine) (position : ℤ), line.length ≤ line.buffer.length →
      0 < line.length → line.remove position = some after →
      memcpy position.toNat (position.toNat + 1) (line.length - position.toNat - 1) line.buffer =
        some after.buffer) ∧
    (∀ output : Vector UInt8 screenSize, ∃ moved,
      memcpy 0 (SCREEN_WIDTH * 2) (screenSize - lineBytes.toNat) output.toList = some moved ∧
      (scrolled output).toList = overwrite moved (screenSize - lineBytes.toNat)
        ((List.range (SCREEN_WIDTH * 2)).map blankByte)) ∧
    ∀ buffer : Vector ℤ bufferSize,
      memcpy 0 sizeofInt ((bufferSize - 1) * sizeofInt) (arrayBytes buffer.toList) =
        some (arrayBytes (Client.shifted buffer).toList) :=
  ⟨fun memory dest src num => memmove_eq_simultaneous dest src num memory,
    fun memory _ _ _ hle => memcpy_eq hle memory,
    fun _ _ _ hbuffer hpos hremove => memcpy_remove hbuffer hpos hremove,
    memcpy_scrolled, memcpy_shifted⟩

end Heartix.Terminal
