import Mathlib.Data.List.Basic
import Mathlib.Tactic.Ring

/-!
Numbers in little-endian byte order, in a field of a given size.
-/

namespace Heartix.LittleEndian

/-- The lowest `size` bytes of a number. -/
def bytes : ℕ → ℕ → List UInt8
  | 0, _ => []
  | size + 1, n => (n % 256).toUInt8 :: bytes size (n / 256)

def value : List UInt8 → ℕ
  | [] => 0
  | b :: rest => b.toNat + 256 * value rest

theorem length_bytes (size n : ℕ) : (bytes size n).length = size := by
  induction size generalizing n with
  | zero => rfl
  | succ size ih => exact congrArg (· + 1) (ih (n / 256))

/-- A number that fits into the field is read back. -/
theorem value_bytes {size n : ℕ} (hn : n < 256 ^ size) : value (bytes size n) = n := by
  induction size generalizing n with
  | zero =>
    have hzero : n = 0 := by simpa using hn
    exact hzero.symm
  | succ size ih =>
    have hrest : n / 256 < 256 ^ size := by
      rw [Nat.pow_succ] at hn
      omega
    have hlow : (n % 256).toUInt8.toNat = n % 256 := by
      rw [Nat.toUInt8_eq, UInt8.toNat_ofNat']
      omega
    unfold bytes value
    rw [ih hrest, hlow]
    omega

theorem value_lt (l : List UInt8) : value l < 256 ^ l.length := by
  induction l with
  | nil => exact Nat.one_pos
  | cons b l ih =>
    have hb := b.toNat_lt
    rw [value, List.length_cons, Nat.pow_succ]
    omega

/-- The bytes of a number are those it was read from. -/
theorem bytes_value (l : List UInt8) : bytes l.length (value l) = l := by
  induction l with
  | nil => rfl
  | cons b l ih =>
    have hb := b.toNat_lt
    have hlow : (b.toNat + 256 * value l) % 256 = b.toNat := by omega
    have hhigh : (b.toNat + 256 * value l) / 256 = value l := by omega
    rw [value, List.length_cons, bytes, hlow, hhigh, ih, Nat.toUInt8_eq, UInt8.ofNat_toNat]

end Heartix.LittleEndian
