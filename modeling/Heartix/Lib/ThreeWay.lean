import Mathlib.Data.Int.Order.Basic
import Mathlib.Order.Compare

/-!
Comparisons that answer with a number: negative, zero or positive. A lawful comparison
answers so that the numbers are opposite when the arguments change places, and what is
not above something is not above anything further up.
-/

namespace Heartix.ThreeWay

/-- The number that stands for an order. -/
def sign : Ordering → ℤ
  | .lt => -1
  | .eq => 0
  | .gt => 1

theorem sign_swap (o : Ordering) : sign o.swap = -sign o := by
  cases o <;> rfl

theorem sign_eq_zero_iff {o : Ordering} : sign o = 0 ↔ o = .eq := by
  cases o <;> decide

theorem sign_nonpos_iff {o : Ordering} : sign o ≤ 0 ↔ o.isLE = true := by
  cases o <;> decide

section Lawful

variable {α : Type*} (cmp : α → α → Ordering) {x y z : α}

theorem sign_trans [Std.TransCmp cmp] (hxy : sign (cmp x y) ≤ 0) (hyz : sign (cmp y z) ≤ 0) :
    sign (cmp x z) ≤ 0 :=
  sign_nonpos_iff.mpr
    (Std.TransCmp.isLE_trans (sign_nonpos_iff.mp hxy) (sign_nonpos_iff.mp hyz))

theorem sign_zero_iff [Std.LawfulEqCmp cmp] : sign (cmp x y) = 0 ↔ x = y :=
  sign_eq_zero_iff.trans Std.LawfulEqCmp.compare_eq_iff_eq

end Lawful

end Heartix.ThreeWay
