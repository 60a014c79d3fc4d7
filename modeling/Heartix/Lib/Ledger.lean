import Mathlib.Data.List.Basic

/-!
A ledger of resources that are acquired and released. It is in order while no
resource is acquired that is held and none is released that is not; it is
settled when in the end nothing is held, so that each acquisition has been
followed by exactly one release.
-/

namespace Heartix.Ledger

variable {α : Type*} [DecidableEq α]

inductive Entry (α : Type*)
  | acquire (a : α)
  | release (a : α)
  deriving DecidableEq, Repr

/-- What is held after some entries, where they are in order. -/
def held : List (Entry α) → List α → Option (List α)
  | [], l => some l
  | .acquire a :: entries, l => if a ∈ l then none else held entries (a :: l)
  | .release a :: entries, l => if a ∈ l then held entries (l.erase a) else none

def Settled (entries : List (Entry α)) : Prop := held entries [] = some []

variable {entries more : List (Entry α)} {l m : List α} {a : α}

theorem held_append (h : held entries l = some m) :
    held (entries ++ more) l = held more m := by
  induction entries generalizing l with
  | nil =>
    obtain rfl := Option.some.inj h
    rfl
  | cons entry entries ih =>
    rw [List.cons_append]
    cases entry with
    | acquire a =>
      rw [held] at h ⊢
      split at h
      · cases h
      · rw [if_neg ‹_›]
        exact ih h
    | release a =>
      rw [held] at h ⊢
      split at h
      · rw [if_pos ‹_›]
        exact ih h
      · cases h

theorem held_acquire (h : held entries l = some m) (ha : a ∉ m) :
    held (entries ++ [.acquire a]) l = some (a :: m) := by
  rw [held_append h, held, if_neg ha]
  rfl

theorem held_release (h : held entries l = some m) (ha : a ∈ m) :
    held (entries ++ [.release a]) l = some (m.erase a) := by
  rw [held_append h, held, if_pos ha]
  rfl

end Heartix.Ledger
