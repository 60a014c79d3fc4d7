import Mathlib.Data.List.Basic

/-!
A source that delivers what is asked for in pieces. How much of it a call
delivers is decided anew for each call, but it is something as long as anything
is left. A program that asks until it has enough cannot tell the pieces: it gets
the next elements, or it fails because there are not enough of them. Programs of
this kind compose.
-/

namespace Heartix.Deliveries

variable {α β γ : Type*}

structure Source (α : Type*) where
  rest : List α
  calls : ℕ

/-- One call for at most `n` elements. -/
def deliver (split : ℕ → ℕ) (s : Source α) (n : ℕ) : List α × Source α :=
  let count := min (split s.calls + 1) (min n s.rest.length)
  (s.rest.take count, { rest := s.rest.drop count, calls := s.calls + 1 })

section Deliver

variable {split : ℕ → ℕ} {s : Source α} {n : ℕ}

theorem deliver_append : (deliver split s n).1 ++ (deliver split s n).2.rest = s.rest :=
  List.take_append_drop _ _

theorem length_deliver_le : (deliver split s n).1.length ≤ n := by
  rw [deliver, List.length_take]
  omega

theorem deliver_eq_nil_iff (hn : 0 < n) : (deliver split s n).1 = [] ↔ s.rest = [] := by
  rw [deliver, List.take_eq_nil_iff]
  constructor
  · rintro (hzero | hrest)
    · exact List.length_eq_zero_iff.mp (by omega)
    · exact hrest
  · exact Or.inr

end Deliver

/-- The result of a program that takes the next `n` elements and returns `value`,
and that fails if there are fewer. -/
def Takes (s : Source α) (n : ℕ) (value : β) (result : Option (β × Source α)) : Prop :=
  (n ≤ s.rest.length → ∃ calls, result = some (value, ⟨s.rest.drop n, calls⟩)) ∧
  (s.rest.length < n → result = none)

namespace Takes

variable {s : Source α} {n m : ℕ} {a : β} {b : γ} {result : Option (β × Source α)}

theorem nothing (s : Source α) (a : β) : Takes s 0 a (some (a, s)) :=
  ⟨fun _ => ⟨s.calls, rfl⟩, fun h => absurd h (Nat.not_lt_zero _)⟩

theorem bind (h : Takes s n a result) {f : β → Source α → Option (γ × Source α)}
    (hf : ∀ calls, Takes ⟨s.rest.drop n, calls⟩ m b (f a ⟨s.rest.drop n, calls⟩)) :
    Takes s (n + m) b (result.bind fun p => f p.1 p.2) := by
  constructor
  · intro hlen
    obtain ⟨calls, rfl⟩ := h.1 (by omega)
    obtain ⟨calls', hrest⟩ := (hf calls).1 (by
      rw [List.length_drop]
      omega)
    exact ⟨calls', by rw [Option.bind_some, hrest, List.drop_drop]⟩
  · intro hlen
    by_cases hn : n ≤ s.rest.length
    · obtain ⟨calls, rfl⟩ := h.1 hn
      exact (hf calls).2 (by
        rw [List.length_drop]
        omega)
    · rw [h.2 (by omega), Option.bind_none]

theorem map (h : Takes s n a result) (f : β → γ) :
    Takes s n (f a) (result.map fun p => (f p.1, p.2)) := by
  constructor
  · intro hlen
    obtain ⟨calls, rfl⟩ := h.1 hlen
    exact ⟨calls, rfl⟩
  · intro hlen
    rw [h.2 hlen, Option.map_none]

/-- After a first call the rest of the program takes the rest. -/
theorem of_delivered {s' : Source α} {piece : List α} (hrest : piece ++ s'.rest = s.rest)
    (h : Takes s' n a result) : Takes s (piece.length + n) a result := by
  constructor
  · intro hlen
    rw [← hrest, List.length_append] at hlen
    obtain ⟨calls, hresult⟩ := h.1 (by omega)
    exact ⟨calls, by rw [hresult, ← hrest, List.drop_length_add_append]⟩
  · intro hlen
    rw [← hrest, List.length_append] at hlen
    exact h.2 (by omega)

/-- What a program that succeeds returns and leaves. -/
theorem of_some (h : Takes s n a result) {p : β × Source α} (hp : result = some p) :
    p.1 = a ∧ n ≤ s.rest.length ∧ p.2.rest = s.rest.drop n := by
  by_cases hn : n ≤ s.rest.length
  · obtain ⟨calls, hresult⟩ := h.1 hn
    rw [hresult] at hp
    obtain rfl := Option.some.inj hp
    exact ⟨rfl, hn, rfl⟩
  · rw [h.2 (by omega)] at hp
    cases hp

theorem length_rest (h : Takes s n a result) {p : β × Source α} (hp : result = some p) :
    p.2.rest.length + n = s.rest.length := by
  obtain ⟨_, hn, hrest⟩ := h.of_some hp
  rw [hrest, List.length_drop]
  omega

end Takes

end Heartix.Deliveries
