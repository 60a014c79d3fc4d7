import Mathlib.Data.List.Basic

/-!
A queue offered to a sink that may take any nonempty prefix of what it is
offered or refuse. The sink is offered what is left until nothing is left or it
refuses once. The record of the attempts determines what was taken and in
which order; no element is taken twice and none is skipped.
-/

namespace Heartix.PartialTransfer

variable {α : Type*}

/-- One offer: how much of the queue had been taken before, and what was
taken now. Nothing taken means that the offer was refused. -/
structure Attempt (α : Type*) where
  position : ℕ
  taken : List α
  deriving DecidableEq, Repr

def takenOf (attempts : List (Attempt α)) : List α := attempts.flatMap Attempt.taken

@[simp] theorem takenOf_nil : takenOf ([] : List (Attempt α)) = [] := rfl

@[simp] theorem takenOf_cons (a : Attempt α) (as : List (Attempt α)) :
    takenOf (a :: as) = a.taken ++ takenOf as := rfl

@[simp] theorem takenOf_append (as bs : List (Attempt α)) :
    takenOf (as ++ bs) = takenOf as ++ takenOf bs := by
  simp [takenOf]

/-- No attempt was refused. -/
def Accepted (attempts : List (Attempt α)) : Prop := ∀ a ∈ attempts, a.taken ≠ []

theorem accepted_append {as bs : List (Attempt α)} :
    Accepted (as ++ bs) ↔ Accepted as ∧ Accepted bs := by
  simp [Accepted, or_imp, forall_and]

/-- Offering `queue`, of which `position` elements are already gone, leaves
`left` after the recorded attempts. -/
inductive Transfer : ℕ → List α → List α → List (Attempt α) → Prop
  | done (position : ℕ) : Transfer position [] [] []
  | refused (position : ℕ) {queue : List α} (hqueue : queue ≠ []) :
      Transfer position queue queue [⟨position, []⟩]
  | step {position n : ℕ} {queue left : List α} {attempts : List (Attempt α)}
      (hn : 0 < n) (hqueue : queue ≠ [])
      (rest : Transfer (position + n) (queue.drop n) left attempts) :
      Transfer position queue left (⟨position, queue.take n⟩ :: attempts)

namespace Transfer

variable {position : ℕ} {queue left : List α} {attempts : List (Attempt α)}

/-- Taken elements and remaining ones are the queue, in order. -/
theorem taken_append_left (h : Transfer position queue left attempts) :
    takenOf attempts ++ left = queue := by
  induction h with
  | done => rfl
  | refused => rfl
  | step hn hqueue rest ih => simp [List.append_assoc, ih]

/-- The transfer is complete exactly when no attempt was refused. -/
theorem left_eq_nil_iff (h : Transfer position queue left attempts) :
    left = [] ↔ Accepted attempts := by
  induction h with
  | done => simp [Accepted]
  | refused _ hqueue => simp [Accepted, hqueue]
  | @step position n queue left attempts hn hqueue rest ih =>
    have htake : queue.take n ≠ [] := by
      intro hnil
      rcases List.take_eq_nil_iff.mp hnil with hzero | hempty
      · omega
      · exact hqueue hempty
    simp [Accepted, htake, ih]

/-- A refusal before anything was taken leaves the whole queue. -/
theorem left_eq_queue (h : Transfer position queue left attempts)
    (hfirst : ∀ a ∈ attempts, a.taken = [] → a.position = 0) (hleft : left ≠ []) :
    position = 0 ∧ left = queue := by
  induction h with
  | done => exact absurd rfl hleft
  | refused position _ => exact ⟨hfirst _ (List.mem_singleton_self _) rfl, rfl⟩
  | step hn _ _ ih =>
    obtain ⟨hzero, _⟩ := ih (fun a ha => hfirst a (List.mem_cons_of_mem _ ha)) hleft
    omega

end Transfer

end Heartix.PartialTransfer
