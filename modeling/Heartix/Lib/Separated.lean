import Mathlib.Data.List.Basic

/-!
Texts of groups with a separator between them, and a reader that takes one group after
another. A reader that takes a group off the front, and takes all of it where the text ends
or the separator follows, reads exactly these texts.
-/

namespace Heartix.Separated

variable {α β : Type*}

/-- Groups with their values, joined by the separator. -/
inductive Joined (sep : α) (P : List α → β → Prop) : List α → List β → Prop
  | last {g : List α} {v : β} (h : P g v) : Joined sep P g [v]
  | more {g text : List α} {v : β} {vs : List β} (h : P g v) (hrest : Joined sep P text vs) :
      Joined sep P (g ++ sep :: text) (v :: vs)

/-- Reading a number of groups, to the end of the text. -/
def readAll [DecidableEq α] (sep : α) (next : List α → Option (β × List α)) :
    ℕ → List α → Option (List β)
  | 0, _ => none
  | n + 1, text =>
      match next text with
      | none => none
      | some (v, rest) =>
          match n, rest with
          | 0, [] => some [v]
          | _ + 1, c :: text => if c = sep then (readAll sep next n text).map (v :: ·) else none
          | _, _ => none

/-- Where a group may end. -/
def Ends (sep : α) : List α → Prop
  | [] => True
  | c :: _ => c = sep

/-- What is asked of the reader of one group. -/
structure Reader (sep : α) (P : List α → β → Prop) (next : List α → Option (β × List α)) :
    Prop where
  sound : ∀ {text v rest}, next text = some (v, rest) → ∃ g, text = g ++ rest ∧ P g v
  complete : ∀ {g v rest}, P g v → Ends sep rest → next (g ++ rest) = some (v, rest)

namespace Joined

variable {sep : α} {P Q : List α → β → Prop} {text : List α} {vs : List β}

/-- Every character is one of a group, or the separator. -/
theorem mem_cases (h : Joined sep P text vs) {c : α} (hc : c ∈ text) :
    c = sep ∨ ∃ g v, P g v ∧ c ∈ g := by
  induction h with
  | last hgroup =>
    right
    exact ⟨_, _, hgroup, hc⟩
  | more hgroup _ ih =>
    rcases List.mem_append.mp hc with hfront | hback
    · right
      exact ⟨_, _, hgroup, hfront⟩
    · rcases List.mem_cons.mp hback with heq | hrest
      · left
        exact heq
      · exact ih hrest

/-- Another reading of the groups, which may look at the characters of the text. -/
theorem imp (h : Joined sep P text vs)
    (hgroup : ∀ g v, (∀ c ∈ g, c ∈ text) → P g v → Q g v) : Joined sep Q text vs := by
  induction h with
  | last hlast =>
    apply Joined.last
    exact hgroup _ _ (fun _ hc => hc) hlast
  | more hfirst _ ih =>
    apply Joined.more
    · apply hgroup _ _ _ hfirst
      intro c hc
      exact List.mem_append_left _ hc
    · apply ih
      intro g v hmem
      apply hgroup
      intro c hc
      exact List.mem_append_right _ (List.mem_cons_of_mem _ (hmem c hc))

variable [DecidableEq α] {next : List α → Option (β × List α)}

theorem of_readAll (hnext : Reader sep P next) {n : ℕ} (h : readAll sep next n text = some vs) :
    Joined sep P text vs ∧ vs.length = n := by
  induction n generalizing text vs with
  | zero => cases h
  | succ n ih =>
    unfold readAll at h
    cases hread : next text with
    | none =>
      rw [hread] at h
      cases h
    | some read =>
      obtain ⟨v, rest⟩ := read
      obtain ⟨g, htext, hgroup⟩ := hnext.sound hread
      rw [hread] at h
      dsimp only at h
      split at h
      · cases h
        rw [htext, List.append_nil]
        exact ⟨.last hgroup, rfl⟩
      · rename_i m c more _ _
        split at h
        · rename_i hsep
          obtain ⟨ws, hws, rfl⟩ := Option.map_eq_some_iff.mp h
          obtain ⟨hjoined, hlength⟩ := ih hws
          rw [htext, hsep, List.length_cons, hlength]
          exact ⟨.more hgroup hjoined, rfl⟩
        · cases h
      · cases h

theorem readAll_eq (hnext : Reader sep P next) (h : Joined sep P text vs) :
    readAll sep next vs.length text = some vs := by
  induction h with
  | @last g v hlast =>
    have hread : next (g ++ []) = some (v, []) := hnext.complete hlast trivial
    rw [List.append_nil] at hread
    rw [List.length_singleton, readAll, hread]
  | @more g text v vs hfirst hrest ih =>
    have hpositive : ∃ n, vs.length = n + 1 := by
      cases hrest with
      | last _ => exact ⟨0, rfl⟩
      | more _ _ => exact ⟨_, rfl⟩
    obtain ⟨n, hn⟩ := hpositive
    have hread : next (g ++ sep :: text) = some (v, sep :: text) := hnext.complete hfirst rfl
    rw [List.length_cons, readAll, hread, hn]
    dsimp only
    rw [if_pos rfl, ← hn, ih]
    rfl

/-- The reader reads exactly the joined groups. -/
theorem readAll_iff (hnext : Reader sep P next) {n : ℕ} :
    readAll sep next n text = some vs ↔ Joined sep P text vs ∧ vs.length = n := by
  constructor
  · exact of_readAll hnext
  · intro h
    rw [← h.2]
    exact readAll_eq hnext h.1

end Joined

end Heartix.Separated
