import Mathlib.Data.List.Nodup

/-!
Doubly linked lists in a memory of links. The nodes are addresses, the links are
two functions on addresses, and `null` ends the list in both directions. The
shape is a predicate on the list of nodes met on the way.
-/

namespace Heartix.DoublyLinked

variable {A : Type*}

/-- Entered at `p` with `before` behind it, the links spell out the list. -/
def Linked (next prev : A → A) (null : A) : (before p : A) → List A → Prop
  | _, p, [] => p = null
  | before, p, a :: l =>
      p = a ∧ a ≠ null ∧ prev a = before ∧ Linked next prev null a (next a) l

namespace Linked

variable {next prev next' prev' : A → A} {null before before' p q : A} {l l' : List A}

/-- Only the links of the nodes matter. -/
theorem frame (h : Linked next prev null before p l) (hnext : ∀ a ∈ l, next' a = next a)
    (hprev : ∀ a ∈ l, prev' a = prev a) : Linked next' prev' null before p l := by
  induction l generalizing before p with
  | nil => exact h
  | cons a l ih =>
    obtain ⟨hp, hnull, hbefore, hrest⟩ := h
    refine ⟨hp, hnull, (hprev a List.mem_cons_self).trans hbefore, ?_⟩
    rw [hnext a List.mem_cons_self]
    exact ih hrest (fun b hb => hnext b (List.mem_cons_of_mem a hb))
      (fun b hb => hprev b (List.mem_cons_of_mem a hb))

theorem ne_null (h : Linked next prev null before p l) {a : A} (ha : a ∈ l) : a ≠ null := by
  induction l generalizing before p with
  | nil => cases ha
  | cons b l ih =>
    obtain ⟨_, hnull, _, hrest⟩ := h
    rcases List.mem_cons.mp ha with rfl | ha
    · exact hnull
    · exact ih hrest ha

/-- The entry determines the list, whatever lies behind it. -/
theorem unique (h : Linked next prev null before p l)
    (h' : Linked next prev null before' p l') : l = l' := by
  induction l generalizing before before' p l' with
  | nil =>
    cases l' with
    | nil => rfl
    | cons a l' => exact absurd (h'.1.symm.trans h) h'.2.1
  | cons a l ih =>
    obtain ⟨rfl, hnull, _, hrest⟩ := h
    cases l' with
    | nil => exact absurd h' hnull
    | cons b l' =>
      obtain ⟨rfl, _, _, hrest'⟩ := h'
      rw [ih hrest hrest']

theorem eq_nil (h : Linked next prev null before null l) : l = [] := by
  cases l with
  | nil => rfl
  | cons a l => exact absurd h.1.symm h.2.1

/-- A node of the list is the entry of a part of it. -/
theorem suffix (h : Linked next prev null before p l) {a : A} (ha : a ∈ l) :
    ∃ before' l', Linked next prev null before' a (a :: l') ∧ l'.length < l.length := by
  induction l generalizing before p with
  | nil => cases ha
  | cons b l ih =>
    have hlist := h
    obtain ⟨rfl, _, _, hrest⟩ := h
    rcases List.mem_cons.mp ha with rfl | ha
    · exact ⟨before, l, hlist, Nat.lt_succ_self _⟩
    · obtain ⟨before', l', hl', hlt⟩ := ih hrest ha
      exact ⟨before', l', hl', Nat.lt_succ_of_lt hlt⟩

/-- The links from a node of the list on. -/
theorem of_append {front back : List A} {a : A}
    (h : Linked next prev null before p (front ++ a :: back)) :
    ∃ before', Linked next prev null before' a (a :: back) := by
  induction front generalizing before p with
  | nil =>
    have hp : p = a := h.1
    exact ⟨before, hp ▸ h⟩
  | cons b front ih => exact ih h.2.2.2

/-- A list that ends has no cycle: no node is met twice. -/
theorem nodup (h : Linked next prev null before p l) : l.Nodup := by
  induction l generalizing before p with
  | nil => exact List.nodup_nil
  | cons a l ih =>
    have hlist := h
    obtain ⟨rfl, _, _, hrest⟩ := h
    refine List.nodup_cons.mpr ⟨fun hmem => ?_, ih hrest⟩
    obtain ⟨before', l', hl', hlt⟩ := hrest.suffix hmem
    have heq := List.cons.inj (hlist.unique hl')
    rw [← heq.2] at hlt
    exact Nat.lt_irrefl _ hlt

/-- Putting a node before the head. -/
theorem push (h : Linked next prev null null p l) (hq : q ∉ l) (hnull : q ≠ null)
    (hnextQ : next' q = p) (hprevQ : prev' q = null) (hnext : ∀ a ∈ l, next' a = next a)
    (hhead : p ≠ null → prev' p = q) (hprev : ∀ a ∈ l, a ≠ p → prev' a = prev a) :
    Linked next' prev' null null q (q :: l) := by
  refine ⟨rfl, hnull, hprevQ, ?_⟩
  rw [hnextQ]
  cases l with
  | nil => exact h
  | cons a l =>
    have hnodup := h.nodup
    obtain ⟨rfl, hp, _, hrest⟩ := h
    refine ⟨rfl, hp, hhead hp, ?_⟩
    rw [hnext p List.mem_cons_self]
    refine hrest.frame (fun b hb => hnext b (List.mem_cons_of_mem p hb)) fun b hb => ?_
    refine hprev b (List.mem_cons_of_mem p hb) ?_
    rintro rfl
    exact (List.nodup_cons.mp hnodup).1 hb

theorem prev_head {a : A} (h : Linked next prev null before p (a :: l)) : prev a = before :=
  h.2.2.1

theorem prev_mem {front back : List A} {a : A}
    (h : Linked next prev null before p (front ++ a :: back)) (hne : front ≠ []) :
    prev a ∈ front := by
  induction front generalizing before p with
  | nil => exact absurd rfl hne
  | cons b front ih =>
    obtain ⟨rfl, _, _, hrest⟩ := h
    cases front with
    | nil =>
      rw [hrest.prev_head]
      exact List.mem_cons_self
    | cons c front => exact List.mem_cons_of_mem p (ih hrest (List.cons_ne_nil c front))

/-- Putting a node before a node of the list. The link that led to this node, if
there is one, now leads to the new node. -/
theorem insert {front back : List A} {a : A}
    (h : Linked next prev null before p (front ++ a :: back))
    (hq : q ∉ front ++ a :: back) (hnull : q ≠ null)
    (hnextQ : next' q = a) (hprevQ : prev' q = prev a) (hprevA : prev' a = q)
    (hlink : front ≠ [] → next' (prev a) = q)
    (hnext : ∀ b ∈ front ++ a :: back, front = [] ∨ b ≠ prev a → next' b = next b)
    (hprev : ∀ b ∈ front ++ a :: back, b ≠ a → prev' b = prev b) :
    Linked next' prev' null before (if front = [] then q else p)
      (front ++ q :: a :: back) := by
  induction front generalizing before p with
  | nil =>
    have hnodup := h.nodup
    obtain ⟨rfl, ha, hbefore, hrest⟩ := h
    rw [if_pos rfl]
    refine ⟨rfl, hnull, hprevQ.trans hbefore, ?_⟩
    rw [hnextQ]
    refine ⟨rfl, ha, hprevA, ?_⟩
    rw [hnext p List.mem_cons_self (Or.inl rfl)]
    refine hrest.frame (fun b hb => hnext b (List.mem_cons_of_mem p hb) (Or.inl rfl))
      fun b hb => hprev b (List.mem_cons_of_mem p hb) ?_
    rintro rfl
    exact (List.nodup_cons.mp hnodup).1 hb
  | cons b front ih =>
    have hnodup := List.nodup_cons.mp h.nodup
    obtain ⟨rfl, hp, hbefore, hrest⟩ := h
    rw [List.cons_append, List.mem_cons, not_or] at hq
    have hne : p ≠ a := by
      rintro rfl
      exact hnodup.1 (List.mem_append_right front List.mem_cons_self)
    have hentry : next' p = if front = [] then q else next p := by
      by_cases hfront : front = []
      · subst hfront
        rw [if_pos rfl, ← hlink (List.cons_ne_nil p []), hrest.prev_head]
      · rw [if_neg hfront]
        refine hnext p List.mem_cons_self (Or.inr fun heq => ?_)
        exact hnodup.1 (heq ▸ List.mem_append_left _ (hrest.prev_mem hfront))
    rw [if_neg (List.cons_ne_nil p front)]
    refine ⟨rfl, hp, (hprev p List.mem_cons_self hne).trans hbefore, ?_⟩
    rw [hentry]
    refine ih hrest hq.2 (fun _ => hlink (List.cons_ne_nil p front)) ?_
      (fun b hb => hprev b (List.mem_cons_of_mem p hb))
    intro b hb hor
    refine hnext b (List.mem_cons_of_mem p hb) (Or.inr ?_)
    rcases hor with rfl | hb'
    · rw [hrest.prev_head]
      rintro rfl
      exact hnodup.1 hb
    · exact hb'

/-- Changing the links of one node alone does not take it out of the list. -/
theorem mem_of_agree (h : Linked next prev null before p l)
    (h' : Linked next' prev' null before' p l') (hagree : ∀ a ∈ l, a ≠ q → next' a = next a)
    (hq : q ∈ l) : q ∈ l' := by
  induction l generalizing before before' p l' with
  | nil => cases hq
  | cons a l ih =>
    obtain ⟨rfl, hnull, _, hrest⟩ := h
    cases l' with
    | nil => exact absurd h' hnull
    | cons b l' =>
      obtain ⟨rfl, _, _, hrest'⟩ := h'
      by_cases hpq : p = q
      · exact hpq ▸ List.mem_cons_self
      · have hmem := (List.mem_cons.mp hq).resolve_left (Ne.symm hpq)
        rw [hagree p List.mem_cons_self hpq] at hrest'
        exact List.mem_cons_of_mem p
          (ih hrest hrest' (fun c hc => hagree c (List.mem_cons_of_mem p hc)) hmem)

end Linked

end Heartix.DoublyLinked
