import Mathlib.Data.List.Nodup

/-!
A finite map kept as a list of pairs with distinct keys. Setting a key replaces
its pair where it stands or adds one at the end.
-/

namespace Heartix.AssociationList

variable {α β : Type*} {entries : List (α × β)} {key k : α} {val : β}

theorem nodup_append_new (h : (entries.map Prod.fst).Nodup) (hnew : key ∉ entries.map Prod.fst) :
    ((entries ++ [(key, val)]).map Prod.fst).Nodup := by
  rw [List.map_append, List.nodup_append]
  refine ⟨h, List.nodup_singleton key, ?_⟩
  rintro a ha b hb rfl
  have hkey : a = key := List.mem_singleton.mp hb
  exact hnew (hkey ▸ ha)

section Keys

variable [DecidableEq α]

/-- Replacing the pair of a key changes no key. -/
theorem keys_set {i : ℕ} (hi : entries.findIdx? (·.1 = key) = some i) :
    (entries.set i (key, val)).map Prod.fst = entries.map Prod.fst := by
  obtain ⟨hlt, hkey, -⟩ := List.findIdx?_eq_some_iff_getElem.mp hi
  have hfst : entries[i].1 = key := of_decide_eq_true hkey
  rw [List.map_set, ← hfst, ← List.getElem_map Prod.fst (h := by rwa [List.length_map]),
    List.set_getElem_self]

theorem not_mem_keys (h : entries.findIdx? (·.1 = key) = none) : key ∉ entries.map Prod.fst := by
  intro hmem
  obtain ⟨e, he, rfl⟩ := List.mem_map.mp hmem
  simpa using List.findIdx?_eq_none_iff.mp h e he

theorem mem_keys {i : ℕ} (h : entries.findIdx? (·.1 = key) = some i) :
    key ∈ entries.map Prod.fst := by
  obtain ⟨hlt, hkey, -⟩ := List.findIdx?_eq_some_iff_getElem.mp h
  exact List.mem_map.mpr ⟨entries[i], List.getElem_mem hlt, of_decide_eq_true hkey⟩

end Keys

section Lookup

variable [BEq α] [LawfulBEq α] [DecidableEq α]

theorem lookup_cons (e : α × β) (entries : List (α × β)) (k : α) :
    (e :: entries).lookup k = if k = e.1 then some e.2 else entries.lookup k := by
  rw [List.lookup_cons]
  by_cases hk : k = e.1
  · rw [if_pos hk, beq_iff_eq.mpr hk]
  · rw [if_neg hk, beq_eq_false_iff_ne.mpr hk]

theorem lookup_set {i : ℕ} (hi : entries.findIdx? (·.1 = key) = some i) (k : α) :
    (entries.set i (key, val)).lookup k = if k = key then some val else entries.lookup k := by
  induction entries generalizing i with
  | nil => cases hi
  | cons e entries ih =>
    rw [List.findIdx?_cons] at hi
    by_cases he : e.1 = key
    · rw [if_pos (decide_eq_true he)] at hi
      obtain rfl := Option.some.inj hi
      rw [List.set_cons_zero, lookup_cons, lookup_cons, he]
      by_cases hk : k = key
      · rw [if_pos hk, if_pos hk]
      · rw [if_neg hk, if_neg hk, if_neg hk]
    · rw [if_neg (by simpa using he)] at hi
      obtain ⟨j, hj, rfl⟩ := Option.map_eq_some_iff.mp hi
      rw [List.set_cons_succ, lookup_cons, lookup_cons, ih hj]
      by_cases hk : k = e.1
      · rw [if_pos hk, if_pos hk, if_neg (hk ▸ he)]
      · rw [if_neg hk, if_neg hk]

theorem lookup_append_new (hnew : key ∉ entries.map Prod.fst) (k : α) :
    (entries ++ [(key, val)]).lookup k = if k = key then some val else entries.lookup k := by
  induction entries with
  | nil => rw [List.nil_append, lookup_cons]
  | cons e entries ih =>
    obtain ⟨he, hnew⟩ : key ≠ e.1 ∧ key ∉ entries.map Prod.fst :=
      not_or.mp (mt List.mem_cons.mpr hnew)
    rw [List.cons_append, lookup_cons, lookup_cons, ih hnew]
    by_cases hk : k = e.1
    · rw [if_pos hk, if_pos hk, if_neg (hk ▸ he.symm)]
    · rw [if_neg hk, if_neg hk]

theorem lookup_ne_none_iff : entries.lookup k ≠ none ↔ k ∈ entries.map Prod.fst := by
  induction entries with
  | nil => simp
  | cons e entries ih =>
    rw [lookup_cons, List.map_cons, List.mem_cons, ← ih]
    by_cases hk : k = e.1
    · simp [hk]
    · simp [hk]

end Lookup

end Heartix.AssociationList
