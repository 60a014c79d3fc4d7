import Heartix.Ramdisk.Writer
import Mathlib.Tactic.Tauto

/-!
The lines of `.rdignore`. A line excludes the paths with its end, the paths with its
beginning, or one path. The writer looks for the end of a path with a search from the
front, and for the star with one too.
-/

namespace Heartix.Ramdisk

/-- The line is a star and an end of the path. -/
def EndsIn (path ign : List UInt8) : Prop :=
  ∃ suffix, ign = star ++ suffix ∧ suffix <:+ path

/-- The line is a beginning of the path below the source, and a star. -/
def BeginsWith (basePath path ign : List UInt8) : Prop :=
  ∃ start rel, ign = start ++ star ∧ path = basePath ++ slash ++ rel ∧ start <+: rel

/-- The line is the path below the source. -/
def IsPath (basePath path ign : List UInt8) : Prop := path = basePath ++ slash ++ ign

/-- What a line says of a path. -/
def Excludes (basePath path ign : List UInt8) : Prop :=
  EndsIn path ign ∨ BeginsWith basePath path ign ∨ IsPath basePath path ign

/-- What stands behind the star comes in the path before its end too. -/
def Recurs (path ign : List UInt8) : Prop :=
  ∃ suffix front back, ign = star ++ suffix ∧ path = front ++ suffix ++ back ∧ back ≠ []

/-- There is another star before the last one. -/
def Starred (ign : List UInt8) : Prop := ∃ start, ign = start ++ star ∧ '*'.toUInt8 ∈ start

/-- A star and one character more than the path has. -/
def Overlong (path ign : List UInt8) : Prop :=
  ∃ part, ign = star ++ part ∧ part.length = path.length + 1

/-- The writer does not see that the line excludes the path. -/
def Overlooks (basePath path ign : List UInt8) : Prop :=
  (EndsIn path ign → Recurs path ign) ∧ (BeginsWith basePath path ign → Starred ign) ∧
    ¬ IsPath basePath path ign

section Find

variable {str part : List UInt8} {i : ℕ}

theorem find_eq_iff (hi : i ≤ str.length) (hsize : str.length < npos) :
    find str part = i ↔ part <+: str.drop i ∧ ∀ j < i, ¬ part <+: str.drop j := by
  unfold find
  cases hfind : (List.range (str.length + 1)).find? fun i => part.isPrefixOf (str.drop i) with
  | none =>
    have hnone := List.find?_eq_none.mp hfind i (List.mem_range.mpr (Nat.lt_succ_of_le hi))
    rw [List.isPrefixOf_iff_prefix] at hnone
    refine iff_of_false ?_ fun h => hnone h.1
    intro heq
    have hlarge : npos = i := heq
    omega
  | some k =>
    obtain ⟨hk, -, hfirst⟩ := List.find?_range_eq_some.mp hfind
    rw [Option.getD_some]
    have hbefore : ∀ j < k, ¬ part <+: str.drop j := by
      intro j hj hthere
      have hno := hfirst j hj
      rw [List.isPrefixOf_iff_prefix.mpr hthere] at hno
      cases hno
    constructor
    · intro heq
      rw [← heq]
      exact ⟨List.isPrefixOf_iff_prefix.mp hk, hbefore⟩
    · intro h
      rcases Nat.lt_trichotomy k i with hlt | heq | hgt
      · exact absurd (List.isPrefixOf_iff_prefix.mp hk) (h.2 k hlt)
      · exact heq
      · exact absurd h.1 (hbefore i hgt)

theorem find_le_or (str part : List UInt8) : find str part ≤ str.length ∨ find str part = npos := by
  unfold find
  cases hfind : (List.range (str.length + 1)).find? fun i => part.isPrefixOf (str.drop i) with
  | none =>
    right
    rfl
  | some k =>
    left
    obtain ⟨-, hk, -⟩ := List.find?_range_eq_some.mp hfind
    exact Nat.le_of_lt_succ (List.mem_range.mp hk)

/-- What is longer is not found. -/
theorem find_eq_npos (h : str.length < part.length) (hsize : str.length < npos) :
    find str part = npos := by
  rcases find_le_or str part with hle | heq
  · obtain ⟨hthere, -⟩ := (find_eq_iff hle hsize).mp rfl
    have hlength := hthere.length_le
    rw [List.length_drop] at hlength
    omega
  · exact heq

theorem find_eq_zero_iff (hsize : str.length < npos) : find str part = 0 ↔ part <+: str := by
  rw [find_eq_iff (Nat.zero_le _) hsize, List.drop_zero]
  constructor
  · intro h
    exact h.1
  · intro h
    exact ⟨h, fun j hj => absurd hj (Nat.not_lt_zero j)⟩

end Find

section Lines

variable {basePath path ign part : List UInt8}

theorem lengthSub_of_le {m n : ℕ} (h : n ≤ m) (hm : m < 2 ^ 63) : lengthSub m n = m - n := by
  unfold lengthSub
  rw [show m + 2 ^ 64 - n = m - n + 2 ^ 64 by omega, Nat.add_mod_right,
    Nat.mod_eq_of_lt (by omega)]

theorem lengthSub_of_lt {m n : ℕ} (h : m < n) (hn : n < 2 ^ 63) :
    lengthSub m n = 2 ^ 64 - (n - m) := by
  unfold lengthSub
  rw [show m + 2 ^ 64 - n = 2 ^ 64 - (n - m) by omega, Nat.mod_eq_of_lt (by omega)]

/-- A part at a place before the end. -/
theorem exists_before_iff (part path : List UInt8) :
    (∃ j < path.length - part.length, part <+: path.drop j) ↔
      ∃ front back, path = front ++ part ++ back ∧ back ≠ [] := by
  constructor
  · intro h
    obtain ⟨j, hj, back, hback⟩ := h
    refine ⟨path.take j, back, ?_, ?_⟩
    · rw [List.append_assoc, hback, List.take_append_drop]
    · intro hnil
      have hlength := congrArg List.length hback
      rw [hnil, List.append_nil, List.length_drop] at hlength
      omega
  · intro h
    obtain ⟨front, back, rfl, hback⟩ := h
    have hpositive := List.length_pos_of_ne_nil hback
    refine ⟨front.length, ?_, ?_⟩
    · rw [List.length_append, List.length_append]
      omega
    · rw [List.append_assoc, List.drop_left]
      exact List.prefix_append part back

/-- The search for the end of a path. -/
theorem find_suffix_iff (hpath : path.length < 2 ^ 63) (hpart : part.length < 2 ^ 63) :
    find path part = lengthSub path.length part.length ↔
      (part <:+ path ∧ ¬ ∃ front back, path = front ++ part ++ back ∧ back ≠ []) ∨
        part.length = path.length + 1 := by
  have hnpos : npos = 2 ^ 64 - 1 := rfl
  have hsize : path.length < npos := by
    omega
  by_cases hle : part.length ≤ path.length
  · rw [lengthSub_of_le hle hpath, find_eq_iff (Nat.sub_le _ _) hsize, ← exists_before_iff]
    have hend : part <+: path.drop (path.length - part.length) ↔ part <:+ path := by
      rw [List.suffix_iff_eq_drop]
      constructor
      · intro h
        apply h.eq_of_length
        rw [List.length_drop]
        omega
      · intro h
        exact ⟨[], (List.append_nil part).trans h⟩
    rw [hend]
    constructor
    · intro h
      left
      refine ⟨h.1, ?_⟩
      intro hearlier
      obtain ⟨j, hj, hthere⟩ := hearlier
      exact h.2 j hj hthere
    · intro h
      rcases h with ⟨hsuffix, hfirst⟩ | hlong
      · exact ⟨hsuffix, fun j hj hthere => hfirst ⟨j, hj, hthere⟩⟩
      · omega
  · have hlt : path.length < part.length := Nat.lt_of_not_le hle
    rw [find_eq_npos hlt hsize, lengthSub_of_lt hlt hpart, hnpos]
    constructor
    · intro h
      right
      omega
    · intro h
      rcases h with ⟨hsuffix, -⟩ | hlong
      · exact absurd hsuffix.length_le hle
      · omega

/-- The search for the star. -/
theorem find_star_front_iff (hign : ign.length < 2 ^ 63) :
    find ign star = 0 ↔ ∃ part, ign = star ++ part := by
  have hsize : ign.length < npos := Nat.lt_trans hign (by decide)
  rw [find_eq_zero_iff hsize]
  constructor
  · intro h
    obtain ⟨part, hpart⟩ := h
    exact ⟨part, hpart.symm⟩
  · intro h
    obtain ⟨part, hpart⟩ := h
    exact ⟨part, hpart.symm⟩

theorem find_star_back_iff (hne : ign ≠ []) (hign : ign.length < 2 ^ 63) :
    find ign star = lengthSub ign.length 1 ↔
      ∃ start, ign = start ++ star ∧ '*'.toUInt8 ∉ start := by
  have hone : star.length = 1 := rfl
  have hpositive := List.length_pos_of_ne_nil hne
  have hsearch : find ign star = lengthSub ign.length star.length ↔ _ :=
    find_suffix_iff hign (by decide)
  rw [hone] at hsearch
  rw [hsearch]
  constructor
  · intro h
    rcases h with ⟨⟨start, hstart⟩, hfirst⟩ | hlong
    · refine ⟨start, hstart.symm, ?_⟩
      intro hmem
      obtain ⟨front, back, hsplit⟩ := List.append_of_mem hmem
      apply hfirst
      refine ⟨front, back ++ star, ?_, List.append_ne_nil_of_right_ne_nil _ (by decide)⟩
      rw [← hstart, hsplit]
      simp [star]
    · omega
  · intro h
    obtain ⟨start, rfl, hstart⟩ := h
    left
    refine ⟨List.suffix_append start star, ?_⟩
    intro hearlier
    obtain ⟨front, back, heq, hback⟩ := hearlier
    apply hstart
    have hlast := List.dropLast_append_getLast hback
    have hsame : start = front ++ star ++ back.dropLast := by
      rw [← hlast, ← List.append_assoc] at heq
      exact (List.append_inj' heq rfl).1
    rw [hsame]
    simp [star]

/-- The searches for a star and an end of the path. -/
theorem skips_suffix_iff (hign : ign.length < 2 ^ 63) (hpath : path.length < 2 ^ 63) :
    find ign star = 0 ∧ find path (ign.drop 1) = lengthSub path.length (ign.drop 1).length ↔
      (EndsIn path ign ∧ ¬ Recurs path ign) ∨ Overlong path ign := by
  rw [find_star_front_iff hign]
  constructor
  · intro h
    obtain ⟨⟨part, rfl⟩, hfind⟩ := h
    have hshort : part.length < 2 ^ 63 := by
      rw [List.length_append] at hign
      omega
    rcases (find_suffix_iff hpath hshort).mp hfind with ⟨hsuffix, hfirst⟩ | hlong
    · left
      refine ⟨⟨part, rfl, hsuffix⟩, ?_⟩
      intro hrecurs
      obtain ⟨suffix, front, back, heq, hsplit⟩ := hrecurs
      obtain rfl : part = suffix := List.append_cancel_left heq
      exact hfirst ⟨front, back, hsplit⟩
    · right
      exact ⟨part, rfl, hlong⟩
  · intro h
    have hpart : ∃ part, ign = star ++ part ∧
        ((part <:+ path ∧ ¬ ∃ front back, path = front ++ part ++ back ∧ back ≠ []) ∨
          part.length = path.length + 1) := by
      rcases h with ⟨⟨suffix, heq, hsuffix⟩, hnot⟩ | ⟨part, heq, hlong⟩
      · refine ⟨suffix, heq, Or.inl ⟨hsuffix, ?_⟩⟩
        intro hearlier
        obtain ⟨front, back, hsplit⟩ := hearlier
        exact hnot ⟨suffix, front, back, heq, hsplit⟩
      · exact ⟨part, heq, Or.inr hlong⟩
    obtain ⟨part, rfl, hcase⟩ := hpart
    have hshort : part.length < 2 ^ 63 := by
      rw [List.length_append] at hign
      omega
    refine ⟨⟨part, rfl⟩, ?_⟩
    exact (find_suffix_iff hpath hshort).mpr hcase

/-- The searches for a beginning of the path and a star. -/
theorem skips_prefix_iff (hne : ign ≠ []) (hign : ign.length < 2 ^ 63)
    (hpath : path.length < 2 ^ 63) :
    find ign star = lengthSub ign.length 1 ∧
        find path (basePath ++ slash ++ ign.take (ign.length - 1)) = 0 ↔
      BeginsWith basePath path ign ∧ ¬ Starred ign := by
  have hsize : path.length < npos := Nat.lt_trans hpath (by decide)
  have hstart (start : List UInt8) :
      (start ++ star).take ((start ++ star).length - 1) = start := by
    rw [List.length_append]
    exact List.take_left
  have hsame {start other : List UInt8} (heq : start ++ star = other ++ star) : start = other :=
    List.append_cancel_right heq
  rw [find_star_back_iff hne hign, find_eq_zero_iff hsize]
  constructor
  · intro h
    obtain ⟨⟨start, rfl, hnot⟩, rel, hrel⟩ := h
    rw [hstart] at hrel
    refine ⟨⟨start, start ++ rel, rfl, ?_, List.prefix_append start rel⟩, ?_⟩
    · rw [← hrel, List.append_assoc]
    · intro hstarred
      obtain ⟨other, heq, hmem⟩ := hstarred
      rw [← hsame heq] at hmem
      exact hnot hmem
  · intro h
    obtain ⟨⟨start, rel, rfl, rfl, more, rfl⟩, hnot⟩ := h
    refine ⟨⟨start, rfl, fun hmem => hnot ⟨start, rfl, hmem⟩⟩, ?_⟩
    rw [hstart, ← List.append_assoc]
    exact List.prefix_append _ more

/-- What the writer excludes. -/
theorem skips_iff (hne : ign ≠ []) (hign : ign.length < 2 ^ 63) (hpath : path.length < 2 ^ 63) :
    skips basePath path ign = true ↔
      Excludes basePath path ign ∧ ¬ Overlooks basePath path ign ∨ Overlong path ign := by
  have hwhole : basePath ++ slash ++ ign = path ↔ IsPath basePath path ign := by
    unfold IsPath
    rw [eq_comm]
  unfold skips
  rw [decide_eq_true_iff, skips_suffix_iff hign hpath, skips_prefix_iff hne hign hpath, hwhole]
  unfold Excludes Overlooks
  tauto

end Lines

end Heartix.Ramdisk
