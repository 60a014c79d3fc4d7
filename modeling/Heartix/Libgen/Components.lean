import Heartix.Lib.Separator
import Heartix.Strings.Characters

/-!
`basename` and `dirname`. Both edit the path in place and return a pointer into
it or to the static buffer; an access outside the path has no result. A run of
slashes before the last component is cut at its last slash only, so that
`dirname` leaves the others in its result.
-/

namespace Heartix.Libgen

open Strings Occurrence Separator

def slash : UInt8 := '/'.toUInt8

def dot : UInt8 := '.'.toUInt8

/-- Where a result points: to `_statbuf`, with the text stored in it, or into the
path. -/
inductive Returned where
  | statbuf (text : List UInt8)
  | path (offset : ℕ)
  deriving DecidableEq, Repr

/-- The string that is found there. -/
def Returned.text : Returned → List UInt8 → Option (List UInt8)
  | statbuf text, _ => some text
  | path offset, memory => (strlen (memory.drop offset)).map (memory.drop offset).take

/-- The loop that overwrites trailing slashes. The number is `last + 1 - path`. -/
def trimLoop : ℕ → List UInt8 → Option (List UInt8)
  | 0, path => some path
  | last + 1, path =>
      match path[last]? with
      | none => none
      | some b => if b = slash then trimLoop last (path.set last 0) else some path

/-- What both functions begin with. They differ in what they make of the last
slash. -/
def split (onSlash : Option ℕ → List UInt8 → Option (Returned × List UInt8)) :
    Option (List UInt8) → Option (Returned × List UInt8)
  | none => some (.statbuf [dot], [])
  | some path =>
      match strlen path with
      | none => none
      | some 0 => some (.statbuf [dot], path)
      | some len =>
          match trimLoop len path with
          | none => none
          | some path =>
              if path[0]? = some 0 then some (.statbuf [slash], path)
              else
                match strrchr path (charValue slash) with
                | none => none
                | some rightmostSlash => onSlash rightmostSlash path

def basename : Option (List UInt8) → Option (Returned × List UInt8) :=
  split fun rightmostSlash path =>
    match rightmostSlash with
    | none => some (.path 0, path)
    | some rightmostSlash => some (.path (rightmostSlash + 1), path)

def dirname : Option (List UInt8) → Option (Returned × List UInt8) :=
  split fun rightmostSlash path =>
    match rightmostSlash with
    | none => some (.statbuf [dot], path)
    | some rightmostSlash =>
        -- the byte behind the only slash at the start, otherwise the slash itself
        let last := if rightmostSlash = 0 then 1 else rightmostSlash
        if last < path.length then some (.path 0, path.set last 0) else none

/-- A path without its trailing slashes. -/
def trimmed (path : List UInt8) : List UInt8 := path.rdropWhile (· = slash)

/-- What stands before the last component, its slashes included. -/
def front (path : List UInt8) : List UInt8 := (trimmed path).rdropWhile (· ≠ slash)

/-- The last component of a path. -/
def lastComponent (path : List UInt8) : List UInt8 :=
  if path = [] then [dot]
  else if trimmed path = [] then [slash]
  else (trimmed path).rtakeWhile (· ≠ slash)

/-- The parent of the last component. -/
def parent (path : List UInt8) : List UInt8 :=
  if path = [] then [dot]
  else if trimmed path = [] then [slash]
  else if front path = [] then [dot]
  else if trimmed (front path) = [] then [slash]
  else trimmed (front path)

/-- What the two functions should do with a path. -/
structure Decomposes (path : List UInt8) : Prop where
  basename : ∃ r memory, basename (some (path ++ [0])) = some (r, memory) ∧
    r.text memory = some (lastComponent path)
  dirname : ∃ r memory, dirname (some (path ++ [0])) = some (r, memory) ∧
    r.text memory = some (parent path)
  noSlash : ∀ r memory d, Libgen.dirname (some (path ++ [0])) = some (r, memory) →
    r.text memory = some d → d.getLast? = some slash → d = [slash]

/-- At most one slash stands before the last component, or exactly the two with
which the path begins. -/
def Separated (path : List UInt8) : Prop :=
  ((front path).rtakeWhile (· = slash)).length ≤ 1 ∨ front path = [slash, slash]

instance (path : List UInt8) : Decidable (Separated path) :=
  inferInstanceAs (Decidable (_ ∨ _))

section Trimming

variable {s rest : List UInt8}

theorem trimLoop_eq (s rest : List UInt8) :
    trimLoop s.length (s ++ rest) =
      some (trimmed s ++ List.replicate (s.length - (trimmed s).length) 0 ++ rest) := by
  induction s using List.reverseRecOn generalizing rest with
  | nil => rfl
  | append_singleton s b ih =>
    have hget : (s ++ [b] ++ rest)[s.length]? = some b := by
      simp
    rw [List.length_append, List.length_singleton, trimLoop, hget]
    by_cases hb : b = slash
    · have hset : (s ++ [b] ++ rest).set s.length 0 = s ++ 0 :: rest := by
        simp
      have htrim : trimmed (s ++ [b]) = trimmed s := List.rdropWhile_concat_pos _ _ _ (by simpa)
      have hle : (trimmed s).length ≤ s.length := (List.rdropWhile_prefix _ _).length_le
      have hcount : s.length + 1 - (trimmed s).length = s.length - (trimmed s).length + 1 := by
        omega
      simp only [if_pos hb]
      rw [hset, ih, htrim, hcount, List.replicate_succ', List.append_assoc, List.append_assoc,
        List.append_assoc]
      rfl
    · have htrim : trimmed (s ++ [b]) = s ++ [b] := List.rdropWhile_concat_neg _ _ _ (by simpa)
      simp only [if_neg hb]
      rw [htrim, List.length_append, List.length_singleton, Nat.sub_self]
      simp

theorem text_path {offset : ℕ} {memory s rest : List UInt8} (hs : 0 ∉ s)
    (h : memory.drop offset = s ++ 0 :: rest) :
    (Returned.path offset).text memory = some s := by
  rw [Returned.text, h, strlen_terminated hs, Option.map_some, List.take_left]

theorem mem_equalPlaces_slash {t : List UInt8} {i : ℕ} :
    i ∈ equalPlaces (t ++ [0]) (charValue slash) ↔ t[i]? = some slash := by
  rw [mem_equalPlaces]
  constructor
  · rintro ⟨b, hb, hc⟩
    obtain rfl := charValue_inj.mp hc
    rcases Nat.lt_or_ge i t.length with hlt | hge
    · rwa [List.getElem?_append_left hlt] at hb
    · rw [List.getElem?_append_right hge] at hb
      exact absurd (List.mem_of_getElem? hb) (by decide)
  · intro h
    refine ⟨slash, ?_, rfl⟩
    rw [List.getElem?_append_left (List.getElem?_eq_some_iff.mp h).1, h]

theorem strrchr_slash_none {t : List UInt8} (ht : 0 ∉ t) (hslash : slash ∉ t)
    (rest : List UInt8) : strrchr (t ++ 0 :: rest) (charValue slash) = some none := by
  obtain ⟨r, hr, hlast⟩ := strrchr_terminated ht rest (charValue slash)
  rw [hr]
  refine congrArg some (hlast.unique (LastOf.absent ?_))
  refine Set.eq_empty_of_forall_notMem fun i hi => hslash ?_
  exact List.mem_of_getElem? (mem_equalPlaces_slash.mp hi)

theorem strrchr_slash_some {h c : List UInt8} (ht : 0 ∉ h ++ slash :: c) (hc : slash ∉ c)
    (rest : List UInt8) :
    strrchr (h ++ slash :: c ++ 0 :: rest) (charValue slash) = some (some h.length) := by
  obtain ⟨r, hr, hlast⟩ := strrchr_terminated ht rest (charValue slash)
  rw [hr]
  refine congrArg some (hlast.unique (LastOf.found ⟨?_, fun i hi => ?_⟩))
  · rw [mem_equalPlaces_slash, List.getElem?_append_right le_rfl, Nat.sub_self]
    rfl
  · rw [mem_equalPlaces_slash] at hi
    by_contra hlt
    rw [List.getElem?_append_right (by omega)] at hi
    obtain ⟨n, hn⟩ : ∃ n, i - h.length = n + 1 := ⟨i - h.length - 1, by omega⟩
    rw [hn, List.getElem?_cons_succ] at hi
    exact hc (List.mem_of_getElem? hi)

end Trimming

section Splitting

variable {s : List UInt8}

theorem split_empty {onSlash : Option ℕ → List UInt8 → Option (Returned × List UInt8)} :
    split onSlash (some ([] ++ [0])) = some (.statbuf [dot], [0]) := rfl

/-- Behind the trimmed path are the terminators that replace the slashes. -/
theorem trimLoop_path (hne : s ≠ []) (hs : 0 ∉ s) : ∃ n rest,
    strlen (s ++ [0]) = some (n + 1) ∧
      trimLoop (n + 1) (s ++ [0]) = some (trimmed s ++ 0 :: rest) := by
  obtain ⟨n, hn⟩ := Nat.exists_eq_succ_of_ne_zero (List.length_pos_iff.mpr hne).ne'
  have htrim := trimLoop_eq s [0]
  rw [hn] at htrim
  refine ⟨n, List.replicate (n + 1 - (trimmed s).length) 0, ?_, ?_⟩
  · rw [strlen_terminated hs, hn]
  · rw [htrim, List.append_assoc, ← List.replicate_succ', List.replicate_succ]

theorem zero_notMem_trimmed (hs : 0 ∉ s) : 0 ∉ trimmed s :=
  fun hmem => hs ((List.rdropWhile_prefix _ _).mem hmem)

theorem split_slashes (hne : s ≠ []) (hs : 0 ∉ s) (htrim : trimmed s = []) :
    ∃ rest, ∀ onSlash, split onSlash (some (s ++ [0])) =
      some (.statbuf [slash], 0 :: rest) := by
  obtain ⟨n, rest, hlen, hloop⟩ := trimLoop_path hne hs
  rw [htrim, List.nil_append] at hloop
  refine ⟨rest, fun onSlash => ?_⟩
  simp only [split, hlen, hloop]
  rfl

theorem split_component (hs : 0 ∉ s) (htrim : trimmed s ≠ []) :
    ∃ rest, ∀ onSlash, split onSlash (some (s ++ [0])) =
      (strrchr (trimmed s ++ 0 :: rest) (charValue slash)).bind fun rightmostSlash =>
        onSlash rightmostSlash (trimmed s ++ 0 :: rest) := by
  have hne : s ≠ [] := by
    rintro rfl
    exact htrim rfl
  obtain ⟨n, rest, hlen, hloop⟩ := trimLoop_path hne hs
  refine ⟨rest, fun onSlash => ?_⟩
  have hfirst : (trimmed s ++ 0 :: rest)[0]? ≠ some 0 := by
    obtain ⟨b, t, hbt⟩ := List.exists_cons_of_ne_nil htrim
    rw [hbt]
    intro hzero
    obtain rfl : b = 0 := by simpa using hzero
    exact zero_notMem_trimmed hs (hbt ▸ List.mem_cons_self)
  simp only [split, hlen, hloop, if_neg hfirst]
  cases strrchr (trimmed s ++ 0 :: rest) (charValue slash) <;> rfl

end Splitting

section Results

variable {s : List UInt8}

/-- What the functions find in a path with a component: no slash, or the last one
and the component behind it. -/
theorem split_cases (hs : 0 ∉ s) (htrim : trimmed s ≠ []) :
    (front s = [] ∧ (trimmed s).rtakeWhile (· ≠ slash) = trimmed s ∧
      ∃ rest, ∀ onSlash, split onSlash (some (s ++ [0])) =
        onSlash none (trimmed s ++ 0 :: rest)) ∨
    ∃ h c rest, front s = h ++ [slash] ∧ (trimmed s).rtakeWhile (· ≠ slash) = c ∧
      trimmed s = h ++ slash :: c ∧
      ∀ onSlash, split onSlash (some (s ++ [0])) =
        onSlash (some h.length) (h ++ slash :: (c ++ 0 :: rest)) := by
  obtain ⟨rest, hsplit⟩ := split_component hs htrim
  have hzero := zero_notMem_trimmed hs
  rcases front_cases slash (trimmed s) with ⟨hnil, hnone, happend⟩ | ⟨h, hfront, hwhole⟩
  · refine .inl ⟨hnil, happend, rest, fun onSlash => ?_⟩
    rw [hsplit, strrchr_slash_none hzero hnone, Option.bind_some]
  · have hcomponent := separator_notMem_rest slash (trimmed s)
    generalize (trimmed s).rtakeWhile (· ≠ slash) = c at hwhole hcomponent
    refine .inr ⟨h, c, rest, hfront, rfl, hwhole, fun onSlash => ?_⟩
    rw [hsplit, hwhole, strrchr_slash_some (hwhole ▸ hzero) hcomponent, Option.bind_some,
      List.append_assoc, List.cons_append]

theorem basename_spec (hs : 0 ∉ s) : ∃ r memory,
    basename (some (s ++ [0])) = some (r, memory) ∧ r.text memory = some (lastComponent s) := by
  unfold lastComponent
  by_cases hne : s = []
  · subst hne
    exact ⟨_, _, split_empty, rfl⟩
  by_cases htrim : trimmed s = []
  · obtain ⟨rest, hsplit⟩ := split_slashes hne hs htrim
    rw [if_neg hne, if_pos htrim]
    exact ⟨_, _, hsplit _, rfl⟩
  rw [if_neg hne, if_neg htrim]
  have hzero := zero_notMem_trimmed hs
  rcases split_cases hs htrim with ⟨_, hall, rest, hsplit⟩ | ⟨h, c, rest, _, hc, hwhole, hsplit⟩
  · refine ⟨_, _, hsplit _, ?_⟩
    rw [hall]
    exact text_path hzero rfl
  · refine ⟨_, _, hsplit _, ?_⟩
    have hcomponent : 0 ∉ c := fun hmem => hzero (by simp [hwhole, hmem])
    have hdrop : (h ++ slash :: (c ++ 0 :: rest)).drop (h.length + 1) = c ++ 0 :: rest := by
      rw [← List.drop_drop, List.drop_left]
      rfl
    rw [hc]
    exact text_path hcomponent hdrop

/-- What `dirname` returns: a single slash is kept, otherwise only the last one of
the slashes before the component is removed. -/
def returned (path : List UInt8) : List UInt8 :=
  if path = [] then [dot]
  else if trimmed path = [] then [slash]
  else if front path = [] then [dot]
  else if front path = [slash] then [slash]
  else (front path).dropLast

theorem dirname_spec (hs : 0 ∉ s) : ∃ r memory,
    dirname (some (s ++ [0])) = some (r, memory) ∧ r.text memory = some (returned s) := by
  unfold returned
  by_cases hne : s = []
  · subst hne
    exact ⟨_, _, split_empty, rfl⟩
  by_cases htrim : trimmed s = []
  · obtain ⟨rest, hsplit⟩ := split_slashes hne hs htrim
    rw [if_neg hne, if_pos htrim]
    exact ⟨_, _, hsplit _, rfl⟩
  rw [if_neg hne, if_neg htrim]
  have hzero := zero_notMem_trimmed hs
  rcases split_cases hs htrim with
    ⟨hfront, _, rest, hsplit⟩ | ⟨h, c, rest, hfront, _, hwhole, hsplit⟩
  · rw [if_pos hfront]
    exact ⟨_, _, hsplit _, rfl⟩
  · have hfront_ne : front s ≠ [] := by
      rw [hfront]
      exact List.append_ne_nil_of_right_ne_nil h (List.cons_ne_nil _ _)
    rw [if_neg hfront_ne, hfront]
    cases h with
    | nil =>
      obtain ⟨b, tail, htail⟩ : ∃ b tail, c ++ 0 :: rest = b :: tail :=
        List.exists_cons_of_ne_nil (by simp)
      rw [htail] at hsplit
      refine ⟨.path 0, slash :: 0 :: tail, hsplit _, ?_⟩
      exact text_path (s := [slash]) (by decide) rfl
    | cons b h =>
      have hroom : (b :: h).length < (b :: h ++ slash :: (c ++ 0 :: rest)).length := by
        simp
      have hset : (b :: h ++ slash :: (c ++ 0 :: rest)).set (b :: h).length 0 =
          b :: h ++ 0 :: (c ++ 0 :: rest) := by
        simp
      have hpath : 0 ∉ b :: h := fun hmem => hzero (hwhole ▸ List.mem_append_left _ hmem)
      have hlast : (if (b :: h).length = 0 then 1 else (b :: h).length) = (b :: h).length :=
        if_neg (Nat.succ_ne_zero _)
      refine ⟨.path 0, b :: h ++ 0 :: (c ++ 0 :: rest), (hsplit _).trans ?_, ?_⟩
      · simp only [hlast]
        rw [if_pos hroom, hset]
      · rw [if_neg (by simp), List.dropLast_concat]
        exact text_path hpath rfl

theorem front_of_trimmed_nil (h : trimmed s = []) : front s = [] := by
  rw [front, h]
  rfl

theorem separated_of_front_nil (h : front s = []) : Separated s := by
  refine .inl ?_
  rw [h]
  exact Nat.zero_le _

/-- Removing one of the slashes that end a word, compared with removing them all. -/
theorem separated_iff_of_front {h : List UInt8} (hfront : front s = h ++ [slash]) :
    Separated s ↔ trimmed h = h ∨ h = [slash] := by
  have hrun : (front s).rtakeWhile (· = slash) = h.rtakeWhile (· = slash) ++ [slash] := by
    rw [hfront, List.rtakeWhile_concat_pos _ _ _ (by simp)]
  have hnone : h.rtakeWhile (· = slash) = [] ↔ trimmed h = h := by
    rw [List.rtakeWhile_eq_nil_iff, trimmed, List.rdropWhile_eq_self_iff]
  unfold Separated
  rw [hrun, List.length_append, List.length_singleton, ← hnone, ← List.length_eq_zero_iff, hfront]
  have htwo : h ++ [slash] = [slash] ++ [slash] ↔ h = [slash] := List.append_left_inj [slash]
  exact or_congr (by omega) htwo

/-- All slashes before the component are removed exactly when there is one at most,
or when one remains as the root. -/
theorem returned_eq_parent_iff (s : List UInt8) : returned s = parent s ↔ Separated s := by
  unfold returned parent
  by_cases hne : s = []
  · subst hne
    simp only [if_true, true_iff]
    exact separated_of_front_nil rfl
  by_cases htrim : trimmed s = []
  · simp only [if_neg hne, if_pos htrim, true_iff]
    exact separated_of_front_nil (front_of_trimmed_nil htrim)
  rcases front_cases slash (trimmed s) with ⟨hnil, _⟩ | ⟨h, hfront, _⟩
  · simp only [if_neg hne, if_neg htrim, if_pos (show front s = [] from hnil), true_iff]
    exact separated_of_front_nil hnil
  replace hfront : front s = h ++ [slash] := hfront
  have hfront_ne : front s ≠ [] := by
    rw [hfront]
    exact List.append_ne_nil_of_right_ne_nil h (List.cons_ne_nil _ _)
  have htrim_front : trimmed (front s) = trimmed h := by
    rw [hfront]
    exact List.rdropWhile_concat_pos _ _ _ (by simp)
  rw [separated_iff_of_front hfront]
  simp only [if_neg hne, if_neg htrim, if_neg hfront_ne, htrim_front]
  rw [hfront, List.dropLast_concat]
  by_cases hh : h = []
  · subst hh
    simp [trimmed]
  have hroot : ¬ h ++ [slash] = [slash] := by simpa using hh
  rw [if_neg hroot]
  by_cases hall : trimmed h = []
  · rw [if_pos hall, hall]
    exact ⟨.inr, fun hor => hor.resolve_left (Ne.symm hh)⟩
  · rw [if_neg hall]
    refine ⟨fun heq => .inl heq.symm, ?_⟩
    rintro (heq | rfl)
    · exact heq.symm
    · exact absurd rfl hall

/-- A parent without the slashes that end it ends in one only if it is the root. -/
theorem parent_slash {d : List UInt8} (h : d = parent s) (hlast : d.getLast? = some slash) :
    d = [slash] := by
  subst h
  unfold parent at hlast ⊢
  by_cases hne : s = []
  · rw [if_pos hne] at hlast
    exact absurd hlast (by decide)
  by_cases htrim : trimmed s = []
  · rw [if_neg hne, if_pos htrim]
  by_cases hfront : front s = []
  · rw [if_neg hne, if_neg htrim, if_pos hfront] at hlast
    exact absurd hlast (by decide)
  rw [if_neg hne, if_neg htrim, if_neg hfront] at hlast ⊢
  by_cases hroot : trimmed (front s) = []
  · rw [if_pos hroot]
  · have hlast_not := List.rdropWhile_last_not _ _ hroot
    rw [if_neg hroot, List.getLast?_eq_some_getLast hroot, Option.some.injEq] at hlast
    exact absurd (decide_eq_true hlast) hlast_not

end Results

/-- Where the path is separated, `basename` and `dirname` decompose it, and
nowhere else. -/
theorem decomposes_iff {s : List UInt8} (hs : 0 ∉ s) : Decomposes s ↔ Separated s := by
  obtain ⟨r, memory, hdirname, htext⟩ := dirname_spec hs
  rw [← returned_eq_parent_iff]
  constructor
  · intro h
    obtain ⟨r', memory', hdirname', htext'⟩ := h.dirname
    rw [hdirname] at hdirname'
    cases hdirname'
    exact Option.some.inj (htext.symm.trans htext')
  · intro heq
    refine ⟨basename_spec hs, ⟨r, memory, hdirname, htext.trans (congrArg some heq)⟩, ?_⟩
    intro r' memory' d hdirname' htext' hlast
    rw [hdirname] at hdirname'
    cases hdirname'
    exact parent_slash (Option.some.inj (htext'.symm.trans (htext.trans (congrArg some heq)))) hlast

theorem decomposes_iff_doubled :
    0 ∉ [97, slash, slash, 98] ∧
      (Decomposes [97, slash, slash, 98] ↔ Separated [97, slash, slash, 98]) :=
  ⟨by decide, decomposes_iff (by decide)⟩

/-- Of two slashes in the middle, one is left in the parent. -/
theorem dirname_doubled : ¬ Decomposes [97, slash, slash, 98] := by
  intro h
  obtain ⟨r, memory, hdirname, htext⟩ := h.dirname
  have hreturned : dirname (some [97, slash, slash, 98, 0]) =
      some (.path 0, [97, slash, 0, 98, 0]) := by decide
  cases hreturned.symm.trans hdirname
  exact absurd htext (by decide)

end Heartix.Libgen
