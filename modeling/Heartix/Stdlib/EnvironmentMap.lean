import Heartix.Stdlib.Environment
import Mathlib.Data.Finset.Card

/-!
The environment as a finite map. A key that `setenv` accepts has one string in the
array, which `getenv` finds; the array may have grown without having got a string.
-/

namespace Heartix.Stdlib

open AssociationList Printf Process

/-- The three directives of the format. -/
theorem vcbprintf_entry (strings : BitVec 64 → List UInt8) (args : VaList) :
    ∃ result o, vcbprintf record [] strings (bytes "%s=%s") args = some (result, o) ∧
      o.sink.flatten = text (stringSites plainString (strings args.next)) ++
        equalsSign :: text (stringSites plainString (strings args.rest.next)) := by
  have hkey : directive strings (bytes "%s=%s") args =
    (.sites (stringSites plainString (strings args.next)), bytes "s=%s", args.rest) := rfl
  have hsign : directive strings (bytes "=%s") args.rest =
    (.sites [⟨[equalsSign], 1⟩], bytes "=%s", args.rest) := rfl
  have hval : directive strings (bytes "%s") args.rest =
    (.sites (stringSites plainString (strings args.rest.next)), bytes "s", args.rest.rest) := rfl
  obtain ⟨w₁, hfirst⟩ := vcbprintfLoop_sites 5 (.start []) hkey
  obtain ⟨w₂, hsecond⟩ := vcbprintfLoop_sites 4
    ⟨[] ++ (stringSites plainString (strings args.next)).map Site.chunk, w₁, []⟩ hsign
  obtain ⟨w₃, hthird⟩ := vcbprintfLoop_sites 3
    ⟨[] ++ (stringSites plainString (strings args.next)).map Site.chunk ++ [[equalsSign]], w₂, []⟩
    hval
  refine ⟨w₃, _, hfirst.trans (hsecond.trans hthird), ?_⟩
  dsimp only
  rw [List.flatten_append, List.flatten_append, List.nil_append, List.append_assoc,
    List.flatten_singleton, List.singleton_append]
  rfl

/-- `snprintf` with the two strings. -/
theorem newEntry_of {key val : List UInt8} {total : ℕ} {block content : Memory} {result : ℤ}
    (h : vsnprintf (fun address => if address = 0 then key else val) block total (bytes "%s=%s")
      ⟨fun i => BitVec.ofNat 64 i, 0⟩ = some (result, content)) :
    newEntry key val total block = some (cString ((List.range total).map content)) := by
  unfold newEntry
  rw [h, Option.map_some]

/-- `snprintf` writes the key, the sign and the value. -/
theorem newEntry_eq {key val : List UInt8} (hkey : key.length < 2 ^ 31) (hval : val.length < 2 ^ 31)
    (hk : 0 ∉ key) (hv : 0 ∉ val) (block : Memory) :
    newEntry key val ((key.length + 1 + val.length + 1) % 2 ^ 64) block =
      some (entryOf (key, val)) := by
  obtain ⟨result, o, heq, hflatten⟩ := vcbprintf_entry
    (fun address => if address = 0 then key else val) ⟨fun i => BitVec.ofNat 64 i, 0⟩
  have hfirst : (⟨fun i => BitVec.ofNat 64 i, 0⟩ : VaList).next = 0 := rfl
  have hsecond : (⟨fun i => BitVec.ofNat 64 i, 0⟩ : VaList).rest.next ≠ 0 := by
    decide
  have houtput : o.sink.flatten = entryOf (key, val) := by
    rw [hflatten, if_pos hfirst, if_neg hsecond, text_plainString hkey, text_plainString hval]
    rfl
  have hlength : key.length + 1 + val.length + 1 = (entryOf (key, val)).length + 1 := by
    show _ = (key ++ equalsSign :: val).length + 1
    rw [List.length_append, List.length_cons]
    omega
  have hsize : (key.length + 1 + val.length + 1) % 2 ^ 64 = o.sink.flatten.length + 1 := by
    rw [houtput, ← hlength]
    exact Nat.mod_eq_of_lt (by omega)
  have hclean : 0 ∉ entryOf (key, val) := by
    unfold entryOf
    rw [List.mem_append, List.mem_cons, not_or, not_or]
    exact ⟨hk, by decide, hv⟩
  rw [hsize, newEntry_of (vsnprintf_stored heq (by omega) block (o.sink.flatten.length + 1)),
    map_stored, houtput, cString_terminated hclean]

/-- The environment consists of these keys and values. -/
structure Holds (environ : Environ) (entries : List (List UInt8 × List UInt8)) : Prop where
  slots : (environ = none ∧ entries = []) ∨ ∃ rest, environ = some (slotsOf entries rest)
  nodup : (entries.map Prod.fst).Nodup
  keys : ∀ e ∈ entries, equalsSign ∉ e.1

/-- A call whose strings are shorter than the largest `int`. -/
structure Setenv.Short (call : Setenv) : Prop where
  key : ∀ key, call.key = some key → 0 ∉ key ∧ key.length < 2 ^ 31
  val : ∀ val, call.val = some val → 0 ∉ val ∧ val.length < 2 ^ 31

/-- What a call that returns `r` does to the map. -/
def takeEffect (call : Setenv) (r : ℤ) (m : List UInt8 → Option (List UInt8)) :
    List UInt8 → Option (List UInt8) :=
  match call.key with
  | none => m
  | some key =>
      if r = 0 ∧ (call.overwrite ≠ 0 ∨ m key = none) then
        Function.update m key (some (call.val.getD []))
      else m

section Holds

variable {environ t : Environ} {entries : List (List UInt8 × List UInt8)} {call : Setenv}

theorem Holds.getenv_eq (h : Holds environ entries) (ht : Holds t entries)
    (key : Option (List UInt8)) : getenv key t = getenv key environ := by
  have hempty (rest : List Slot) (key : List UInt8) :
      getenvLoop key (slotsOf [] rest) 0 = some (defaultTerm key) := rfl
  unfold getenv
  cases key with
  | none => rfl
  | some key =>
    dsimp only
    split
    · rfl
    · rcases h.slots with ⟨rfl, rfl⟩ | ⟨rest, rfl⟩
      · rcases ht.slots with ⟨rfl, -⟩ | ⟨rest', rfl⟩
        · rfl
        · exact hempty rest' key
      · rcases ht.slots with ⟨rfl, rfl⟩ | ⟨rest', rfl⟩
        · exact (hempty rest key).symm
        · exact getenvLoop_slotsOf rest

theorem Holds.getenv (h : Holds environ entries) (hroom : entries.length ≤ INT_MAX)
    {key : List UInt8} (hkey : 0 ∉ key) (hsign : equalsSign ∉ key) (hne : key ≠ [])
    (hterm : key ≠ TERM) : getenv (some key) environ = some (entries.lookup key) := by
  have hdefault : defaultTerm key = none := if_neg hterm
  unfold Stdlib.getenv
  dsimp only
  rw [if_neg hne]
  rcases h.slots with ⟨rfl, rfl⟩ | ⟨rest, rfl⟩
  · exact congrArg some hdefault
  · show getenvLoop key (slotsOf entries rest) 0 = _
    rw [getenvLoop_lookup hkey hsign h.keys (by omega), hdefault, Option.or_none]

theorem holds_start : Holds none [] where
  slots := Or.inl ⟨rfl, rfl⟩
  nodup := List.nodup_nil
  keys e he := by cases he

theorem Holds.envEnsure (h : Holds environ entries) (calloc : Bool) :
    (envEnsure calloc environ = none ∧ environ = none) ∨
      ∃ rest, envEnsure calloc environ = some (slotsOf entries rest) := by
  rcases h.slots with ⟨rfl, rfl⟩ | ⟨rest, rfl⟩
  · cases calloc with
    | false => exact Or.inl ⟨rfl, rfl⟩
    | true => exact Or.inr ⟨[], rfl⟩
  · exact Or.inr ⟨rest, rfl⟩

theorem setEntry_failed {key val : List UInt8} {rest : List Slot}
    (hcall : setEntry call key val entries.length (slotsOf entries rest) = some (-1, t)) :
    ∃ rest, t = some (slotsOf entries rest) := by
  have hdone {entry : Option (List UInt8)} {slots : List UInt8 → Environ}
      (h : (entry.map fun entry => ((0 : ℤ), slots entry)) = some (-1, t)) : False := by
    obtain ⟨_, _, heq⟩ := Option.map_eq_some_iff.mp h
    exact absurd (Prod.mk.inj heq).1 (by decide)
  unfold setEntry at hcall
  dsimp only at hcall
  split at hcall
  · split at hcall
    · exact absurd (Prod.mk.inj (Option.some.inj hcall)).1 (by decide)
    · split at hcall
      · exact ⟨rest, (Prod.mk.inj (Option.some.inj hcall)).2.symm⟩
      · exact (hdone hcall).elim
  · split at hcall
    · cases hcall
    · split at hcall
      · exact ⟨rest, (Prod.mk.inj (Option.some.inj hcall)).2.symm⟩
      · split at hcall
        · obtain ⟨slot, hresize⟩ := resize_slotsOf entries rest
          exact ⟨[slot], hresize ▸ (Prod.mk.inj (Option.some.inj hcall)).2.symm⟩
        · exact (hdone hcall).elim

/-- A failed call leaves the map as it is. -/
theorem Holds.setenv_failed (h : Holds environ entries)
    (hcall : setenv environ call = some (-1, t)) : Holds t entries := by
  unfold setenv at hcall
  split at hcall
  · obtain ⟨-, rfl⟩ := Prod.mk.inj (Option.some.inj hcall)
    exact h
  · split at hcall
    · obtain ⟨-, rfl⟩ := Prod.mk.inj (Option.some.inj hcall)
      exact h
    · dsimp only at hcall
      rcases h.envEnsure call.calloc with ⟨hensure, rfl⟩ | ⟨rest, hensure⟩
      · rw [hensure] at hcall
        obtain ⟨-, rfl⟩ := Prod.mk.inj (Option.some.inj hcall)
        exact h
      · rw [hensure] at hcall
        dsimp only at hcall
        split at hcall
        · cases hcall
        · rename_i count hcount
          obtain rfl : count = entries.length := by
            rw [envCount_eq hcount, Nat.zero_add]
          exact ⟨Or.inr (setEntry_failed hcall), h.nodup, h.keys⟩

theorem takeEffect_of {key : List UInt8} (hkey : call.key = some key) (r : ℤ)
    (m : List UInt8 → Option (List UInt8)) :
    takeEffect call r m =
      if r = 0 ∧ (call.overwrite ≠ 0 ∨ m key = none) then
        Function.update m key (some (call.val.getD []))
      else m := by
  unfold takeEffect
  rw [hkey]

theorem takeEffect_failed (call : Setenv) (m : List UInt8 → Option (List UInt8)) :
    takeEffect call (-1) m = m := by
  rcases hkey : call.key with _ | key
  · unfold takeEffect
    rw [hkey]
  · rw [takeEffect_of hkey, if_neg fun hzero => absurd hzero.1 (by decide)]

theorem Setenv.Short.newEntry (h : call.Short) {key : List UInt8} (hkey : call.key = some key)
    (block : Memory) :
    newEntry key (call.val.getD []) ((key.length + 1 + (call.val.getD []).length + 1) % 2 ^ 64)
      block = some (entryOf (key, call.val.getD [])) := by
  obtain ⟨hclean, hlength⟩ := h.key key hkey
  rcases hval : call.val with _ | val
  · exact newEntry_eq hlength (by decide) hclean List.not_mem_nil block
  · obtain ⟨hvalClean, hvalLength⟩ := h.val val hval
    exact newEntry_eq hlength hvalLength hclean hvalClean block

/-- What a call has done: the map is what the return value says. -/
def Done (call : Setenv) (key : List UInt8) (entries : List (List UInt8 × List UInt8))
    (result : Option (ℤ × Environ)) : Prop :=
  ∃ r t entries', result = some (r, t) ∧ Holds t entries' ∧
    entries'.map Prod.fst ⊆ key :: entries.map Prod.fst ∧
    (fun k => entries'.lookup k) = takeEffect call r fun k => entries.lookup k

theorem Holds.failed (h : Holds t entries) (key : List UInt8) :
    Done call key entries (some (-1, t)) :=
  ⟨-1, t, entries, rfl, h, List.subset_cons_self _ _, (takeEffect_failed call _).symm⟩

section Key

variable {key : List UInt8} {rest : List Slot}

/-- A key that is there: its string is replaced. -/
theorem Holds.setEntry_present (h : Holds (some (slotsOf entries rest)) entries)
    (hkey : call.key = some key) (hshort : call.Short) (hsign : equalsSign ∉ key) {i : ℕ}
    (hfind : entries.findIdx? (·.1 = key) = some i) :
    Done call key entries
      (setEntry call key (call.val.getD []) entries.length (slotsOf entries rest)) := by
  have hindex : findKey key entries.length (slotsOf entries rest) = some i :=
    (findKey_slotsOf (hshort.key key hkey).1 hsign h.keys).trans hfind
  have hsame : entries.map Prod.fst ⊆ key :: entries.map Prod.fst := List.subset_cons_self _ _
  unfold setEntry
  rw [hindex]
  dsimp only
  by_cases hoverwrite : call.overwrite = 0
  · rw [if_pos hoverwrite]
    refine ⟨0, _, entries, rfl, h, hsame, ?_⟩
    have hsome := lookup_ne_none_iff.mpr (mem_keys hfind)
    rw [takeEffect_of hkey, if_neg]
    rintro ⟨-, hne | hnone⟩
    · exact hne hoverwrite
    · exact hsome hnone
  · rw [if_neg hoverwrite]
    rcases hmalloc : call.malloc with _ | block
    · exact h.failed key
    · obtain ⟨hlt, -⟩ := List.findIdx?_eq_some_iff_getElem.mp hfind
      dsimp only
      rw [hshort.newEntry hkey block, Option.map_some, set_slotsOf hlt]
      refine ⟨0, _, entries.set i (key, call.val.getD []), rfl, ⟨Or.inr ⟨_, rfl⟩, ?_, ?_⟩, ?_, ?_⟩
      · rw [keys_set hfind]
        exact h.nodup
      · intro e he
        rcases List.mem_or_eq_of_mem_set he with he | rfl
        · exact h.keys e he
        · exact hsign
      · rw [keys_set hfind]
        exact hsame
      · rw [takeEffect_of hkey, if_pos ⟨rfl, Or.inl hoverwrite⟩]
        funext k
        rw [lookup_set hfind, Function.update_apply]

/-- A key that is not: the array grows, also where there is no block for the
string then. -/
theorem Holds.setEntry_absent (h : Holds (some (slotsOf entries rest)) entries)
    (hkey : call.key = some key) (hshort : call.Short) (hsign : equalsSign ∉ key)
    (hroom : entries.length + 2 ≤ INT_MAX) (hfind : entries.findIdx? (·.1 = key) = none) :
    Done call key entries
      (setEntry call key (call.val.getD []) entries.length (slotsOf entries rest)) := by
  have hindex : findKey key entries.length (slotsOf entries rest) = none :=
    (findKey_slotsOf (hshort.key key hkey).1 hsign h.keys).trans hfind
  have hnew := not_mem_keys hfind
  unfold setEntry
  rw [hindex]
  dsimp only
  rw [if_neg (Nat.not_lt.mpr hroom)]
  by_cases hrealloc : call.realloc = false
  · rw [if_pos hrealloc]
    exact h.failed key
  · rw [if_neg hrealloc]
    obtain ⟨slot, hresize⟩ := resize_slotsOf entries rest
    rw [hresize]
    rcases hmalloc : call.malloc with _ | block
    · have hgrown : Holds (some (slotsOf entries [slot])) entries :=
        ⟨Or.inr ⟨_, rfl⟩, h.nodup, h.keys⟩
      exact hgrown.failed key
    · dsimp only
      rw [hshort.newEntry hkey block, Option.map_some, set_slotsOf_end]
      refine ⟨0, _, entries ++ [(key, call.val.getD [])], rfl, ⟨Or.inr ⟨_, rfl⟩,
        nodup_append_new h.nodup hnew, ?_⟩, ?_, ?_⟩
      · intro e he
        rcases List.mem_append.mp he with he | he
        · exact h.keys e he
        · rw [List.mem_singleton.mp he]
          exact hsign
      · rw [List.map_append]
        exact List.append_subset.mpr ⟨List.subset_cons_self _ _,
          List.cons_subset_cons key (List.nil_subset _)⟩
      · have hnone : entries.lookup key = none := by
          by_contra hsome
          exact hnew (lookup_ne_none_iff.mp hsome)
        rw [takeEffect_of hkey, if_pos ⟨rfl, Or.inr hnone⟩]
        funext k
        rw [lookup_append_new hnew, Function.update_apply]

end Key

section Room

variable {K : Finset (List UInt8)}

theorem length_le_card (h : (entries.map Prod.fst).Nodup)
    (hsub : ∀ key ∈ entries.map Prod.fst, key ∈ K) : entries.length ≤ K.card := by
  rw [← List.length_map Prod.fst, ← List.toFinset_card_of_nodup h]
  exact Finset.card_le_card fun key hkey => hsub key (List.mem_toFinset.mp hkey)

/-- One call, while the counters have room for every key. -/
theorem Holds.setenv (h : Holds environ entries) (hsub : ∀ key ∈ entries.map Prod.fst, key ∈ K)
    (hshort : call.Short) (hcall : ∀ key, call.key = some key → key ∈ K)
    (hK : K.card + 1 ≤ INT_MAX) :
    ∃ r t entries', setenv environ call = some (r, t) ∧ Holds t entries' ∧
      (∀ key ∈ entries'.map Prod.fst, key ∈ K) ∧
      (fun k => entries'.lookup k) = takeEffect call r fun k => entries.lookup k := by
  have hrefused {t : Environ} (ht : Holds t entries) : ∃ r u entries',
      some ((-1 : ℤ), t) = some (r, u) ∧ Holds u entries' ∧
      (∀ key ∈ entries'.map Prod.fst, key ∈ K) ∧
      (fun k => entries'.lookup k) = takeEffect call r fun k => entries.lookup k :=
    ⟨-1, t, entries, rfl, ht, hsub, (takeEffect_failed call _).symm⟩
  unfold Stdlib.setenv
  rcases hkey : call.key with _ | key
  · exact hrefused h
  · dsimp only
    by_cases hbad : key = [] ∨ equalsSign ∈ key
    · rw [if_pos hbad]
      exact hrefused h
    · rw [if_neg hbad]
      have hsign : equalsSign ∉ key := fun hmem => hbad (Or.inr hmem)
      have hlength := length_le_card h.nodup hsub
      rcases h.envEnsure call.calloc with ⟨hensure, rfl⟩ | ⟨rest, hensure⟩
      · rw [hensure]
        exact hrefused h
      · rw [hensure]
        dsimp only
        rw [envCount_slotsOf (by omega), Nat.zero_add]
        dsimp only
        have hslots : Holds (some (slotsOf entries rest)) entries :=
          ⟨Or.inr ⟨rest, rfl⟩, h.nodup, h.keys⟩
        have hdone : Done call key entries
            (setEntry call key (call.val.getD []) entries.length (slotsOf entries rest)) := by
          rcases (entries.findIdx? (·.1 = key)).eq_none_or_eq_some with hfind | ⟨i, hfind⟩
          · have hnodup : (key :: entries.map Prod.fst).Nodup :=
              List.nodup_cons.mpr ⟨not_mem_keys hfind, h.nodup⟩
            have hcard : (key :: entries.map Prod.fst).length ≤ K.card := by
              rw [← List.toFinset_card_of_nodup hnodup]
              refine Finset.card_le_card fun k hk => ?_
              rcases List.mem_cons.mp (List.mem_toFinset.mp hk) with rfl | hk
              · exact hcall k hkey
              · exact hsub k hk
            rw [List.length_cons, List.length_map] at hcard
            exact hslots.setEntry_absent hkey hshort hsign (by omega) hfind
          · exact hslots.setEntry_present hkey hshort hsign hfind
        obtain ⟨r, t, entries', heq, ht, hkeys, hlookup⟩ := hdone
        refine ⟨r, t, entries', heq, ht, fun k hk => ?_, hlookup⟩
        rcases List.mem_cons.mp (hkeys hk) with rfl | hk
        · exact hcall k hkey
        · exact hsub k hk

/-- The calls one after the other. -/
theorem Holds.setenvAll {calls : List Setenv} (h : Holds environ entries)
    (hsub : ∀ key ∈ entries.map Prod.fst, key ∈ K) (hshort : ∀ call ∈ calls, call.Short)
    (hcalls : ∀ call ∈ calls, ∀ key, call.key = some key → key ∈ K)
    (hK : K.card + 1 ≤ INT_MAX) :
    ∃ rs t entries', setenvAll environ calls = some (rs, t) ∧ Holds t entries' ∧
      entries'.length ≤ K.card ∧
      (fun k => entries'.lookup k) =
        (calls.zip rs).foldl (fun m (call, r) => takeEffect call r m)
          fun k => entries.lookup k := by
  induction calls generalizing environ entries with
  | nil => exact ⟨[], environ, entries, rfl, h, length_le_card h.nodup hsub, rfl⟩
  | cons call calls ih =>
    obtain ⟨r, t, entries₁, hcall, ht, hsub₁, hlookup⟩ := h.setenv hsub
      (hshort call List.mem_cons_self) (hcalls call List.mem_cons_self) hK
    obtain ⟨rs, u, entries', hrest, hu, hlength, hfold⟩ := ih ht hsub₁
      (fun c hc => hshort c (List.mem_cons_of_mem call hc))
      (fun c hc => hcalls c (List.mem_cons_of_mem call hc))
    refine ⟨r :: rs, u, entries', ?_, hu, hlength, ?_⟩
    · unfold Stdlib.setenvAll
      rw [hcall]
      dsimp only
      rw [hrest]
      rfl
    · rw [hfold, hlookup]
      rfl

end Room

end Holds

/-- The values set last by calls with these return values. -/
def lastSet (calls : List Setenv) (rs : List ℤ) : List UInt8 → Option (List UInt8) :=
  (calls.zip rs).foldl (fun m (call, r) => takeEffect call r m) fun _ => none

/-- The array ends with NULL, and its strings have distinct keys. -/
def WellFormed (environ : Environ) : Prop :=
  ∀ slots, environ = some slots → ∃ (strings : List (List UInt8)) (rest : List Slot),
    slots = strings.map .entry ++ .null :: rest ∧
    (strings.map (·.takeWhile (· ≠ equalsSign))).Nodup ∧ ∀ s ∈ strings, equalsSign ∈ s

theorem Holds.wellFormed {environ : Environ} {entries : List (List UInt8 × List UInt8)}
    (h : Holds environ entries) : WellFormed environ := by
  rintro slots rfl
  rcases h.slots with ⟨hnone, -⟩ | ⟨rest, hsome⟩
  · cases hnone
  · refine ⟨entries.map entryOf, rest, ?_, ?_, ?_⟩
    · rw [Option.some.inj hsome, List.map_map]
      rfl
    · have hkeys : (entries.map entryOf).map (·.takeWhile (· ≠ equalsSign)) =
          entries.map Prod.fst := by
        rw [List.map_map]
        refine List.map_congr_left fun e he => ?_
        have hall : ∀ c ∈ e.1, decide (c ≠ equalsSign) = true := by
          intro c hc
          exact decide_eq_true fun heq => h.keys e he (heq ▸ hc)
        show (e.1 ++ equalsSign :: e.2).takeWhile (· ≠ equalsSign) = e.1
        rw [List.takeWhile_append_of_pos hall, List.takeWhile_cons_of_neg (by simp),
          List.append_nil]
      rw [hkeys]
      exact h.nodup
    · intro s hs
      obtain ⟨e, -, rfl⟩ := List.mem_map.mp hs
      exact List.mem_append_right e.1 List.mem_cons_self

/-- The environment is a finite map: after every sequence of calls a key without
the sign is found with the value that was set last for it, and a call that fails
changes what no key is found with. -/
theorem environment_is_map (calls : List Setenv) (hshort : ∀ call ∈ calls, call.Short)
    (hkeys : (calls.filterMap Setenv.key).toFinset.card ≤ 2 ^ 31 - 2) :
    ∃ rs t, setenvAll none calls = some (rs, t) ∧ WellFormed t ∧
      (∀ key, 0 ∉ key → equalsSign ∉ key → key ≠ [] → key ≠ TERM →
        getenv (some key) t = some (lastSet calls rs key)) ∧
      ∀ call u, setenv t call = some (-1, u) → ∀ key, getenv key u = getenv key t := by
  have hcalls : ∀ call ∈ calls, ∀ key, call.key = some key →
      key ∈ (calls.filterMap Setenv.key).toFinset := by
    intro call hcall key hkey
    exact List.mem_toFinset.mpr (List.mem_filterMap.mpr ⟨call, hcall, hkey⟩)
  have hroom : (calls.filterMap Setenv.key).toFinset.card + 1 ≤ INT_MAX := by
    unfold INT_MAX
    omega
  obtain ⟨rs, t, entries, heq, ht, hlength, hlookup⟩ := holds_start.setenvAll
    (fun key hkey => absurd hkey List.not_mem_nil) hshort hcalls hroom
  refine ⟨rs, t, heq, ht.wellFormed, ?_, ?_⟩
  · intro key hkey hsign hne hterm
    rw [ht.getenv (by omega) hkey hsign hne hterm]
    exact congrArg some (congrFun hlookup key)
  · intro call u hfailed key
    exact ht.getenv_eq (ht.setenv_failed hfailed) key

/-- The value of `A` is set to `B=C`. -/
def sampleCall : Setenv := ⟨some (bytes "A"), some (bytes "B=C"), 1, true, true, some fun _ => 0⟩

theorem short_sampleCall : ∀ call ∈ [sampleCall], call.Short := by
  intro call hcall
  rw [List.mem_singleton.mp hcall]
  constructor
  · intro key hkey
    obtain rfl := Option.some.inj hkey
    decide
  · intro val hval
    obtain rfl := Option.some.inj hval
    decide

theorem environment_is_map_sample :
    ∃ rs t, setenvAll none [sampleCall] = some (rs, t) ∧ WellFormed t ∧
      (∀ key, 0 ∉ key → equalsSign ∉ key → key ≠ [] → key ≠ TERM →
        getenv (some key) t = some (lastSet [sampleCall] rs key)) ∧
      ∀ call u, setenv t call = some (-1, u) → ∀ key, getenv key u = getenv key t :=
  environment_is_map [sampleCall] short_sampleCall (by decide)

/-- `getenv` finds a value for `A=B`, which no call has set. -/
theorem environment_key_with_sign :
    ¬ ∀ calls rs t, (∀ call ∈ calls, call.Short) → setenvAll none calls = some (rs, t) →
      ∀ key, 0 ∉ key → key ≠ [] → key ≠ TERM →
        getenv (some key) t = some (lastSet calls rs key) := by
  intro hall
  have hcall : setenvAll none [sampleCall] =
      some ([0], some [.entry (bytes "A=B=C"), .null]) := by
    decide +kernel
  have hget := hall _ _ _ short_sampleCall hcall (bytes "A=B") (by decide) (by decide) (by decide)
  exact absurd hget (by decide)

end Heartix.Stdlib
