import Heartix.Lib.AssociationList
import Heartix.Printf.Text
import Heartix.Process.Arguments
import Mathlib.Data.List.Infix

/-!
The environment of a program. `environ` is NULL or an array of strings
`key=value` that ends with NULL. A string is the list of its bytes before the
terminating NUL. An access outside the array and the overflow of a counter have
no result.
-/

namespace Heartix.Stdlib

open AssociationList Printf Process

def INT_MAX : ℕ := 2 ^ 31 - 1

def equalsSign : UInt8 := '='.toUInt8

def bytes (s : String) : List UInt8 := s.toList.map Char.toUInt8

/-- `strncmp`. -/
def strncmp : List UInt8 → List UInt8 → ℕ → ℤ
  | _, _, 0 => 0
  | str_a, str_b, max + 1 =>
      let a := str_a.headD 0
      let b := str_b.headD 0
      if a = 0 ∧ b = 0 then 0
      else if a < b then -1
      else if b < a then 1
      else strncmp str_a.tail str_b.tail max

/-- A place of the array: NULL, the string it points to, or what `realloc` has
left there. -/
inductive Slot
  | null
  | entry (s : List UInt8)
  | wild
  deriving DecidableEq, Repr

abbrev Environ := Option (List Slot)

/-- A call of `setenv`, with what the allocations in it return: whether there is a
new array, and the content of the block for a new string. -/
structure Setenv where
  key : Option (List UInt8)
  val : Option (List UInt8)
  overwrite : ℤ
  calloc : Bool
  realloc : Bool
  malloc : Option Memory

def envKeyMatch (entry key : List UInt8) : Bool :=
  strncmp entry key key.length = 0 ∧ entry.getD key.length 0 = equalsSign

/-- The loop of `env_count`. -/
def envCount : List Slot → ℕ → Option ℕ
  | .null :: _, count => some count
  | .entry _ :: environ, count =>
      if count < INT_MAX then envCount environ (count + 1) else none
  | _, _ => none

/-- `env_ensure`: the array, if there is one now. -/
def envEnsure (calloc : Bool) : Environ → Environ
  | some environ => some environ
  | none => if calloc then some [.null] else none

/-- The first place below `count` whose string has the key. -/
def findKey (key : List UInt8) (count : ℕ) (environ : List Slot) : Option ℕ :=
  (environ.take count).findIdx? fun slot =>
    match slot with
    | .entry s => envKeyMatch s key
    | _ => false

/-- The array with another number of places. -/
def resize (environ : List Slot) (n : ℕ) : List Slot :=
  environ.take n ++ List.replicate (n - environ.length) .wild

/-- What `snprintf` writes into a new block of `total` bytes. -/
def newEntry (key val : List UInt8) (total : ℕ) (block : Memory) : Option (List UInt8) :=
  (vsnprintf (fun address => if address = 0 then key else val) block total (bytes "%s=%s")
    ⟨fun i => BitVec.ofNat 64 i, 0⟩).map fun (_, block) => cString ((List.range total).map block)

/-- `setenv` with a key that it accepts, on an array with `count` strings. -/
def setEntry (call : Setenv) (key val : List UInt8) (count : ℕ) (environ : List Slot) :
    Option (ℤ × Environ) :=
  let total := (key.length + 1 + val.length + 1) % 2 ^ 64
  match findKey key count environ with
  | some i =>
      if call.overwrite = 0 then some (0, some environ)
      else match call.malloc with
        | none => some (-1, some environ)
        | some block =>
            (newEntry key val total block).map fun entry =>
              (0, some (environ.set i (.entry entry)))
  | none =>
      if INT_MAX < count + 2 then none
      else if call.realloc = false then some (-1, some environ)
      else
        let resized := resize environ (count + 2)
        match call.malloc with
        | none => some (-1, some resized)
        | some block =>
            (newEntry key val total block).map fun entry =>
              (0, some ((resized.set count (.entry entry)).set (count + 1) .null))

/-- `setenv`. -/
def setenv (environ : Environ) (call : Setenv) : Option (ℤ × Environ) :=
  match call.key with
  | none => some (-1, environ)
  | some key =>
      if key = [] ∨ equalsSign ∈ key then some (-1, environ)
      else
        let val := call.val.getD []
        match envEnsure call.calloc environ with
        | none => some (-1, none)
        | some slots =>
            match envCount slots 0 with
            | none => none
            | some count => setEntry call key val count slots

def TERM : List UInt8 := bytes "TERM"

def defaultTerm (key : List UInt8) : Option (List UInt8) :=
  if key = TERM then some (bytes "vt100") else none

/-- The loop of `getenv`. -/
def getenvLoop (key : List UInt8) : List Slot → ℕ → Option (Option (List UInt8))
  | .null :: _, _ => some (defaultTerm key)
  | .entry s :: environ, i =>
      if envKeyMatch s key then some (some (s.drop (key.length + 1)))
      else if i < INT_MAX then getenvLoop key environ (i + 1)
      else none
  | _, _ => none

/-- `getenv`; the inner `none` is NULL. -/
def getenv (key : Option (List UInt8)) (environ : Environ) : Option (Option (List UInt8)) :=
  match key with
  | none => some none
  | some key =>
      if key = [] then some none
      else
        match environ with
        | none => some (defaultTerm key)
        | some environ => getenvLoop key environ 0

/-- The calls one after the other, with their return values. -/
def setenvAll : Environ → List Setenv → Option (List ℤ × Environ)
  | environ, [] => some ([], environ)
  | environ, call :: calls =>
      match setenv environ call with
      | none => none
      | some (r, environ) => (setenvAll environ calls).map fun (rs, t) => (r :: rs, t)

section Match

variable {key entry k v : List UInt8}

theorem strncmp_succ (str_a str_b : List UInt8) (max : ℕ) :
    strncmp str_a str_b (max + 1) =
      if str_a.headD 0 = 0 ∧ str_b.headD 0 = 0 then 0
      else if str_a.headD 0 < str_b.headD 0 then -1
      else if str_b.headD 0 < str_a.headD 0 then 1
      else strncmp str_a.tail str_b.tail max := rfl

theorem strncmp_eq_zero (hkey : 0 ∉ key) :
    strncmp entry key key.length = 0 ↔ key <+: entry := by
  induction key generalizing entry with
  | nil => exact iff_of_true rfl List.nil_prefix
  | cons b key ih =>
    obtain ⟨hb, hkey⟩ : 0 ≠ b ∧ 0 ∉ key := not_or.mp (mt List.mem_cons.mpr hkey)
    rw [List.length_cons, strncmp_succ, List.headD_cons, List.tail_cons,
      if_neg fun hend => hb hend.2.symm]
    cases entry with
    | nil =>
      have hless : (0 : UInt8) < b := UInt8.pos_iff_ne_zero.mpr (Ne.symm hb)
      rw [List.headD_nil, if_pos hless]
      refine iff_of_false (by decide) fun hfront => ?_
      exact List.cons_ne_nil b key (List.prefix_nil.mp hfront)
    | cons a entry =>
      rw [List.headD_cons, List.tail_cons, List.cons_prefix_cons]
      by_cases hless : a < b
      · rw [if_pos hless]
        exact iff_of_false (by decide) fun h => UInt8.lt_irrefl a (h.1 ▸ hless)
      · rw [if_neg hless]
        by_cases hgreater : b < a
        · rw [if_pos hgreater]
          exact iff_of_false (by decide) fun h => UInt8.lt_irrefl a (h.1 ▸ hgreater)
        · have hab : b = a :=
            UInt8.le_antisymm (UInt8.not_lt.mp hless) (UInt8.not_lt.mp hgreater)
          rw [if_neg hgreater, ih hkey]
          exact (and_iff_right hab).symm

/-- An entry has exactly one key, also where its value contains the sign. -/
theorem envKeyMatch_iff (hkey : 0 ∉ key) (hsign : equalsSign ∉ key) (hk : equalsSign ∉ k) :
    envKeyMatch (k ++ equalsSign :: v) key = true ↔ k = key := by
  unfold envKeyMatch
  rw [decide_eq_true_iff, strncmp_eq_zero hkey]
  constructor
  · rintro ⟨hfront, hequals⟩
    rcases List.prefix_or_prefix_of_prefix hfront (List.prefix_append k _) with h | h
    · obtain ⟨rest, rfl⟩ := h
      cases rest with
      | nil => exact List.append_nil key
      | cons c rest =>
        have hc : c = equalsSign := by simpa using hequals
        exact absurd (hc ▸ List.mem_append_right key List.mem_cons_self) hk
    · obtain ⟨rest, rfl⟩ := h
      cases rest with
      | nil => exact (List.append_nil k).symm
      | cons c rest =>
        have hc : c = equalsSign :=
          (List.cons_prefix_cons.mp (List.prefix_append_right_inj k |>.mp hfront)).1
        exact absurd (hc ▸ List.mem_append_right k List.mem_cons_self) hsign
  · rintro rfl
    refine ⟨List.prefix_append _ _, ?_⟩
    simp

end Match

/-- The string that holds a key and its value. -/
def entryOf (e : List UInt8 × List UInt8) : List UInt8 := e.1 ++ equalsSign :: e.2

/-- The array of some strings, whatever `realloc` has left behind its end. -/
def slotsOf (entries : List (List UInt8 × List UInt8)) (rest : List Slot) : List Slot :=
  entries.map (fun e => .entry (entryOf e)) ++ .null :: rest

section Slots

variable {entries : List (List UInt8 × List UInt8)} {rest : List Slot} {key : List UInt8}

theorem envCount_slotsOf {count : ℕ} (hroom : count + entries.length ≤ INT_MAX) :
    envCount (slotsOf entries rest) count = some (count + entries.length) := by
  induction entries generalizing count with
  | nil => rfl
  | cons e entries ih =>
    rw [List.length_cons] at hroom ⊢
    show (if count < INT_MAX then envCount (slotsOf entries rest) (count + 1) else none) = _
    rw [if_pos (by omega), ih (by omega), Nat.add_right_comm, Nat.add_assoc]

theorem envCount_eq {count n : ℕ} (h : envCount (slotsOf entries rest) count = some n) :
    n = count + entries.length := by
  induction entries generalizing count with
  | nil => exact (Option.some.inj h).symm
  | cons e entries ih =>
    change (if count < INT_MAX then envCount (slotsOf entries rest) (count + 1) else none) = _ at h
    split at h
    · rw [ih h, List.length_cons]
      omega
    · cases h

theorem findKey_slotsOf (hkey : 0 ∉ key) (hsign : equalsSign ∉ key)
    (hentries : ∀ e ∈ entries, equalsSign ∉ e.1) :
    findKey key entries.length (slotsOf entries rest) = entries.findIdx? (·.1 = key) := by
  unfold findKey slotsOf
  rw [List.take_append_of_le_length (by rw [List.length_map]),
    List.take_of_length_le (by rw [List.length_map]), List.findIdx?_map]
  induction entries with
  | nil => rfl
  | cons e entries ih =>
    have hmatch : envKeyMatch (entryOf e) key = decide (e.1 = key) := by
      rw [Bool.eq_iff_iff, decide_eq_true_iff]
      exact envKeyMatch_iff hkey hsign (hentries e List.mem_cons_self)
    rw [List.findIdx?_cons, List.findIdx?_cons,
      ih fun d hd => hentries d (List.mem_cons_of_mem e hd)]
    simp only [Function.comp_apply, hmatch]

/-- The place after the last string, and one more. -/
theorem resize_slotsOf (entries : List (List UInt8 × List UInt8)) (rest : List Slot) :
    ∃ slot, resize (slotsOf entries rest) (entries.length + 2) = slotsOf entries [slot] := by
  have hlength : (entries.map fun e => Slot.entry (entryOf e)).length = entries.length :=
    List.length_map _
  unfold resize slotsOf
  rw [← hlength, List.take_length_add_append, List.length_append]
  cases rest with
  | nil =>
    refine ⟨.wild, ?_⟩
    rw [List.append_assoc, show _ + 2 - (_ + [Slot.null].length) = 1 by
      rw [List.length_singleton]; omega]
    rfl
  | cons slot rest =>
    refine ⟨slot, ?_⟩
    rw [show _ + 2 - (_ + (Slot.null :: slot :: rest).length) = 0 by
      rw [List.length_cons, List.length_cons]; omega]
    exact List.append_nil _

theorem set_slotsOf_end {slot : Slot} (e : List UInt8 × List UInt8) :
    ((slotsOf entries [slot]).set entries.length (.entry (entryOf e))).set (entries.length + 1)
      .null = slotsOf (entries ++ [e]) [] := by
  have hlength : (entries.map fun e => Slot.entry (entryOf e)).length = entries.length :=
    List.length_map _
  unfold slotsOf
  rw [← hlength, List.set_append_right _ _ (Nat.le_refl _), Nat.sub_self,
    List.set_append_right _ _ (Nat.le_add_right _ 1), Nat.add_sub_cancel_left, List.map_append,
    List.append_assoc]
  rfl

theorem set_slotsOf {i : ℕ} (hi : i < entries.length) (e : List UInt8 × List UInt8) :
    (slotsOf entries rest).set i (.entry (entryOf e)) = slotsOf (entries.set i e) rest := by
  unfold slotsOf
  rw [List.set_append_left _ _ (by rwa [List.length_map]), List.map_set]

theorem getenvLoop_slotsOf {i : ℕ} (rest' : List Slot) :
    getenvLoop key (slotsOf entries rest) i = getenvLoop key (slotsOf entries rest') i := by
  induction entries generalizing i with
  | nil => rfl
  | cons e entries ih =>
    show (if envKeyMatch (entryOf e) key then some (some ((entryOf e).drop (key.length + 1)))
      else if i < INT_MAX then getenvLoop key (slotsOf entries rest) (i + 1) else none) = _
    rw [ih]
    rfl

theorem getenvLoop_lookup (hkey : 0 ∉ key) (hsign : equalsSign ∉ key)
    (hentries : ∀ e ∈ entries, equalsSign ∉ e.1) {i : ℕ} (hroom : i + entries.length ≤ INT_MAX) :
    getenvLoop key (slotsOf entries rest) i =
      some ((entries.lookup key).or (defaultTerm key)) := by
  induction entries generalizing i with
  | nil => rfl
  | cons e entries ih =>
    rw [List.length_cons] at hroom
    show (if envKeyMatch (entryOf e) key then some (some ((entryOf e).drop (key.length + 1)))
      else if i < INT_MAX then getenvLoop key (slotsOf entries rest) (i + 1) else none) = _
    have hmatch : envKeyMatch (entryOf e) key = true ↔ e.1 = key :=
      envKeyMatch_iff hkey hsign (hentries e List.mem_cons_self)
    by_cases he : e.1 = key
    · have hdrop : (entryOf e).drop (key.length + 1) = e.2 := by
        unfold entryOf
        rw [← he, ← List.drop_drop, List.drop_left]
        rfl
      rw [if_pos (hmatch.mpr he), hdrop, lookup_cons, if_pos he.symm]
      rfl
    · rw [if_neg (mt hmatch.mp he), if_pos (by omega), lookup_cons, if_neg (Ne.symm he),
        ih (fun d hd => hentries d (List.mem_cons_of_mem e hd)) (by omega)]

end Slots

end Heartix.Stdlib
