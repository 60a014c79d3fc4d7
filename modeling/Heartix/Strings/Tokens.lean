import Heartix.Lib.MaximalRuns
import Heartix.Strings.Characters
import Mathlib.Logic.Function.Basic

/-!
`strtok_r` and `strtok`, with `strspn` and `strcspn`. The tokens of a string are
cut out of it in place: the delimiter behind a token becomes its terminator, and
what is kept between the calls is where the rest of the string begins. A call
changes one byte of its own string and its own pointer, so that iterations over
different strings do not see each other.
-/

namespace Heartix.Strings

open Occurrence MaximalRuns

def strspn : List UInt8 → List UInt8 → Option ℕ
  | [], _ => none
  | b :: str, chrs =>
      if b = 0 then some 0
      else
        match strchr chrs (charValue b) with
        | none => none
        | some none => some 0
        | some (some _) => (strspn str chrs).map (· + 1)

def strcspn : List UInt8 → List UInt8 → Option ℕ
  | [], _ => none
  | b :: str, chrs =>
      if b = 0 then some 0
      else
        match strchr chrs (charValue b) with
        | none => none
        | some (some _) => some 0
        | some none => (strcspn str chrs).map (· + 1)

/-- The memory, the variables of type `char*` by their address, and the static
variable of `strtok`. A NULL pointer is `none`. -/
structure Store where
  memory : List UInt8
  pointer : ℕ → Option ℕ
  g_strtok_next : Option ℕ

def Store.setPointer (p : Store) (a : ℕ) (value : Option ℕ) : Store :=
  { p with pointer := Function.update p.pointer a value }

@[simp] theorem Store.setPointer_self (p : Store) (a : ℕ) (value : Option ℕ) :
    (p.setPointer a value).pointer a = value := by
  unfold Store.setPointer
  exact Function.update_self a value p.pointer

theorem Store.setPointer_other (p : Store) {a b : ℕ} (value : Option ℕ) (hab : b ≠ a) :
    (p.setPointer a value).pointer b = p.pointer b := by
  unfold Store.setPointer
  exact Function.update_of_ne hab value p.pointer

@[simp] theorem Store.setPointer_memory (p : Store) (a : ℕ) (value : Option ℕ) :
    (p.setPointer a value).memory = p.memory :=
  rfl

/-- `strtok_r`: the pointer returned, or no result where the call would access
bytes outside of the memory. -/
def strtok_r (str delim saveptr : Option ℕ) (p : Store) : Option (Option ℕ × Store) :=
  match saveptr, delim with
  | some saveptr, some delim =>
      match str.or (p.pointer saveptr) with
      | none => some (none, p)
      | some str =>
          match strspn (p.memory.drop str) (p.memory.drop delim) with
          | none => none
          | some n =>
              let str := str + n
              match p.memory[str]? with
              | none => none
              | some b =>
                  if b = 0 then some (none, p.setPointer saveptr (some str))
                  else
                    match strcspn (p.memory.drop str) (p.memory.drop delim) with
                    | none => none
                    | some n =>
                        let token_end := str + n
                        match p.memory[token_end]? with
                        | none => none
                        | some b =>
                            if b = 0 then
                              some (some str, p.setPointer saveptr (some token_end))
                            else
                              let p := { p with memory := p.memory.set token_end 0 }
                              some (some str, p.setPointer saveptr (some (token_end + 1)))
  | _, _ => some (none, p)

/-- `strtok`. -/
def strtok (str delim : Option ℕ) (p : Store) : Option (Option ℕ × Store) :=
  match delim with
  | none => some (none, p)
  | some delim =>
      match str.or p.g_strtok_next with
      | none => some (none, p)
      | some str =>
          match strspn (p.memory.drop str) (p.memory.drop delim) with
          | none => none
          | some n =>
              let str := str + n
              match p.memory[str]? with
              | none => none
              | some b =>
                  if b = 0 then some (none, { p with g_strtok_next := none })
                  else
                    match strcspn (p.memory.drop str) (p.memory.drop delim) with
                    | none => none
                    | some n =>
                        let token_end := str + n
                        match p.memory[token_end]? with
                        | none => none
                        | some b =>
                            if b = 0 then some (some str, { p with g_strtok_next := none })
                            else
                              let p := { p with memory := p.memory.set token_end 0 }
                              some (some str, { p with g_strtok_next := some (token_end + 1) })

/-- An iteration: the string and the delimiters with their addresses, and the
address of the pointer that is kept between the calls. -/
structure Iteration where
  string : ℕ
  content : List UInt8
  delim : ℕ
  delimiters : List UInt8
  saveptr : ℕ
  content_terminated : 0 ∉ content
  delimiters_terminated : 0 ∉ delimiters

/-- The call after `m` calls of one iteration passes the string only if it is
the first one. -/
def Iteration.argument (x : Iteration) (m : ℕ) : Option ℕ := if m = 0 then some x.string else none

section Iterations

variable {ι : Type*} [DecidableEq ι]

/-- Calls of `strtok_r` for several iterations in the order of a schedule, with
the number of calls that each of them made before. -/
def strtokRCalls (iter : ι → Iteration) : List ι → (ι → ℕ) → Store →
    Option (List (ι × Option ℕ) × Store)
  | [], _, p => some ([], p)
  | x :: schedule, calls, p =>
      match strtok_r ((iter x).argument (calls x)) (some (iter x).delim)
        (some (iter x).saveptr) p with
      | none => none
      | some (token, p) =>
          match strtokRCalls iter schedule (Function.update calls x (calls x + 1)) p with
          | none => none
          | some (tokens, p) => some ((x, token) :: tokens, p)

end Iterations

/-- Some calls of `strtok` for one iteration. -/
def strtokCalls (x : Iteration) : ℕ → ℕ → Store → Option (List (Option ℕ) × Store)
  | 0, _, p => some ([], p)
  | n + 1, calls, p =>
      match strtok (x.argument calls) (some x.delim) p with
      | none => none
      | some (token, p) =>
          match strtokCalls x n (calls + 1) p with
          | none => none
          | some (tokens, p) => some (token :: tokens, p)

section Spans

variable {s chrs : List UInt8}

def inToken (chrs : List UInt8) (b : UInt8) : Bool := b ∉ chrs

theorem strspn_terminated (hs : 0 ∉ s) (hchrs : 0 ∉ chrs) (rest rest' : List UInt8) :
    strspn (s ++ 0 :: rest) (chrs ++ 0 :: rest') = some (skipped (inToken chrs) s) := by
  induction s with
  | nil => rfl
  | cons b s ih =>
    rw [List.mem_cons, not_or] at hs
    have hb : b ≠ 0 := fun h => hs.1 h.symm
    rw [List.cons_append, strspn, if_neg hb, strchr_charValue hchrs rest' b, skipped,
      List.findIdx_cons]
    by_cases hmem : b ∈ chrs
    · have htoken : inToken chrs b = false := decide_eq_false (not_not.2 hmem)
      rw [if_pos hmem, htoken, ih hs.2]
      rfl
    · have htoken : inToken chrs b = true := decide_eq_true hmem
      rw [if_neg hmem, htoken]
      rfl

theorem strcspn_terminated (hs : 0 ∉ s) (hchrs : 0 ∉ chrs) (rest rest' : List UInt8) :
    strcspn (s ++ 0 :: rest) (chrs ++ 0 :: rest') = some (taken (inToken chrs) s) := by
  induction s with
  | nil => rfl
  | cons b s ih =>
    rw [List.mem_cons, not_or] at hs
    have hb : b ≠ 0 := fun h => hs.1 h.symm
    rw [List.cons_append, strcspn, if_neg hb, strchr_charValue hchrs rest' b, taken,
      List.findIdx_cons]
    by_cases hmem : b ∈ chrs
    · have htoken : inToken chrs b = false := decide_eq_false (not_not.2 hmem)
      rw [if_pos hmem, htoken]
      rfl
    · have htoken : inToken chrs b = true := decide_eq_true hmem
      rw [if_neg hmem, htoken, ih hs.2]
      rfl

end Spans

section Held

variable {memory s : List UInt8} {a : ℕ}

/-- The memory holds a string with its terminator at an address. -/
def HoldsAt (memory : List UInt8) (a : ℕ) (s : List UInt8) : Prop :=
  ∀ i ≤ s.length, memory[a + i]? = (s ++ [0])[i]?

theorem HoldsAt.drop_eq (h : HoldsAt memory a s) : ∃ rest, memory.drop a = s ++ 0 :: rest := by
  have hprefix : s ++ [0] <+: memory.drop a := by
    rw [List.prefix_iff_getElem?]
    intro i hi
    rw [List.length_append, List.length_singleton] at hi
    rw [List.getElem?_drop, h i (by omega), List.getElem?_eq_getElem]
  obtain ⟨rest, hrest⟩ := hprefix
  refine ⟨rest, ?_⟩
  rw [← hrest, List.append_assoc]
  rfl

theorem HoldsAt.drop (h : HoldsAt memory a s) {k : ℕ} (hk : k ≤ s.length) :
    HoldsAt memory (a + k) (s.drop k) := by
  intro i hi
  rw [List.length_drop] at hi
  rw [Nat.add_assoc, h (k + i) (by omega), ← List.drop_append_of_le_length hk, List.getElem?_drop]

/-- A byte outside of the string does not matter. -/
theorem HoldsAt.set (h : HoldsAt memory a s) {e : ℕ} (he : e < a ∨ a + s.length < e)
    (b : UInt8) : HoldsAt (memory.set e b) a s := by
  intro i hi
  rw [List.getElem?_set_ne (by omega), h i hi]

/-- A terminator written into a string ends it there. -/
theorem HoldsAt.cut (h : HoldsAt memory a s) {n : ℕ} (hn : n ≤ s.length) :
    HoldsAt (memory.set (a + n) 0) a (s.take n) := by
  have hlt : a + n < memory.length := by
    have hwithin : n < (s ++ [0]).length := by
      rw [List.length_append, List.length_singleton]
      omega
    have hget := h n hn
    rw [List.getElem?_eq_getElem hwithin] at hget
    exact (List.getElem?_eq_some_iff.1 hget).1
  intro i hi
  rw [List.length_take, Nat.min_eq_left hn] at hi
  rcases Nat.lt_or_ge i n with hin | hge
  · have hlen : i < (s.take n).length := by
      rw [List.length_take]
      omega
    rw [List.getElem?_set_ne (by omega), h i (by omega), List.getElem?_append_left (by omega),
      List.getElem?_append_left hlen, List.getElem?_take_of_lt hin]
  · obtain rfl : i = n := by omega
    have hlen : (s.take i).length = i := by rw [List.length_take, Nat.min_eq_left hn]
    rw [List.getElem?_set_self hlt, List.getElem?_append_right (Nat.le_of_eq hlen), hlen,
      Nat.sub_self]
    rfl

end Held

end Heartix.Strings
