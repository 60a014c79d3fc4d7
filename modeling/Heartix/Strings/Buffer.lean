import Heartix.Strings.Memcpy
import Heartix.Strings.Tokens

/-!
The functions that write strings, on a memory with bounds. A buffer that they work on is
a variable for a string: each of them changes it as it is meant to, and nothing outside of
the buffer changes.
-/

namespace Heartix.Strings

open Overwrite

/-- `*dest = c`. -/
def store (dest : ℕ) (c : UInt8) (memory : List UInt8) : Option (List UInt8) :=
  if dest < memory.length then some (memory.set dest c) else none

/-- The loop of `strcpy` and what follows it. The first number bounds the rounds. -/
def strcpyLoop : ℕ → (dest src : ℕ) → List UInt8 → Option (ℕ × List UInt8)
  | 0, _, _, _ => none
  | fuel + 1, dest, src, memory =>
      match memory[src]? with
      | none => none
      | some c =>
          if c ≠ 0 then (store dest c memory).bind (strcpyLoop fuel (dest + 1) (src + 1))
          else (store dest 0 memory).map fun memory => (dest, memory)

/-- `strcpy`. It returns `dest` as its loop has left it. -/
def strcpy (dest src : ℕ) (memory : List UInt8) : Option (ℕ × List UInt8) :=
  strcpyLoop (memory.length + 1) dest src memory

def stpcpy (dest src : ℕ) (memory : List UInt8) : Option (ℕ × List UInt8) :=
  match strlen (memory.drop src) with
  | none => none
  | some len => (memcpy dest src (len + 1) memory).map fun memory => (dest + len, memory)

def strcat (dest src : ℕ) (memory : List UInt8) : Option (ℕ × List UInt8) :=
  match strlen (memory.drop dest) with
  | none => none
  | some len => (strcpy (dest + len) src memory).map fun (_, memory) => (dest, memory)

/-- The loop of `strncat` and what follows it. -/
def strncatLoop : (n d src : ℕ) → List UInt8 → Option (List UInt8)
  | 0, d, _, memory => store d 0 memory
  | n + 1, d, src, memory =>
      match memory[src]? with
      | none => none
      | some c =>
          if c ≠ 0 then (store d c memory).bind (strncatLoop n (d + 1) (src + 1))
          else store d 0 memory

def strncat (dest src n : ℕ) (memory : List UInt8) : Option (ℕ × List UInt8) :=
  match strlen (memory.drop dest) with
  | none => none
  | some len => (strncatLoop n (dest + len) src memory).map fun memory => (dest, memory)

/-- The second loop of `strncpy`. -/
def strncpyPad : (n dest : ℕ) → List UInt8 → Option (List UInt8)
  | 0, _, memory => some memory
  | n + 1, dest, memory => (store dest 0 memory).bind (strncpyPad n (dest + 1))

/-- The first loop of `strncpy`, and then the second one. -/
def strncpyLoop : (n dest src : ℕ) → List UInt8 → Option (List UInt8)
  | 0, _, _, memory => some memory
  | n + 1, dest, src, memory =>
      match memory[src]? with
      | none => none
      | some c =>
          if c ≠ 0 then (store dest c memory).bind (strncpyLoop n (dest + 1) (src + 1))
          else strncpyPad (n + 1) dest memory

def strncpy (dest src num : ℕ) (memory : List UInt8) : Option (ℕ × List UInt8) :=
  (strncpyLoop num dest src memory).map fun memory => (dest, memory)

/-- `strxfrm`. -/
def strxfrm (dest src num : ℕ) (memory : List UInt8) : Option (ℕ × List UInt8) :=
  match strncpy dest src num memory with
  | none => none
  | some (_, memory) => (strlen (memory.drop src)).map fun len => (len, memory)

section Writing

variable {memory s : List UInt8} {dest src n : ℕ}

theorem store_eq (h : dest < memory.length) (c : UInt8) :
    store dest c memory = some (memory.set dest c) := if_pos h

/-- A string and its terminator lie apart from a region. -/
def ApartFrom (dest n src : ℕ) (s : List UInt8) : Prop := src + s.length < dest ∨ dest + n ≤ src

theorem HoldsAt.first {c : UInt8} (h : HoldsAt memory src (c :: s)) : memory[src]? = some c :=
  h 0 (Nat.zero_le _)

theorem HoldsAt.end (h : HoldsAt memory src []) : memory[src]? = some 0 :=
  h 0 le_rfl

theorem HoldsAt.next {c : UInt8} (h : HoldsAt memory src (c :: s)) : HoldsAt memory (src + 1) s :=
  h.drop (Nat.succ_le_succ (Nat.zero_le _))

/-- The rest of the string while its first character is stored elsewhere. -/
theorem HoldsAt.stored {c : UInt8} (h : HoldsAt memory src (c :: s)) {n : ℕ} (hn : 0 < n)
    (hapart : ApartFrom dest n src (c :: s)) :
    HoldsAt (memory.set dest c) (src + 1) s ∧ ApartFrom (dest + 1) (n - 1) (src + 1) s := by
  unfold ApartFrom at hapart ⊢
  rw [List.length_cons] at hapart
  exact ⟨h.next.set (by omega) c, by omega⟩

theorem strcpyLoop_eq (hs : 0 ∉ s) (h : HoldsAt memory src s)
    (hapart : ApartFrom dest (s.length + 1) src s) (hroom : dest + s.length < memory.length)
    {fuel : ℕ} (hfuel : s.length < fuel) :
    strcpyLoop fuel dest src memory =
      some (dest + s.length, overwrite memory dest (s ++ [0])) := by
  obtain ⟨fuel, rfl⟩ := Nat.exists_eq_add_of_lt (Nat.zero_lt_of_lt hfuel)
  rw [Nat.zero_add] at hfuel ⊢
  induction s generalizing fuel dest src memory with
  | nil =>
    have hdest : dest < memory.length := hroom
    rw [strcpyLoop, h.end]
    dsimp only
    rw [if_neg (not_not.mpr rfl), store_eq hdest, List.nil_append, set_eq_overwrite hdest]
    rfl
  | cons c s ih =>
    rw [List.mem_cons, not_or] at hs
    rw [List.length_cons] at hroom hfuel
    obtain ⟨hnext, hrest⟩ := h.stored (Nat.succ_pos _) hapart
    obtain ⟨fuel, rfl⟩ := Nat.exists_eq_add_of_lt (Nat.lt_of_succ_lt_succ hfuel)
    rw [strcpyLoop, h.first]
    dsimp only
    rw [if_pos (Ne.symm hs.1), store_eq (by omega), Option.bind_some,
      ih hs.2 hnext hrest (by rw [List.length_set]; omega) _ (by omega),
      overwrite_set_front (by omega), List.length_cons]
    congr 2
    omega

theorem strncatLoop_eq (hs : 0 ∉ s) (h : HoldsAt memory src s)
    (hapart : ApartFrom dest ((s.take n).length + 1) src s)
    (hroom : dest + (s.take n).length < memory.length) :
    strncatLoop n dest src memory = some (overwrite memory dest (s.take n ++ [0])) := by
  induction n generalizing s dest src memory with
  | zero =>
    have hdest : dest < memory.length := hroom
    rw [strncatLoop, store_eq hdest, List.take_zero, List.nil_append, set_eq_overwrite hdest]
  | succ n ih =>
    cases s with
    | nil =>
      have hdest : dest < memory.length := hroom
      rw [strncatLoop, h.end]
      dsimp only
      rw [if_neg (not_not.mpr rfl), store_eq hdest, List.take_nil, List.nil_append,
        set_eq_overwrite hdest]
    | cons c s =>
      rw [List.mem_cons, not_or] at hs
      rw [List.take_succ_cons, List.length_cons] at hapart hroom
      obtain ⟨hnext, hrest⟩ := h.stored (Nat.succ_pos _) hapart
      rw [strncatLoop, h.first]
      dsimp only
      rw [if_pos (Ne.symm hs.1), store_eq (by omega), Option.bind_some,
        ih hs.2 hnext hrest (by rw [List.length_set]; omega), overwrite_set_front (by omega),
        List.take_succ_cons, List.cons_append]

theorem strncpyPad_eq (hroom : dest + n ≤ memory.length) :
    strncpyPad n dest memory = some (overwrite memory dest (List.replicate n 0)) := by
  induction n generalizing dest memory with
  | zero => rw [strncpyPad, List.replicate_zero, overwrite_nil]
  | succ n ih =>
    rw [strncpyPad, store_eq (by omega), Option.bind_some, ih (by rw [List.length_set]; omega),
      overwrite_set_front (by omega), List.replicate_succ]

theorem strncpyLoop_eq (hs : 0 ∉ s) (h : HoldsAt memory src s) (hapart : ApartFrom dest n src s)
    (hroom : dest + n ≤ memory.length) :
    strncpyLoop n dest src memory =
      some (overwrite memory dest (s.take n ++ List.replicate (n - s.length) 0)) := by
  induction n generalizing s dest src memory with
  | zero =>
    rw [strncpyLoop, List.take_zero, Nat.zero_sub, List.replicate_zero, List.append_nil,
      overwrite_nil]
  | succ n ih =>
    cases s with
    | nil =>
      rw [strncpyLoop, h.end]
      dsimp only
      rw [if_neg (not_not.mpr rfl), strncpyPad_eq hroom]
      rfl
    | cons c s =>
      rw [List.mem_cons, not_or] at hs
      obtain ⟨hnext, hrest⟩ := h.stored (Nat.succ_pos _) hapart
      rw [strncpyLoop, h.first]
      dsimp only
      rw [if_pos (Ne.symm hs.1), store_eq (by omega), Option.bind_some,
        ih hs.2 hnext hrest (by rw [List.length_set]; omega), overwrite_set_front (by omega),
        List.take_succ_cons, List.length_cons, Nat.add_sub_add_right, List.cons_append]

/-- What lies in front of the block is the old list. -/
theorem take_drop_overwrite {l block : List UInt8} {offset k m : ℕ} (hoffset : offset ≤ l.length)
    (hk : k + m ≤ offset) : ((overwrite l offset block).drop k).take m = (l.drop k).take m := by
  have hlen : (l.take offset).length = offset := by
    rw [List.length_take]
    omega
  rw [overwrite, List.append_assoc, List.drop_append_of_le_length (by omega),
    List.take_append_of_le_length (by rw [List.length_drop]; omega), List.drop_take, List.take_take,
    Nat.min_eq_left (by omega)]

/-- A word of a copy to a place behind the source, and the rest of it. -/
theorem assign_behind {size : ℕ} (happart : src + (n + size) ≤ dest)
    (hroom : dest + (n + size) ≤ memory.length) (f : List UInt8 → Option (List UInt8))
    (hf : ∀ m : List UInt8, m.length = memory.length →
      f m = some (overwrite m (dest + size) ((m.drop (src + size)).take n))) :
    (assign size dest src memory).bind f =
      some (overwrite memory dest ((memory.drop src).take (n + size))) := by
  have hlen : ((memory.drop src).take size).length = size := by
    rw [List.length_take, List.length_drop]
    omega
  have hjoin := overwrite_overwrite (b := (memory.drop (src + size)).take n)
    (show dest + ((memory.drop src).take size).length ≤ memory.length by omega)
  rw [hlen] at hjoin
  unfold assign
  rw [if_pos ⟨by omega, by omega⟩, Option.bind_some, hf _ (length_overwrite (by omega)),
    take_drop_overwrite (by omega) (by omega), hjoin, Nat.add_comm n size, List.take_add,
    List.drop_drop]

theorem memcpyBytes_behind (hbehind : src + n ≤ dest) (hroom : dest + n ≤ memory.length) :
    memcpyBytes dest src n memory = some (overwrite memory dest ((memory.drop src).take n)) := by
  induction n generalizing dest src memory with
  | zero => rw [memcpyBytes, List.take_zero, overwrite_nil]
  | succ n ih =>
    rw [memcpyBytes]
    exact assign_behind hbehind hroom _ fun m hm => ih (by omega) (by omega)

theorem memcpyHalfwords_behind (hbehind : src + n ≤ dest) (hroom : dest + n ≤ memory.length) :
    memcpyHalfwords dest src n memory =
      some (overwrite memory dest ((memory.drop src).take n)) := by
  induction n using Nat.strong_induction_on generalizing dest src memory with
  | _ n ih =>
    match n with
    | 0 | 1 =>
      unfold memcpyHalfwords
      exact memcpyBytes_behind hbehind hroom
    | n + 2 =>
      rw [memcpyHalfwords]
      exact assign_behind hbehind hroom _ fun m hm => ih n (by omega) (by omega) (by omega)

theorem memcpy_behind (hbehind : src + n ≤ dest) (hroom : dest + n ≤ memory.length) :
    memcpy dest src n memory = some (overwrite memory dest ((memory.drop src).take n)) := by
  induction n using Nat.strong_induction_on generalizing dest src memory with
  | _ n ih =>
    match n with
    | 0 | 1 | 2 | 3 =>
      unfold memcpy
      exact memcpyHalfwords_behind hbehind hroom
    | n + 4 =>
      rw [memcpy]
      exact assign_behind hbehind hroom _ fun m hm => ih n (by omega) (by omega) (by omega)

theorem memcpy_apart (hapart : src + n ≤ dest ∨ dest + n ≤ src) (hsrc : src + n ≤ memory.length)
    (hroom : dest + n ≤ memory.length) :
    memcpy dest src n memory = some (overwrite memory dest ((memory.drop src).take n)) := by
  rcases hapart with hbehind | hfront
  · exact memcpy_behind hbehind hroom
  · rw [memcpy_eq (by omega), simultaneous_eq hroom hsrc]

end Writing

/-- An operation on a buffer, with the address of its source. -/
inductive StringOp
  | strcpy (src : ℕ)
  | stpcpy (src : ℕ)
  | strcat (src : ℕ)
  | strncat (src n : ℕ)
  | strncpy (src n : ℕ)
  | strxfrm (src n : ℕ)

namespace StringOp

def src : StringOp → ℕ
  | strcpy src | stpcpy src | strcat src | strncat src _ | strncpy src _ | strxfrm src _ => src

/-- The call, with the buffer as its destination. -/
def call (dest : ℕ) : StringOp → List UInt8 → Option (ℕ × List UInt8)
  | strcpy src => Strings.strcpy dest src
  | stpcpy src => Strings.stpcpy dest src
  | strcat src => Strings.strcat dest src
  | strncat src n => Strings.strncat dest src n
  | strncpy src n => Strings.strncpy dest src n
  | strxfrm src n => Strings.strxfrm dest src n

/-- What the operation makes of the string `v`, and how many bytes of the buffer it
writes or needs. There may be no string afterwards where a copy has been cut. -/
def effect (v s : List UInt8) : StringOp → Option (List UInt8)
  | strcpy _ | stpcpy _ => some s
  | strcat _ => some (v ++ s)
  | strncat _ n => some (v ++ s.take n)
  | strncpy _ n | strxfrm _ n =>
      if s.length < n then some s
      else if n ≤ v.length then some (s.take n ++ v.drop n)
      else none

/-- The number of bytes that have to be in the buffer. -/
def needs (v s : List UInt8) : StringOp → ℕ
  | strcpy _ | stpcpy _ => s.length + 1
  | strcat _ => v.length + s.length + 1
  | strncat _ n => v.length + (s.take n).length + 1
  | strncpy _ n | strxfrm _ n => max n (v.length + 1)

/-- What is returned: the end of the string from two of the functions, the length of the
source from `strxfrm`, the buffer from the others. -/
def returns (dest : ℕ) (s : List UInt8) : StringOp → ℕ
  | strcpy _ | stpcpy _ => dest + s.length
  | strxfrm _ _ => s.length
  | _ => dest

end StringOp

/-- A buffer in a memory, and the string in it. Nothing else has changed. -/
structure Buffered (old : List UInt8) (dest size : ℕ) (v memory : List UInt8) : Prop where
  clean : 0 ∉ v
  holds : HoldsAt memory dest v
  fits : v.length < size
  length : memory.length = old.length
  outside : ∀ i, i < dest ∨ dest + size ≤ i → memory[i]? = old[i]?

/-- A source that the buffer does not touch. -/
structure Source (memory : List UInt8) (dest size src : ℕ) (s : List UInt8) : Prop where
  clean : 0 ∉ s
  holds : HoldsAt memory src s
  apart : ApartFrom dest size src s

section Steps

variable {old memory v s t pad block : List UInt8} {dest size src n k : ℕ}

/-- A front that is there, and a string written behind it. -/
theorem holdsAt_behind (hfront : ∀ i < v.length, memory[dest + i]? = v[i]?)
    (hroom : dest + v.length + (t ++ 0 :: pad).length ≤ memory.length) :
    HoldsAt (overwrite memory (dest + v.length) (t ++ 0 :: pad)) dest (v ++ t) := by
  intro i hi
  rw [List.length_append] at hi
  have hlen : (t ++ 0 :: pad).length = t.length + (pad.length + 1) := List.length_append
  rw [getElem?_overwrite hroom, List.append_assoc]
  rcases Nat.lt_or_ge i v.length with hlt | hge
  · rw [if_neg (by omega), List.getElem?_append_left hlt]
    exact hfront i hlt
  · have hsub : dest + i - (dest + v.length) = i - v.length := by omega
    rw [if_pos ⟨by omega, by omega⟩, List.getElem?_append_right hge, hsub]
    rcases Nat.lt_or_ge (i - v.length) t.length with hin | hend
    · rw [List.getElem?_append_left hin, List.getElem?_append_left hin]
    · have hzero : i - v.length - t.length = 0 := by omega
      rw [List.getElem?_append_right hend, List.getElem?_append_right hend, hzero]
      rfl

theorem HoldsAt.lt_length (h : HoldsAt memory dest v) : dest + v.length < memory.length := by
  have hget := h v.length le_rfl
  rw [List.getElem?_append_right le_rfl, Nat.sub_self] at hget
  exact (List.getElem?_eq_some_iff.mp hget).1

/-- A copy that is cut leaves the rest of a string that is not shorter. -/
theorem holdsAt_cut (h : HoldsAt memory dest v) (hblock : block.length ≤ v.length) :
    HoldsAt (overwrite memory dest block) dest (block ++ v.drop block.length) := by
  have hlength := h.lt_length
  intro i hi
  rw [List.length_append, List.length_drop] at hi
  rw [getElem?_overwrite (by omega), List.append_assoc]
  rcases Nat.lt_or_ge i block.length with hlt | hge
  · rw [if_pos ⟨by omega, by omega⟩, List.getElem?_append_left hlt, Nat.add_sub_cancel_left]
  · rw [if_neg (by omega), List.getElem?_append_right hge, h i (by omega),
      ← List.drop_append_of_le_length hblock, List.getElem?_drop]
    congr 1
    omega

theorem Source.moved (h : Source memory dest size src s) {after : List UInt8}
    (houtside : ∀ i, i < dest ∨ dest + size ≤ i → after[i]? = memory[i]?) :
    Source after dest size src s := by
  refine ⟨h.clean, fun i hi => ?_, h.apart⟩
  have hapart := h.apart
  unfold ApartFrom at hapart
  rw [houtside _ (by omega)]
  exact h.holds i hi

/-- A block written into the buffer, with what is there afterwards. -/
theorem Buffered.written (h : Buffered old dest size v memory) (hsize : dest + size ≤ old.length)
    (hblock : k + block.length ≤ size) {w : List UInt8} (hclean : 0 ∉ w) (hw : w.length < size)
    (hholds : HoldsAt (overwrite memory (dest + k) block) dest w) :
    Buffered old dest size w (overwrite memory (dest + k) block) := by
  have hroom : dest + k + block.length ≤ memory.length := by
    rw [h.length]
    omega
  refine ⟨hclean, hholds, hw, (length_overwrite hroom).trans h.length, fun i hi => ?_⟩
  rw [getElem?_overwrite hroom, if_neg (by omega)]
  exact h.outside i hi

theorem Buffered.strlen (h : Buffered old dest size v memory) :
    Strings.strlen (memory.drop dest) = some v.length := by
  obtain ⟨rest, hrest⟩ := h.holds.drop_eq
  rw [hrest, strlen_terminated h.clean]

theorem Source.strlen (h : Source memory dest size src s) :
    Strings.strlen (memory.drop src) = some s.length := by
  obtain ⟨rest, hrest⟩ := h.holds.drop_eq
  rw [hrest, strlen_terminated h.clean]

theorem Source.apart_of_le (h : Source memory dest size src s) (hn : k + n ≤ size) :
    ApartFrom (dest + k) n src s := by
  have hapart := h.apart
  unfold ApartFrom at hapart ⊢
  omega

/-- A string written behind a front of the one in the buffer. -/
theorem Buffered.behind (h : Buffered old dest size v memory) (hsize : dest + size ≤ old.length)
    {front : List UInt8} (hfront : front <+: v) (hclean : 0 ∉ t)
    (hfit : front.length + (t ++ 0 :: pad).length ≤ size) :
    Buffered old dest size (front ++ t)
      (overwrite memory (dest + front.length) (t ++ 0 :: pad)) := by
  have hlen : (t ++ 0 :: pad).length = t.length + (pad.length + 1) := List.length_append
  have hroom : dest + front.length + (t ++ 0 :: pad).length ≤ memory.length := by
    rw [h.length]
    omega
  have hclean' : 0 ∉ front ++ t := by
    rw [List.mem_append, not_or]
    exact ⟨fun hmem => h.clean (hfront.subset hmem), hclean⟩
  have hfrontHolds : ∀ i < front.length, memory[dest + i]? = front[i]? := by
    intro i hi
    have hle := hfront.length_le
    obtain ⟨more, rfl⟩ := hfront
    rw [h.holds i (by omega), List.append_assoc, List.getElem?_append_left hi]
  exact h.written hsize hfit hclean' (by rw [List.length_append]; omega)
    (holdsAt_behind hfrontHolds hroom)

/-- A copy that ends before the string in the buffer does. -/
theorem Buffered.cut (h : Buffered old dest size v memory) (hsize : dest + size ≤ old.length)
    (hclean : 0 ∉ block) (hblock : block.length ≤ v.length) :
    Buffered old dest size (block ++ v.drop block.length) (overwrite memory dest block) := by
  have hfits := h.fits
  have hclean' : 0 ∉ block ++ v.drop block.length := by
    rw [List.mem_append, not_or]
    exact ⟨hclean, fun hmem => h.clean (List.mem_of_mem_drop hmem)⟩
  have hlength : (block ++ v.drop block.length).length < size := by
    rw [List.length_append, List.length_drop]
    omega
  exact h.written (k := 0) hsize (by omega) hclean' hlength (holdsAt_cut h.holds hblock)

/-- `strncpy` into the buffer, as far as there is a string afterwards. -/
theorem Buffered.strncpy (h : Buffered old dest size v memory) (hsize : dest + size ≤ old.length)
    (hsource : Source memory dest size src s) (hneeds : n ≤ size) {w : List UInt8}
    (hw : (if s.length < n then some s
      else if n ≤ v.length then some (s.take n ++ v.drop n) else none) = some w) :
    ∃ after, Strings.strncpy dest src n memory = some (dest, after) ∧
      Buffered old dest size w after := by
  have hapart : ApartFrom dest n src s := hsource.apart_of_le (k := 0) (by omega)
  have hloop := strncpyLoop_eq hsource.clean hsource.holds hapart
    (show dest + n ≤ memory.length by rw [h.length]; omega)
  unfold Strings.strncpy
  rw [hloop]
  refine ⟨_, rfl, ?_⟩
  split at hw
  · next hlong =>
    obtain rfl := Option.some.inj hw
    obtain ⟨m, hm⟩ := Nat.exists_eq_add_of_lt hlong
    have hpad : n - s.length = m + 1 := by omega
    rw [List.take_of_length_le hlong.le, hpad, List.replicate_succ]
    refine h.behind hsize List.nil_prefix hsource.clean ?_
    rw [List.length_nil, List.length_append, List.length_cons, List.length_replicate]
    omega
  · next hshort =>
    split at hw
    · next hle =>
      obtain rfl := Option.some.inj hw
      have hpad : n - s.length = 0 := by omega
      have hlen : (s.take n).length = n := List.length_take_of_le (by omega)
      have hclean : 0 ∉ s.take n := fun hmem => hsource.clean (List.mem_of_mem_take hmem)
      have hcut := h.cut hsize hclean (by omega)
      rw [hpad, List.replicate_zero, List.append_nil]
      rwa [hlen] at hcut
    · cases hw

/-- An operation on the buffer, if it has room. -/
theorem Buffered.call (h : Buffered old dest size v memory) (hsize : dest + size ≤ old.length)
    (op : StringOp) (hsource : Source memory dest size op.src s) (hneeds : op.needs v s ≤ size)
    {w : List UInt8} (hw : op.effect v s = some w) :
    ∃ after, op.call dest memory = some (op.returns dest s, after) ∧
      Buffered old dest size w after := by
  have hlength := h.length
  have hheld := hsource.holds.lt_length
  cases op with
  | strcpy src =>
    obtain rfl := Option.some.inj hw
    have hfit : s.length + 1 ≤ size := hneeds
    have hapart : ApartFrom dest (s.length + 1) src s := hsource.apart_of_le (k := 0) (by omega)
    have hloop : strcpyLoop (memory.length + 1) dest src memory = _ :=
      strcpyLoop_eq hsource.clean hsource.holds hapart (by omega) (by omega)
    refine ⟨_, hloop, h.behind hsize List.nil_prefix hsource.clean ?_⟩
    rw [List.length_nil, List.length_append, List.length_singleton]
    omega
  | stpcpy src =>
    obtain rfl := Option.some.inj hw
    have hfit : s.length + 1 ≤ size := hneeds
    change Source memory dest size src s at hsource
    change src + s.length < memory.length at hheld
    have hapart := hsource.apart
    unfold ApartFrom at hapart
    have hcopy : memcpy dest src (s.length + 1) memory = _ :=
      memcpy_apart (by omega) (by omega) (by omega)
    obtain ⟨rest, hrest⟩ := hsource.holds.drop_eq
    have htake : (memory.drop src).take (s.length + 1) = s ++ [0] := by
      rw [hrest, List.take_length_add_append]
      rfl
    rw [htake] at hcopy
    refine ⟨overwrite memory dest (s ++ [0]), ?_,
      h.behind hsize List.nil_prefix hsource.clean ?_⟩
    · show Strings.stpcpy dest src memory = _
      unfold Strings.stpcpy
      rw [hsource.strlen]
      dsimp only
      rw [hcopy]
      rfl
    · rw [List.length_nil, List.length_append, List.length_singleton]
      omega
  | strcat src =>
    obtain rfl := Option.some.inj hw
    have hfit : v.length + s.length + 1 ≤ size := hneeds
    have hapart : ApartFrom (dest + v.length) (s.length + 1) src s :=
      hsource.apart_of_le (by omega)
    have hloop : strcpyLoop (memory.length + 1) (dest + v.length) src memory = _ :=
      strcpyLoop_eq hsource.clean hsource.holds hapart (by omega) (by omega)
    refine ⟨overwrite memory (dest + v.length) (s ++ [0]), ?_,
      h.behind hsize (List.prefix_refl v) hsource.clean ?_⟩
    · show Strings.strcat dest src memory = _
      unfold Strings.strcat Strings.strcpy
      rw [h.strlen]
      dsimp only
      rw [hloop]
      rfl
    · rw [List.length_append, List.length_singleton]
      omega
  | strncat src n =>
    obtain rfl := Option.some.inj hw
    have hfit : v.length + (s.take n).length + 1 ≤ size := hneeds
    change Source memory dest size src s at hsource
    have hapart : ApartFrom (dest + v.length) ((s.take n).length + 1) src s :=
      hsource.apart_of_le (by omega)
    have hloop := strncatLoop_eq hsource.clean hsource.holds hapart (by omega)
    have hclean : 0 ∉ s.take n := fun hmem => hsource.clean (List.mem_of_mem_take hmem)
    refine ⟨overwrite memory (dest + v.length) (s.take n ++ [0]), ?_,
      h.behind hsize (List.prefix_refl v) hclean ?_⟩
    · show Strings.strncat dest src n memory = _
      unfold Strings.strncat
      rw [h.strlen]
      dsimp only
      rw [hloop]
      rfl
    · rw [List.length_append, List.length_singleton]
      omega
  | strncpy src n =>
    have hfit : max n (v.length + 1) ≤ size := hneeds
    exact h.strncpy hsize hsource (by omega) hw
  | strxfrm src n =>
    have hfit : max n (v.length + 1) ≤ size := hneeds
    change Source memory dest size src s at hsource
    obtain ⟨after, hcopy, hbuffer⟩ := h.strncpy hsize hsource (by omega) hw
    -- the source is still there to be measured
    have hsame : Source after dest size src s := hsource.moved fun i hi =>
      (hbuffer.outside i hi).trans (h.outside i hi).symm
    refine ⟨after, ?_, hbuffer⟩
    show Strings.strxfrm dest src n memory = _
    unfold Strings.strxfrm
    rw [hcopy]
    dsimp only
    rw [hsame.strlen]
    rfl

end Steps

section Runs

/-- The calls one after the other, with what they return. -/
def calls (dest : ℕ) : List StringOp → List UInt8 → Option (List ℕ × List UInt8)
  | [], memory => some ([], memory)
  | op :: ops, memory =>
      match op.call dest memory with
      | none => none
      | some (r, memory) => (calls dest ops memory).map fun (rs, memory) => (r :: rs, memory)

/-- The variable that the buffer is: an operation has no result where the buffer is too
small, or where it leaves no string. -/
def variableStep (size : ℕ) (strings : ℕ → List UInt8) (v : List UInt8) (op : StringOp) :
    Option (List UInt8) :=
  if op.needs v (strings op.src) ≤ size then op.effect v (strings op.src) else none

/-- A buffer is a variable for a string: after any operations on it that the variable can
do, it contains the string of the variable, they have returned what they are meant to, and
no byte outside of the buffer has changed. -/
theorem string_buffer_refines {memory v w : List UInt8} {dest size : ℕ}
    (strings : ℕ → List UInt8) (ops : List StringOp)
    (h : Buffered memory dest size v memory) (hsize : dest + size ≤ memory.length)
    (hsources : ∀ op ∈ ops, Source memory dest size op.src (strings op.src))
    (hvariable : ops.foldlM (variableStep size strings) v = some w) :
    ∃ after, calls dest ops memory =
        some (ops.map fun op => op.returns dest (strings op.src), after) ∧
      Buffered memory dest size w after := by
  suffices hrun : ∀ now, Buffered memory dest size v now → ∃ after, calls dest ops now =
      some (ops.map fun op => op.returns dest (strings op.src), after) ∧
      Buffered memory dest size w after from hrun memory h
  clear h
  induction ops generalizing v with
  | nil =>
    obtain rfl := Option.some.inj hvariable
    exact fun now hnow => ⟨now, rfl, hnow⟩
  | cons op ops ih =>
    intro now hnow
    obtain ⟨u, hu, hrest⟩ := Option.bind_eq_some_iff.mp hvariable
    unfold variableStep at hu
    split at hu
    · next hneeds =>
      have hsource := (hsources op List.mem_cons_self).moved hnow.outside
      obtain ⟨next, hcall, hbuffer⟩ := hnow.call hsize op hsource hneeds hu
      obtain ⟨after, hcalls, hafter⟩ :=
        ih (fun o ho => hsources o (List.mem_cons_of_mem op ho)) hrest next hbuffer
      refine ⟨after, ?_, hafter⟩
      rw [calls, hcall]
      dsimp only
      rw [hcalls]
      rfl
    · cases hu

/-- A buffer of six bytes with an empty string, and two strings behind it. -/
def smallMemory : List UInt8 := [0, 9, 9, 9, 9, 9, 97, 98, 0, 99, 0]

def smallStrings (src : ℕ) : List UInt8 := if src = 6 then [97, 98] else [99]

theorem string_buffer_refines_small : ∃ after,
    calls 0 [.strcpy 6, .strncat 6 1, .strcat 9, .strncpy 9 1] smallMemory =
        some ([2, 0, 0, 0], after) ∧
      Buffered smallMemory 0 6 [99, 98, 97, 99] after := by
  refine string_buffer_refines smallStrings [.strcpy 6, .strncat 6 1, .strcat 9, .strncpy 9 1]
    (v := []) ⟨by decide, ?_, by decide, rfl, fun _ _ => rfl⟩ (by decide) ?_ (by decide)
  · unfold HoldsAt
    decide
  · have hsix : Source smallMemory 0 6 6 (smallStrings 6) :=
      ⟨by decide, by unfold HoldsAt; decide, Or.inr le_rfl⟩
    have hnine : Source smallMemory 0 6 9 (smallStrings 9) :=
      ⟨by decide, by unfold HoldsAt; decide, Or.inr (by decide)⟩
    intro op hop
    simp only [List.mem_cons, List.not_mem_nil, or_false] at hop
    rcases hop with rfl | rfl | rfl | rfl
    · exact hsix
    · exact hsix
    · exact hnine
    · exact hnine

end Runs

end Heartix.Strings
