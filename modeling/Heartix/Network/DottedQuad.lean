import Heartix.Lib.Separated
import Heartix.Stdlib.Strtol
import Mathlib.Data.List.TakeWhile

/-!
IPv4 addresses as text, which `ping` and `ipconfig` read and write with the same two
functions. A part of an address is whatever `strtol` takes for a number, with its blanks
and its sign, or without a digit.
-/

namespace Heartix.Network

open Stdlib Numeral Separated

/-- One number of the text, and what follows it. -/
def parsePart (cursor : List UInt8) : Option (BitVec 32 × List UInt8) :=
  match strtol cursor true 10 with
  | (_, none) => none
  | (value, some e) =>
      if e = 0 ∨ value < 0 ∨ 255 < value then none
      else some (BitVec.ofInt 32 value, cursor.drop e)

/-- The loop over the parts, with the number of those that are missing. -/
def parseParts : ℕ → List UInt8 → Option (List (BitVec 32) × List UInt8)
  | 0, cursor => some ([], cursor)
  | n + 1, cursor =>
      match parsePart cursor with
      | none => none
      | some (value, e) =>
          if 0 < n then
            if e.headD 0 ≠ '.'.toUInt8 then none
            else (parseParts n (e.drop 1)).map fun (parts, cursor) => (value :: parts, cursor)
          else some ([value], e)

def combine (parts : List (BitVec 32)) : BitVec 32 :=
  parts.getD 0 0 <<< 24 ||| parts.getD 1 0 <<< 16 ||| parts.getD 2 0 <<< 8 ||| parts.getD 3 0

/-- `parseIp`, with NULL or a string, and NULL or the number that `out` points to. The
number there afterwards is part of the result. -/
def parseIp (text : Option (List UInt8)) (out : Option (BitVec 32)) :
    Bool × Option (BitVec 32) :=
  match text, out with
  | some text, some _ =>
      match parseParts 4 text with
      | some (parts, []) => (true, some (combine parts))
      | _ => (false, out)
  | _, _ => (false, out)

section Grammar

/-- The number that some decimal digits stand for. -/
def decimal (digits : List UInt8) : ℕ := value 10 (digits.filterMap digitOf)

/-- A group of decimal digits for a number up to 255. -/
structure IsOctet (g : List UInt8) (v : BitVec 32) : Prop where
  nonempty : g ≠ []
  digit : ∀ c ∈ g, isdigit c = true
  value : v.toNat = decimal g
  le : decimal g ≤ 255

/-- What `strtol` takes off the front of a text. -/
structure Written (blanks sign digits : List UInt8) : Prop where
  blank : ∀ c ∈ blanks, isspace c = true
  sign : sign = [] ∨ sign = ['+'.toUInt8] ∨ sign = ['-'.toUInt8]
  digit : ∀ c ∈ digits, isdigit c = true

/-- Blanks, a sign and digits, of which something is there, for a number from 0 to 255. -/
def Tolerated (g : List UInt8) (v : BitVec 32) : Prop :=
  g ≠ [] ∧ ∃ blanks sign digits, g = blanks ++ (sign ++ digits) ∧ Written blanks sign digits ∧
    v.toNat = decimal digits ∧ decimal digits ≤ 255 ∧
    (sign = ['-'.toUInt8] → decimal digits = 0)

/-- Four groups with dots between them, and the address that has their values as its
bytes, the highest one first. -/
def Quad (P : List UInt8 → BitVec 32 → Prop) (text : List UInt8) (ip : BitVec 32) : Prop :=
  ∃ parts, Joined '.'.toUInt8 P text parts ∧ parts.length = 4 ∧
    ip.toNat = value 256 (parts.map BitVec.toNat)

end Grammar

section Numbers

variable {blanks sign digits rest text : List UInt8}

theorem not_isdigit_of_ends {c : UInt8} (h : Ends '.'.toUInt8 (c :: rest)) :
    isdigit c = false ∧ isspace c = false ∧ c ≠ '+'.toUInt8 ∧ c ≠ '-'.toUInt8 := by
  obtain rfl : c = '.'.toUInt8 := h
  decide

/-- The digits end where the group does. -/
theorem span_digits (hdigit : ∀ c ∈ digits, isdigit c = true) (hrest : Ends '.'.toUInt8 rest) :
    (digits ++ rest).takeWhile (isDigitOf 10) = digits ∧
      (digits ++ rest).dropWhile (isDigitOf 10) = rest := by
  have hall : ∀ c ∈ digits, isDigitOf 10 c = true := by
    intro c hc
    rw [isDigitOf_ten]
    exact hdigit c hc
  rw [List.takeWhile_append_of_pos hall, List.dropWhile_append_of_pos hall]
  cases rest with
  | nil => exact ⟨List.append_nil digits, rfl⟩
  | cons c rest =>
    have hc : ¬ isDigitOf 10 c = true := by
      rw [isDigitOf_ten, (not_isdigit_of_ends hrest).1]
      exact Bool.false_ne_true
    rw [List.takeWhile_cons_of_neg hc, List.dropWhile_cons_of_neg hc]
    exact ⟨List.append_nil digits, rfl⟩

/-- Behind the sign there is neither a blank nor another sign. -/
theorem head_digits (hdigit : ∀ c ∈ digits, isdigit c = true) (hrest : Ends '.'.toUInt8 rest) :
    ∀ c ∈ (digits ++ rest).head?, isspace c = false ∧ c ≠ '+'.toUInt8 ∧ c ≠ '-'.toUInt8 := by
  intro c hc
  cases digits with
  | nil =>
    cases rest with
    | nil => cases hc
    | cons d rest =>
      obtain rfl : d = c := Option.some.inj hc
      exact (not_isdigit_of_ends hrest).2
  | cons d digits =>
    obtain rfl : d = c := Option.some.inj hc
    exact not_isspace_of_isdigit (hdigit d List.mem_cons_self)

/-- Blanks and sign are skipped. -/
theorem readSign_written (h : Written blanks sign digits) (hrest : Ends '.'.toUInt8 rest) :
    readSign ((blanks ++ (sign ++ (digits ++ rest))).dropWhile isspace) =
      (decide (sign = ['-'.toUInt8]), digits ++ rest) := by
  have hhead := head_digits h.digit hrest
  rw [dropWhile_isspace h.blank]
  · rcases h.sign with rfl | rfl | rfl
    · exact readSign_none fun c hc => (hhead c hc).2
    · rfl
    · rfl
  · intro c hc
    rcases h.sign with rfl | rfl | rfl
    · exact (hhead c hc).1
    · obtain rfl := Option.some.inj hc
      decide
    · obtain rfl := Option.some.inj hc
      decide

/-- A number that is written out is read. -/
theorem readNumeral_written (h : Written blanks sign digits) (hrest : Ends '.'.toUInt8 rest)
    (hfits : decimal digits ≤ LONG_MAX) :
    readNumeral LONG_MAX (blanks ++ (sign ++ (digits ++ rest))) 10 =
      (decide (sign = ['-'.toUInt8]), decimal digits, rest) := by
  have hread := (readDigits_spec (p := digits ++ rest) (by decide : 0 < 10)
    (by decide : 10 ≤ LONG_MAX) (Nat.zero_le LONG_MAX)).1
  rw [(span_digits h.digit hrest).1, (span_digits h.digit hrest).2] at hread
  unfold readNumeral
  rw [readSign_written h hrest]
  have hbase (p : List UInt8) : readPrefix 10 p = (10, p) := rfl
  dsimp only
  rw [hbase]
  dsimp only
  rw [hread hfits]
  rfl

/-- Every text begins with something that `strtol` takes for a number. -/
theorem exists_written (text : List UInt8) :
    ∃ blanks sign digits rest, text = blanks ++ (sign ++ (digits ++ rest)) ∧
      Written blanks sign digits ∧
      readNumeral LONG_MAX text 10 = (decide (sign = ['-'.toUInt8]),
        readDigits LONG_MAX 10 0 (digits ++ rest)) ∧
      (decimal digits ≤ LONG_MAX → readDigits LONG_MAX 10 0 (digits ++ rest) =
        (decimal digits, rest)) ∧
      (LONG_MAX < decimal digits →
        (readDigits LONG_MAX 10 0 (digits ++ rest)).1 = LONG_MAX) := by
  have hsign (p : List UInt8) : ∃ sign, p = sign ++ (readSign p).2 ∧
      (readSign p).1 = decide (sign = ['-'.toUInt8]) ∧
      (sign = [] ∨ sign = ['+'.toUInt8] ∨ sign = ['-'.toUInt8]) := by
    cases p with
    | nil => exact ⟨[], rfl, rfl, Or.inl rfl⟩
    | cons c p =>
      rw [readSign]
      by_cases hc : c = '+'.toUInt8 ∨ c = '-'.toUInt8
      · rw [if_pos hc]
        rcases hc with rfl | rfl
        · exact ⟨_, rfl, rfl, Or.inr (Or.inl rfl)⟩
        · exact ⟨_, rfl, rfl, Or.inr (Or.inr rfl)⟩
      · rw [if_neg hc]
        exact ⟨[], rfl, rfl, Or.inl rfl⟩
  obtain ⟨sign, hsplit, hminus, hkind⟩ := hsign (text.dropWhile isspace)
  have hread := readDigits_spec (p := (readSign (text.dropWhile isspace)).2)
    (by decide : 0 < 10) (by decide : 10 ≤ LONG_MAX) (Nat.zero_le LONG_MAX)
  have hnumeral : readNumeral LONG_MAX text 10 = ((readSign (text.dropWhile isspace)).1,
      readDigits LONG_MAX 10 0 (readSign (text.dropWhile isspace)).2) := rfl
  generalize (readSign (text.dropWhile isspace)).2 = p at hsplit hread hnumeral
  have hspan : p.takeWhile (isDigitOf 10) ++ p.dropWhile (isDigitOf 10) = p :=
    List.takeWhile_append_dropWhile
  refine ⟨text.takeWhile isspace, sign, p.takeWhile (isDigitOf 10), p.dropWhile (isDigitOf 10),
    ?_, ⟨?_, hkind, ?_⟩, ?_, ?_, ?_⟩
  · rw [hspan, ← hsplit, List.takeWhile_append_dropWhile]
  · intro c hc
    exact List.mem_takeWhile_imp hc
  · intro c hc
    rw [← isDigitOf_ten]
    exact List.mem_takeWhile_imp hc
  · rw [hnumeral, hspan, hminus]
  · rw [hspan]
    exact hread.1
  · rw [hspan]
    intro hlarge
    exact (hread.2 hlarge).1

end Numbers

section Parts

variable {text rest g : List UInt8} {v : BitVec 32}

/-- The value with its sign. -/
def signed (sign : List UInt8) (n : ℕ) : ℤ := if sign = ['-'.toUInt8] then -n else n

theorem signed_range (sign : List UInt8) (n : ℕ) :
    0 ≤ signed sign n ∧ signed sign n ≤ 255 ↔ n ≤ 255 ∧ (sign = ['-'.toUInt8] → n = 0) := by
  unfold signed
  split
  · rename_i hsign
    constructor
    · intro h
      refine ⟨?_, fun _ => ?_⟩
      · omega
      · omega
    · intro h
      have hzero := h.2 hsign
      omega
  · rename_i hsign
    constructor
    · intro h
      refine ⟨?_, fun heq => absurd heq hsign⟩
      omega
    · intro h
      omega

/-- What a numeral makes of `strtol`. -/
theorem strtol_of_readNumeral {sign p : List UInt8} {n : ℕ}
    (h : readNumeral LONG_MAX text 10 = (decide (sign = ['-'.toUInt8]), n, p)) :
    strtol text true 10 = (signed sign n, some (text.length - p.length)) := by
  unfold strtol signed storeEnd
  rw [h]
  dsimp only
  rw [if_pos rfl]
  simp only [decide_eq_true_eq]

/-- A part is read where its number is in range. -/
theorem parsePart_iff {sign p : List UInt8} {n : ℕ}
    (h : readNumeral LONG_MAX text 10 = (decide (sign = ['-'.toUInt8]), n, p)) :
    parsePart text = some (v, rest) ↔
      text.length - p.length ≠ 0 ∧ (n ≤ 255 ∧ (sign = ['-'.toUInt8] → n = 0)) ∧
        v.toNat = n ∧ rest = text.drop (text.length - p.length) := by
  have hvalue (hrange : n ≤ 255 ∧ (sign = ['-'.toUInt8] → n = 0)) :
      (BitVec.ofInt 32 (signed sign n)).toNat = n := by
    have hsigned : signed sign n = n := by
      unfold signed
      split
      · rename_i hsign
        have hzero := hrange.2 hsign
        omega
      · rfl
    rw [hsigned, BitVec.ofInt_natCast, BitVec.toNat_ofNat]
    omega
  unfold parsePart
  rw [strtol_of_readNumeral h]
  dsimp only
  split
  · rename_i hfails
    constructor
    · intro hnone
      cases hnone
    · intro hall
      have hrange := (signed_range sign n).mpr hall.2.1
      omega
  · rename_i hpasses
    have hrange : n ≤ 255 ∧ (sign = ['-'.toUInt8] → n = 0) := by
      apply (signed_range sign n).mp
      omega
    rw [Option.some.injEq, Prod.mk.injEq]
    constructor
    · intro heq
      refine ⟨by omega, hrange, ?_, heq.2.symm⟩
      rw [← heq.1]
      exact hvalue hrange
    · intro hall
      refine ⟨?_, hall.2.2.2.symm⟩
      apply BitVec.eq_of_toNat_eq
      rw [hvalue hrange, hall.2.2.1]

theorem length_front (front rest : List UInt8) :
    (front ++ rest).length - rest.length = front.length := by
  rw [List.length_append, Nat.add_sub_cancel]

/-- The reader of one part takes what is tolerated off the front of the text. -/
theorem reader_parsePart : Reader '.'.toUInt8 Tolerated parsePart where
  sound := by
    intro text v rest h
    obtain ⟨blanks, sign, digits, more, htext, hwritten, hread, hfits, hlarge⟩ :=
      exists_written text
    by_cases hmax : decimal digits ≤ LONG_MAX
    · rw [hfits hmax] at hread
      have hsplit : text = (blanks ++ (sign ++ digits)) ++ more := by
        rw [htext, List.append_assoc, List.append_assoc]
      obtain ⟨hne, hrange, hvalue, hrest⟩ := (parsePart_iff hread).mp h
      rw [hsplit, length_front] at hne hrest
      rw [List.drop_left] at hrest
      refine ⟨blanks ++ (sign ++ digits), ?_, ?_, blanks, sign, digits, rfl, hwritten, hvalue,
        hrange⟩
      · rw [hrest]
        exact hsplit
      · intro hnil
        rw [hnil] at hne
        exact hne rfl
    · have hmore := hlarge (Nat.lt_of_not_le hmax)
      generalize readDigits LONG_MAX 10 0 (digits ++ more) = result at hread hmore
      obtain ⟨n, p⟩ := result
      obtain ⟨-, hrange, -⟩ := (parsePart_iff hread).mp h
      dsimp only at hmore
      rw [hmore] at hrange
      exact absurd hrange.1 (by decide)
  complete := by
    intro g v rest hgroup hrest
    obtain ⟨hne, blanks, sign, digits, rfl, hwritten, hvalue, hrange⟩ := hgroup
    have hmax : decimal digits ≤ LONG_MAX := Nat.le_trans hrange.1 (by decide)
    have hread := readNumeral_written hwritten hrest hmax
    rw [← List.append_assoc sign, ← List.append_assoc blanks] at hread
    apply (parsePart_iff hread).mpr
    rw [length_front, List.drop_left]
    exact ⟨mt List.eq_nil_of_length_eq_zero hne, hrange, hvalue, rfl⟩

/-- The loop takes the parts one after another. -/
theorem parseParts_iff {n : ℕ} {parts : List (BitVec 32)} :
    parseParts (n + 1) text = some (parts, []) ↔
      Joined '.'.toUInt8 Tolerated text parts ∧ parts.length = n + 1 := by
  rw [← Joined.readAll_iff reader_parsePart]
  induction n generalizing text parts with
  | zero =>
    unfold parseParts readAll
    cases parsePart text with
    | none => exact iff_of_false (fun h => by cases h) fun h => by cases h
    | some read =>
      obtain ⟨value, e⟩ := read
      dsimp only
      rw [if_neg (Nat.lt_irrefl 0)]
      cases e with
      | nil => simp
      | cons c e => simp
  | succ n ih =>
    rw [parseParts, readAll]
    cases parsePart text with
    | none => exact iff_of_false (fun h => by cases h) fun h => by cases h
    | some read =>
      obtain ⟨value, e⟩ := read
      dsimp only
      rw [if_pos (Nat.succ_pos n)]
      cases e with
      | nil => exact iff_of_false (fun h => by cases h) fun h => by cases h
      | cons c e =>
        by_cases hc : c = '.'.toUInt8
        · have hhead : ¬ (c :: e).headD 0 ≠ '.'.toUInt8 := not_not.mpr hc
          rw [if_neg hhead]
          dsimp only
          rw [if_pos hc, Option.map_eq_some_iff, Option.map_eq_some_iff]
          constructor
          · intro h
            obtain ⟨⟨more, cursor⟩, hmore, heq⟩ := h
            cases heq
            exact ⟨more, ih.mp hmore, rfl⟩
          · intro h
            obtain ⟨more, hmore, rfl⟩ := h
            exact ⟨(more, []), ih.mpr hmore, rfl⟩
        · have hhead : (c :: e).headD 0 ≠ '.'.toUInt8 := hc
          rw [if_pos hhead]
          dsimp only
          rw [if_neg hc]
          exact iff_of_false (fun h => by cases h) fun h => by cases h

end Parts

section Addresses

variable {text : List UInt8} {ip : BitVec 32}

/-- Bytes put behind one another. -/
theorem toNat_shift_or {a b : BitVec 32} {k : ℕ} (ha : a.toNat * 2 ^ k < 2 ^ 32)
    (hb : b.toNat < 2 ^ k) : (a <<< k ||| b).toNat = a.toNat * 2 ^ k + b.toNat := by
  rw [BitVec.toNat_or, BitVec.toNat_shiftLeft, Nat.shiftLeft_eq, Nat.mod_eq_of_lt ha,
    ← Nat.shiftLeft_eq, ← Nat.shiftLeft_add_eq_or_of_lt hb]

theorem toNat_combine {parts : List (BitVec 32)} (hlength : parts.length = 4)
    (hsmall : ∀ v ∈ parts, v.toNat ≤ 255) :
    (combine parts).toNat = value 256 (parts.map BitVec.toNat) := by
  match parts, hlength with
  | [a, b, c, d], _ =>
    have ha := hsmall a (by simp)
    have hb := hsmall b (by simp)
    have hc := hsmall c (by simp)
    have hd := hsmall d (by simp)
    have hvalue : value 256 ([a, b, c, d].map BitVec.toNat) =
        (((0 * 256 + a.toNat) * 256 + b.toNat) * 256 + c.toNat) * 256 + d.toNat := rfl
    have hcombine : combine [a, b, c, d] = a <<< 24 ||| (b <<< 16 ||| (c <<< 8 ||| d)) := by
      unfold combine
      rw [BitVec.or_assoc, BitVec.or_assoc]
      rfl
    have hlow : (c <<< 8 ||| d).toNat = c.toNat * 2 ^ 8 + d.toNat :=
      toNat_shift_or (by omega) (by omega)
    have hmiddle : (b <<< 16 ||| (c <<< 8 ||| d)).toNat =
        b.toNat * 2 ^ 16 + (c <<< 8 ||| d).toNat :=
      toNat_shift_or (by omega) (by omega)
    have hhigh := toNat_shift_or (a := a) (b := b <<< 16 ||| (c <<< 8 ||| d)) (k := 24)
      (by omega) (by omega)
    rw [hvalue, hcombine, hhigh, hmiddle, hlow]
    omega

theorem Joined.small {vs : List (BitVec 32)} (h : Joined '.'.toUInt8 Tolerated text vs) :
    ∀ v ∈ vs, v.toNat ≤ 255 := by
  have hgroup {g : List UInt8} {v : BitVec 32} (hg : Tolerated g v) : v.toNat ≤ 255 := by
    obtain ⟨-, _, _, _, -, -, hvalue, hle, -⟩ := hg
    rw [hvalue]
    exact hle
  induction h with
  | last hlast =>
    intro v hv
    obtain rfl := List.mem_singleton.mp hv
    exact hgroup hlast
  | more hfirst _ ih =>
    intro v hv
    rcases List.mem_cons.mp hv with rfl | hrest
    · exact hgroup hfirst
    · exact ih v hrest

/-- What is accepted, and what it is taken for. -/
theorem parseIp_iff (out : BitVec 32) :
    parseIp (some text) (some out) = (true, some ip) ↔ Quad Tolerated text ip := by
  have hparse (parts : List (BitVec 32)) : parseParts 4 text = some (parts, []) ↔
      Joined '.'.toUInt8 Tolerated text parts ∧ parts.length = 4 := parseParts_iff
  unfold parseIp Quad
  dsimp only
  constructor
  · intro h
    split at h
    · rename_i parts heq
      obtain ⟨hjoined, hlength⟩ := (hparse parts).mp heq
      rw [Prod.mk.injEq, Option.some.injEq] at h
      rw [← h.2]
      exact ⟨parts, hjoined, hlength, toNat_combine hlength (Joined.small hjoined)⟩
    · cases h
  · intro h
    obtain ⟨parts, hjoined, hlength, hvalue⟩ := h
    rw [(hparse parts).mpr ⟨hjoined, hlength⟩]
    dsimp only
    rw [Prod.mk.injEq, Option.some.injEq]
    refine ⟨rfl, ?_⟩
    apply BitVec.eq_of_toNat_eq
    rw [toNat_combine hlength (Joined.small hjoined), hvalue]

theorem IsOctet.tolerated {g : List UInt8} {v : BitVec 32} (h : IsOctet g v) : Tolerated g v := by
  have hwritten : Written [] [] g := ⟨List.forall_mem_nil _, Or.inl rfl, h.digit⟩
  refine ⟨h.nonempty, [], [], g, rfl, hwritten, h.value, h.le, ?_⟩
  intro hsign
  cases hsign

/-- What is tolerated without blank and sign is a group of digits. -/
theorem Tolerated.isOctet {g : List UInt8} {v : BitVec 32} (h : Tolerated g v)
    (hclean : ∀ c ∈ g, isspace c = false ∧ c ≠ '+'.toUInt8 ∧ c ≠ '-'.toUInt8) : IsOctet g v := by
  obtain ⟨hne, blanks, sign, digits, rfl, hwritten, hvalue, hle, -⟩ := h
  have hblanks : blanks = [] := by
    apply List.eq_nil_iff_forall_not_mem.mpr
    intro c hc
    have hspace := hwritten.blank c hc
    rw [(hclean c (List.mem_append_left _ hc)).1] at hspace
    cases hspace
  have hsign : sign = [] := by
    have hmem : ∀ c ∈ sign, c ≠ '+'.toUInt8 ∧ c ≠ '-'.toUInt8 := by
      intro c hc
      exact (hclean c (List.mem_append_right _ (List.mem_append_left _ hc))).2
    rcases hwritten.sign with h | rfl | rfl
    · exact h
    · exact absurd rfl (hmem _ List.mem_cons_self).1
    · exact absurd rfl (hmem _ List.mem_cons_self).2
  rw [hblanks, hsign, List.nil_append, List.nil_append] at hne ⊢
  exact ⟨hne, hwritten.digit, hvalue, hle⟩

/-- Of an address in digits and dots no character is a blank or a sign. -/
theorem Quad.clean (h : Quad IsOctet text ip) :
    ∀ c ∈ text, isspace c = false ∧ c ≠ '+'.toUInt8 ∧ c ≠ '-'.toUInt8 := by
  obtain ⟨parts, hjoined, -⟩ := h
  intro c hc
  rcases hjoined.mem_cases hc with rfl | ⟨g, v, hgroup, hmem⟩
  · decide
  · exact not_isspace_of_isdigit (hgroup.digit c hmem)

/-- Of two readings the stronger one, where there is no blank and no sign. -/
theorem Quad.isOctet (h : Quad Tolerated text ip)
    (hclean : ∀ c ∈ text, isspace c = false ∧ c ≠ '+'.toUInt8 ∧ c ≠ '-'.toUInt8) :
    Quad IsOctet text ip := by
  obtain ⟨parts, hjoined, hlength, hvalue⟩ := h
  refine ⟨parts, ?_, hlength, hvalue⟩
  apply hjoined.imp
  intro g v hmem hgroup
  apply hgroup.isOctet
  intro c hc
  exact hclean c (hmem c hc)

theorem Quad.tolerated (h : Quad IsOctet text ip) : Quad Tolerated text ip := by
  obtain ⟨parts, hjoined, hlength, hvalue⟩ := h
  refine ⟨parts, ?_, hlength, hvalue⟩
  apply hjoined.imp
  intro g v _ hgroup
  exact hgroup.tolerated

/-- `parseIp` accepts a text exactly if it is four groups of digits, and yields their
address. -/
def Exact (text : List UInt8) : Prop :=
  ∀ out ip, parseIp (some text) (some out) = (true, some ip) ↔ Quad IsOctet text ip

/-- The text is not four tolerated groups, or it has no blank and no sign. -/
def Undisguised (text : List UInt8) : Prop :=
  ∀ ip, Quad Tolerated text ip →
    ∀ c ∈ text, isspace c = false ∧ c ≠ '+'.toUInt8 ∧ c ≠ '-'.toUInt8

theorem exact_iff (text : List UInt8) : Exact text ↔ Undisguised text := by
  constructor
  · intro hexact ip hquad
    have hread : Quad IsOctet text ip := by
      apply (hexact 0 ip).mp
      exact (parseIp_iff 0).mpr hquad
    exact hread.clean
  · intro h out ip
    rw [parseIp_iff]
    constructor
    · intro hquad
      exact hquad.isOctet (h ip hquad)
    · exact Quad.tolerated

end Addresses

end Heartix.Network
