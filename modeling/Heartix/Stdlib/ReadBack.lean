import Heartix.Printf.IntegerField
import Heartix.Process.Arguments
import Heartix.Stdlib.Strtol
import Mathlib.Data.List.GetD

/-!
The conversions of an `unsigned long` and `strtoul`: what has been printed is read
back. The digits that are written are those that are read, and the number that they
make is one of the type, so that the guard against overflow is never taken.
-/

namespace Heartix.Stdlib

open Numeral Printf Process

section Digits

variable {base k n : ℕ} {upper : Bool}

theorem digitOf_numeralByte {d : ℕ} (hd : d < 16) : digitOf (numeralByte upper d) = some d := by
  interval_cases d <;> cases upper <;> decide

/-- The digits of a number with leading zeros. -/
def paddedDigits (base k n : ℕ) : List ℕ := List.replicate k 0 ++ (Nat.digits base n).reverse

theorem value_paddedDigits (base k n : ℕ) : value base (paddedDigits base k n) = n := by
  have hzeros : extend base 0 (List.replicate k 0) = 0 := by
    induction k with
    | zero => rfl
    | succ k ih => rw [List.replicate_succ, extend_cons, Nat.zero_mul, Nat.add_zero, ih]
  unfold value paddedDigits
  rw [extend_append, hzeros]
  exact value_reverse_digits base n

theorem paddedDigits_lt (hbase : 1 < base) : ∀ d ∈ paddedDigits base k n, d < base := by
  intro d hd
  unfold paddedDigits at hd
  rw [List.mem_append, List.mem_replicate, List.mem_reverse] at hd
  rcases hd with ⟨-, rfl⟩ | hd
  · omega
  · exact Nat.digits_lt_base hbase hd

theorem zeros_numeral (base k n : ℕ) (upper : Bool) :
    zeros k ++ numeral base upper n = (paddedDigits base k n).map (numeralByte upper) := by
  unfold zeros numeral paddedDigits
  rw [List.map_append, List.map_replicate]
  rfl

theorem filterMap_digitOf {ds : List ℕ} (hds : ∀ d ∈ ds, d < 16) :
    (ds.map (numeralByte upper)).filterMap digitOf = ds := by
  induction ds with
  | nil => rfl
  | cons d ds ih =>
    rw [List.map_cons, List.filterMap_cons, digitOf_numeralByte (hds d List.mem_cons_self),
      ih fun e he => hds e (List.mem_cons_of_mem d he)]

/-- The loop of `strtoul` reads all digits, and the guard is not taken. -/
theorem readDigits_numeral (base : ℕ) (hbase : 1 < base) (hlarge : base ≤ 16) (hn : n ≤ ULONG_MAX) :
    readDigits ULONG_MAX base 0 (zeros k ++ numeral base upper n) = (n, []) := by
  have hless := paddedDigits_lt (k := k) (n := n) hbase
  have hall : ∀ c ∈ (paddedDigits base k n).map (numeralByte upper), isDigitOf base c = true := by
    intro c hc
    obtain ⟨d, hd, rfl⟩ := List.mem_map.mp hc
    have hd := hless d hd
    unfold isDigitOf
    rw [digitOf_numeralByte (by omega)]
    simpa using hd
  have hfits : extend base 0 (paddedDigits base k n) = n := value_paddedDigits base k n
  have hmax : ULONG_MAX = 2 ^ 64 - 1 := rfl
  have hlimit : base ≤ ULONG_MAX := by
    omega
  have hread := (readDigits_spec (p := zeros k ++ numeral base upper n)
    (Nat.lt_of_succ_lt hbase) hlimit (Nat.zero_le _)).1
  rw [zeros_numeral, List.takeWhile_eq_self_iff.mpr hall, List.dropWhile_eq_nil_iff.mpr hall,
    filterMap_digitOf fun d hd => Nat.lt_of_lt_of_le (hless d hd) hlarge, hfits] at hread
  rw [zeros_numeral]
  exact hread hn

end Digits

section Read

variable {base k n : ℕ}

/-- No character of a number is a blank, a sign, an `x` or a NUL. -/
theorem mem_paddedDigits {b : UInt8} (hbase : 1 < base) (hlarge : base ≤ 16)
    (hb : b ∈ zeros k ++ numeral base false n) :
    isspace b = false ∧ b ≠ '+'.toUInt8 ∧ b ≠ '-'.toUInt8 ∧ isX b = false ∧ b ≠ 0 := by
  rw [zeros_numeral] at hb
  obtain ⟨d, hd, rfl⟩ := List.mem_map.mp hb
  have hd := paddedDigits_lt hbase d hd
  have hd : d < 16 := by
    omega
  interval_cases d <;> decide

/-- So that no prefix is taken off it. -/
theorem second_not_x (hbase : 1 < base) (hlarge : base ≤ 16) :
    isX ((zeros k ++ numeral base false n).getD 1 0) = false := by
  by_cases hlong : 1 < (zeros k ++ numeral base false n).length
  · rw [List.getD_eq_getElem _ _ hlong]
    exact (mem_paddedDigits hbase hlarge (List.getElem_mem hlong)).2.2.2.1
  · rw [List.getD_eq_default _ _ (Nat.le_of_not_lt hlong)]
    rfl

/-- A number that begins with neither blank nor sign. -/
theorem strtoul_of_readDigits {str : List UInt8} {c : UInt8} {p : List UInt8} (hstr : str = c :: p)
    (hc : isspace c = false ∧ c ≠ '+'.toUInt8 ∧ c ≠ '-'.toUInt8)
    (hread : readDigits ULONG_MAX (readPrefix base str).1 0 (readPrefix base str).2 = (n, [])) :
    strtoul str true base = (n, some str.length) := by
  obtain ⟨hspace, hplus, hminus⟩ := hc
  have hskip : str.dropWhile isspace = str := by
    rw [hstr, List.dropWhile_cons, hspace]
    rfl
  have hsign : readSign str = (false, str) := by
    rw [hstr, readSign, if_neg (by simp [hplus, hminus])]
  have hnumeral : readNumeral ULONG_MAX str base = (false, n, []) := by
    unfold readNumeral
    rw [hskip, hsign]
    dsimp only
    rw [hread]
  unfold strtoul
  rw [hnumeral]
  dsimp only
  rw [if_neg Bool.false_ne_true]
  rfl

/-- A number without prefix. -/
theorem strtoul_numeral (hbase : 1 < base) (hlarge : base ≤ 16) (hn : n ≤ ULONG_MAX)
    (hne : zeros k ++ numeral base false n ≠ []) :
    strtoul (zeros k ++ numeral base false n) true base =
      (n, some (zeros k ++ numeral base false n).length) := by
  obtain ⟨c, p, hcons⟩ := List.exists_cons_of_ne_nil hne
  have hfirst := mem_paddedDigits hbase hlarge (hcons ▸ List.mem_cons_self)
  have hfront : readPrefix base (zeros k ++ numeral base false n) =
      (base, zeros k ++ numeral base false n) := by
    unfold readPrefix
    rw [if_neg (by omega), second_not_x hbase hlarge, if_neg (by simp)]
  refine strtoul_of_readDigits hcons ⟨hfirst.1, hfirst.2.1, hfirst.2.2.1⟩ ?_
  rw [hfront]
  exact readDigits_numeral base hbase hlarge hn

/-- An octal number with a leading zero, read without a base. -/
theorem strtoul_octal (hn : n ≤ ULONG_MAX) :
    strtoul (zeros (k + 1) ++ numeral 8 false n) true 0 =
      (n, some (zeros (k + 1) ++ numeral 8 false n).length) := by
  have hcons : zeros (k + 1) ++ numeral 8 false n =
      '0'.toUInt8 :: (zeros k ++ numeral 8 false n) := rfl
  have hfront : readPrefix 0 (zeros (k + 1) ++ numeral 8 false n) =
      (8, zeros k ++ numeral 8 false n) := by
    unfold readPrefix
    rw [if_pos rfl, second_not_x (by decide) (by decide)]
    rfl
  refine strtoul_of_readDigits hcons (by decide) ?_
  rw [hfront]
  exact readDigits_numeral 8 (by decide) (by decide) hn

/-- A hexadecimal number with its prefix, read without a base. -/
theorem strtoul_hex (hn : n ≤ ULONG_MAX) :
    strtoul (['0'.toUInt8, 'x'.toUInt8] ++ (zeros k ++ numeral 16 false n)) true 0 =
      (n, some (['0'.toUInt8, 'x'.toUInt8] ++ (zeros k ++ numeral 16 false n)).length) := by
  have hfront : readPrefix 0 (['0'.toUInt8, 'x'.toUInt8] ++ (zeros k ++ numeral 16 false n)) =
      (16, zeros k ++ numeral 16 false n) := rfl
  refine strtoul_of_readDigits rfl (by decide) ?_
  rw [hfront]
  exact readDigits_numeral 16 (by decide) (by decide) hn

end Read

section Print

/-- A conversion of an `unsigned long` without width and precision. -/
def unsignedLong (flags : List Flag) (specifier : Char)
    (known : specifier ∈ ['d', 'i', 'u', 'o', 'x', 'X', 's']) : Conversion where
  flags := flags
  width := .omitted
  precision := none
  length := .l
  specifier := specifier
  width_ne_zero := Amount.omitted_ne
  known := known

variable {c : Conversion} {strings : BitVec 64 → List UInt8} {args : VaList}

/-- Without width and sign there are only prefix and digits. -/
theorem text_unpadded (args : VaList) {word value : BitVec 64} (h : Taken c word value)
    (hspecifier : c.specifier ≠ 's') (hsigned : isSigned c.specifier = false)
    (hwidth : c.width = .omitted) (hplus : c.has .plus = false) (hspace : c.has .space = false) :
    text (integerSites (c.spec args) value) =
      c.hexPrefix ++ (zeros (c.octal + onlyZero (c.argument word)) ++
        c.number (c.argument word)) := by
  have hnonneg := argument_nonneg hsigned word
  have hlead : c.lead (c.argument word) = 0 := by
    unfold Conversion.lead
    rw [hplus, hspace, if_neg (by simp [hnonneg]), if_neg Bool.false_ne_true]
  have hmark : c.mark (c.argument word) = [] := by
    unfold Conversion.mark
    rw [hplus, if_neg (Int.not_lt.mpr hnonneg), if_neg Bool.false_ne_true]
  have hfill : c.fill args (c.argument word) = 0 := by
    have hzero : (c.spec args).width = 0 := by
      rw [c.spec_width, hwidth]
      rfl
    unfold Conversion.fill
    omega
  rw [text_integerSites h hspecifier, hlead, hmark, hfill]
  simp

/-- The buffer holds the output as a string. -/
theorem cString_stored {output : List UInt8} (houtput : 0 ∉ output) (memory : Memory) {n : ℕ}
    (hn : output.length < n) :
    cString ((List.range n).map (stored memory n output)) = output := by
  have hfront : ((List.range n).map (stored memory n output)).take (output.length + 1) =
      output ++ [0] := by
    rw [← List.map_take, List.take_range, Nat.min_eq_left (by omega), map_stored_of_lt memory hn]
  rw [← List.take_append_drop (output.length + 1) ((List.range n).map (stored memory n output)),
    hfront, List.append_assoc, List.singleton_append, cString_terminated houtput]

/-- What is printed and can be read is read back. -/
theorem reads_back {sites : List Site} {format : List UInt8} {last : UInt8} {args' : VaList}
    {base v : ℕ} (hdirective : directive strings format args = (.sites sites, [last], args'))
    (hread : strtoul (text sites) true base = (v, some (text sites).length))
    (hclean : 0 ∉ text sites) (hsmall : (text sites).length < 24) {n : ℕ} (hn : 24 ≤ n)
    (memory : Memory) :
    ∃ content str, vsnprintf strings memory n format args = some ((str.length : ℤ), content) ∧
      cString ((List.range n).map content) = str ∧
      strtoul str true base = (v, some str.length) := by
  obtain ⟨o, hresult, houtput⟩ := vcbprintf_single hdirective
  obtain ⟨hconsistent, -⟩ := vcbprintfLoop_consistent consistent_start hresult
  have hwritten : o.written = (text sites).length := by
    rw [hconsistent, houtput]
    exact Int.bmod_eq_of_le (by omega) (by omega)
  have hstored := vsnprintf_stored hresult (by rw [houtput]; omega) memory n
  rw [houtput, hwritten] at hstored
  exact ⟨_, text sites, hstored, cString_stored hclean memory (by omega), hread⟩

theorem argument_unsignedLong (c : Conversion) (hlength : c.length = .l)
    (hsigned : isSigned c.specifier = false) (word : BitVec 64) :
    c.argument word = word.toNat := by
  unfold Conversion.argument
  rw [hsigned, if_neg Bool.false_ne_true, hlength]
  exact congrArg (fun w : BitVec 64 => (w.toNat : ℤ)) (BitVec.setWidth_eq word)

/-- One round of the engine on a conversion of an `unsigned long`. -/
theorem directive_unsignedLong (c : Conversion) (strings : BitVec 64 → List UInt8)
    (args : VaList) (hlength : c.length = .l) (hsigned : isSigned c.specifier = false)
    (hspecifier : c.specifier ≠ 's') (hwidth : c.width = .omitted) (hprecision : c.precision = none)
    (hplus : c.has .plus = false) (hspace : c.has .space = false) :
    ∃ sites, directive strings ('%'.toUInt8 :: (c.bytes ++ [])) args =
        (.sites sites, [c.specifier.toUInt8], args.rest) ∧
      text sites = c.hexPrefix ++ (zeros (c.octal + onlyZero args.next.toNat) ++
        c.number args.next.toNat) := by
  obtain ⟨value, htaken⟩ := taken c args.next (by rw [hlength]; simp)
  have hargs : c.valueArgs args = args := by
    unfold Conversion.valueArgs Conversion.precisionArgs
    rw [hprecision, hwidth]
    rfl
  have htext := text_unpadded args htaken hspecifier hsigned hwidth hplus hspace
  rw [argument_unsignedLong c hlength hsigned] at htext
  refine ⟨_, ?_, htext⟩
  rw [c.directive_bytes, hargs, convert_integer strings args htaken hspecifier]

theorem length_digits_le {base k n : ℕ} (hbase : 1 < base) (hk : 2 ^ 64 ≤ base ^ k)
    (hn : n < 2 ^ 64) : (Nat.digits base n).length ≤ k := by
  rw [Nat.digits_length_le_iff hbase]
  exact Nat.lt_of_lt_of_le hn hk

/-- The text behind the prefix: no NUL, and not too long. -/
theorem numeral_fits (base k : ℕ) (hbase : 1 < base) (hlarge : base ≤ 16) (hpositive : 0 < k)
    (hk : 2 ^ 64 ≤ base ^ k) (word : BitVec 64) :
    0 ∉ zeros (onlyZero word.toNat) ++ numeral base false word.toNat ∧
      zeros (onlyZero word.toNat) ++ numeral base false word.toNat ≠ [] ∧
      (zeros (onlyZero word.toNat) ++ numeral base false word.toNat).length ≤ k := by
  have hdigits := length_digits_le hbase hk word.isLt
  have hclean : 0 ∉ zeros (onlyZero word.toNat) ++ numeral base false word.toNat := fun hmem =>
    (mem_paddedDigits hbase hlarge hmem).2.2.2.2 rfl
  rw [← List.length_pos_iff, List.length_append, length_zeros, length_numeral]
  refine ⟨hclean, ?_⟩
  unfold onlyZero
  by_cases hzero : (word.toNat : ℤ) = 0
  · have hnat : word.toNat = 0 := by
      omega
    rw [if_pos hzero, hnat, Nat.digits_zero]
    exact ⟨Nat.one_pos, hpositive⟩
  · have hpositive : 0 < (Nat.digits base word.toNat).length := by
      rw [List.length_pos_iff, Nat.digits_ne_nil_iff_ne_zero]
      omega
    rw [if_neg hzero]
    omega

variable {n : ℕ}

/-- A number printed without prefix is read in its own base. -/
theorem reads_back_plain (specifier : Char)
    (known : specifier ∈ ['d', 'i', 'u', 'o', 'x', 'X', 's'])
    (hsigned : isSigned specifier = false) (hspecifier : specifier ≠ 's')
    {base k : ℕ} (hbase : 1 < base) (hlarge : base ≤ 16) (hpositive : 0 < k)
    (hk : 2 ^ 64 ≤ base ^ k) (hshort : k < 24)
    (hfront : (unsignedLong [] specifier known).hexPrefix = [])
    (hoctal : (unsignedLong [] specifier known).octal = 0)
    (hnumber : (unsignedLong [] specifier known).number args.next.toNat =
      numeral base false args.next.toNat)
    (hn : 24 ≤ n) (memory : Memory) :
    ∃ content str, vsnprintf strings memory n
          ('%'.toUInt8 :: ((unsignedLong [] specifier known).bytes ++ [])) args =
        some ((str.length : ℤ), content) ∧
      cString ((List.range n).map content) = str ∧
      strtoul str true base = (args.next.toNat, some str.length) := by
  obtain ⟨sites, hdirective, htext⟩ := directive_unsignedLong (unsignedLong [] specifier known)
    strings args rfl hsigned hspecifier rfl rfl rfl rfl
  rw [hfront, hoctal, hnumber, Nat.zero_add, List.nil_append] at htext
  have hmax : args.next.toNat ≤ ULONG_MAX := Nat.le_of_lt_succ args.next.isLt
  obtain ⟨hclean, hne, hlength⟩ := numeral_fits base k hbase hlarge hpositive hk args.next
  rw [← htext] at hclean hlength
  have hread : strtoul (text sites) true base = (args.next.toNat, some (text sites).length) := by
    rw [htext]
    exact strtoul_numeral hbase hlarge hmax hne
  exact reads_back hdirective hread hclean (Nat.lt_of_le_of_lt hlength hshort) hn memory

/-- With its zero in front, an octal number is read in the base that it shows. -/
theorem reads_back_octal (hn : 24 ≤ n) (memory : Memory) :
    ∃ content str, vsnprintf strings memory n
          ('%'.toUInt8 :: ((unsignedLong [.hash] 'o' (by decide)).bytes ++ [])) args =
        some ((str.length : ℤ), content) ∧
      cString ((List.range n).map content) = str ∧
      strtoul str true 0 = (args.next.toNat, some str.length) := by
  have hmax : args.next.toNat ≤ ULONG_MAX := Nat.le_of_lt_succ args.next.isLt
  obtain ⟨sites, hdirective, htext⟩ := directive_unsignedLong
    (unsignedLong [.hash] 'o' (by decide)) strings args rfl rfl (by decide) rfl rfl rfl rfl
  have htext : text sites = zeros (1 + onlyZero args.next.toNat) ++
      numeral 8 false args.next.toNat := htext
  rw [Nat.add_comm] at htext
  obtain ⟨hclean, -, hlength⟩ := numeral_fits 8 22 (by decide) (by decide)
    (by decide) (by decide) args.next
  have hcons : zeros (onlyZero args.next.toNat + 1) ++ numeral 8 false args.next.toNat =
      '0'.toUInt8 ::
        (zeros (onlyZero args.next.toNat) ++ numeral 8 false args.next.toNat) := rfl
  refine reads_back hdirective ?_ ?_ ?_ hn memory
  · rw [htext]
    exact strtoul_octal hmax
  · rw [htext, hcons, List.mem_cons, not_or]
    exact ⟨by decide, hclean⟩
  · rw [htext, hcons, List.length_cons]
    omega

/-- A hexadecimal number is read with its prefix. -/
theorem reads_back_hex (hn : 24 ≤ n) (memory : Memory) :
    ∃ content str, vsnprintf strings memory n
          ('%'.toUInt8 :: ((unsignedLong [.hash] 'x' (by decide)).bytes ++ [])) args =
        some ((str.length : ℤ), content) ∧
      cString ((List.range n).map content) = str ∧
      strtoul str true 0 = (args.next.toNat, some str.length) := by
  have hmax : args.next.toNat ≤ ULONG_MAX := Nat.le_of_lt_succ args.next.isLt
  obtain ⟨sites, hdirective, htext⟩ := directive_unsignedLong
    (unsignedLong [.hash] 'x' (by decide)) strings args rfl rfl (by decide) rfl rfl rfl rfl
  have htext : text sites = ['0'.toUInt8, 'x'.toUInt8] ++
      (zeros (0 + onlyZero args.next.toNat) ++ numeral 16 false args.next.toNat) := htext
  rw [Nat.zero_add] at htext
  obtain ⟨hclean, -, hlength⟩ := numeral_fits 16 16 (by decide) (by decide)
    (by decide) (by decide) args.next
  refine reads_back hdirective ?_ ?_ ?_ hn memory
  · rw [htext]
    exact strtoul_hex hmax
  · rw [htext, List.mem_append, not_or]
    exact ⟨by decide, hclean⟩
  · have hfront : ['0'.toUInt8, 'x'.toUInt8].length = 2 := rfl
    rw [htext, List.length_append, hfront]
    omega

end Print

/-- No number needs more than the buffer of the engine. -/
theorem integerToString_fits (value : BitVec 64) (digits : List UInt8) {base : ℕ}
    (hbase : base ∈ [8, 10, 16]) : (integerToString value.toNat base digits).length ≤ 24 := by
  have hlarge : 8 ≤ base := by
    simp only [List.mem_cons, List.not_mem_nil, or_false] at hbase
    omega
  have hpower : 2 ^ 64 ≤ base ^ 22 :=
    Nat.le_trans (by decide : 2 ^ 64 ≤ 8 ^ 22) (Nat.pow_le_pow_left hlarge 22)
  have hlength := length_digits_le (by omega) hpower value.isLt
  rw [integerToString_eq (by omega) value.isLt]
  split
  · exact (by decide : 1 ≤ 24)
  · rw [List.length_map, List.length_reverse]
    omega

/-- The formats, and the base in which their output is read. -/
def printed : List (String × ℕ) :=
  [("%lu", 10), ("%lo", 8), ("%lx", 16), ("%#lo", 0), ("%#lx", 0)]

/-- Every `unsigned long` is read back from what has been printed, to the end of the
string; and no number needs more than the buffer of the engine. -/
theorem printed_unsigned_reads_back :
    (∀ (strings : BitVec 64 → List UInt8) (args : VaList) (memory : Memory) (n : ℕ), 24 ≤ n →
      ∀ format base, (format, base) ∈ printed →
        ∃ content str, vsnprintf strings memory n (format.toList.map Char.toUInt8) args =
            some ((str.length : ℤ), content) ∧
          cString ((List.range n).map content) = str ∧
          strtoul str true base = (args.next.toNat, some str.length)) ∧
    ∀ (value : BitVec 64) (digits : List UInt8), ∀ base ∈ [8, 10, 16],
      (integerToString value.toNat base digits).length ≤ 24 := by
  constructor
  · intro strings args memory n hn format base hprinted
    unfold printed at hprinted
    simp only [List.mem_cons, Prod.mk.injEq, List.not_mem_nil, or_false] at hprinted
    rcases hprinted with ⟨rfl, rfl⟩ | ⟨rfl, rfl⟩ | ⟨rfl, rfl⟩ | ⟨rfl, rfl⟩ | ⟨rfl, rfl⟩
    · have hdigits : 2 ^ 64 ≤ 10 ^ 20 := by decide
      exact reads_back_plain 'u' (by decide) rfl (by decide) (by decide) (by decide) (by decide)
        hdigits (by decide) rfl rfl rfl hn memory
    · have hdigits : 2 ^ 64 ≤ 8 ^ 22 := by decide
      exact reads_back_plain 'o' (by decide) rfl (by decide) (by decide) (by decide) (by decide)
        hdigits (by decide) rfl rfl rfl hn memory
    · have hdigits : 2 ^ 64 ≤ 16 ^ 16 := by decide
      exact reads_back_plain 'x' (by decide) rfl (by decide) (by decide) (by decide) (by decide)
        hdigits (by decide) rfl rfl rfl hn memory
    · exact reads_back_octal hn memory
    · exact reads_back_hex hn memory
  · intro value digits base hbase
    exact integerToString_fits value digits hbase

/-- The largest number, with its prefix. -/
theorem printed_unsigned_reads_back_largest :
    ∃ content str, vsnprintf (fun _ => []) (fun _ => 0) 24 ("%#lx".toList.map Char.toUInt8)
        ⟨fun _ => -1, 0⟩ = some ((str.length : ℤ), content) ∧
      cString ((List.range 24).map content) = str ∧
      strtoul str true 0 = (2 ^ 64 - 1, some str.length) :=
  printed_unsigned_reads_back.1 (fun _ => []) ⟨fun _ => -1, 0⟩ (fun _ => 0) 24 (by decide) "%#lx" 0
    (by decide)

end Heartix.Stdlib
