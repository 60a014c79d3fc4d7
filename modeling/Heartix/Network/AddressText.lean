import Heartix.Network.DottedQuad
import Heartix.Printf.Formatted
import Heartix.Stdlib.ReadBack

/-!
Addresses printed with `%u.%u.%u.%u`. Every buffer of 16 characters holds the text, and
what has been printed is read back.
-/

namespace Heartix.Network

open Numeral Printf Process Separated Stdlib

/-- The bytes of an address, from the highest one on. -/
def octet (ip : BitVec 32) : ℕ → BitVec 32
  | 0 => ip >>> 24 &&& 0xFF
  | 1 => ip >>> 16 &&& 0xFF
  | 2 => ip >>> 8 &&& 0xFF
  | _ => ip &&& 0xFF

def addressFormat : List UInt8 := "%u.%u.%u.%u".toList.map Char.toUInt8

/-- The arguments are 32 bits wide, and the other half of their words is not defined. -/
def addressArguments (undefined : ℕ → BitVec 32) (ip : BitVec 32) : VaList :=
  ⟨fun i => undefined i ++ octet ip i, 0⟩

/-- `formatIp`: the memory at `out` afterwards. -/
def formatIp (strings : BitVec 64 → List UInt8) (undefined : ℕ → BitVec 32) (ip : BitVec 32)
    (out : Memory) (len : ℕ) : Option Memory :=
  (vsnprintf strings out len addressFormat (addressArguments undefined ip)).map Prod.snd

section Engine

variable {strings : BitVec 64 → List UInt8} {s t : List UInt8} {args args' : VaList}
  {sites : List Site}

/-- The text of a format from one round on. -/
theorem formattedLoop_step (fuel : ℕ)
    (hdirective : directive strings s args = (.sites sites, t, args')) :
    formattedLoop (fun _ _ => none) strings (fuel + 1) s args =
      match step t with
      | none => some (true, sites)
      | some s =>
          (formattedLoop (fun _ _ => none) strings fuel s args').map fun (known, more) =>
            (known, sites ++ more) := by
  have hsame : directiveWith (fun _ _ => none) strings s args = (.sites sites, t, args') := by
    unfold directiveWith
    rw [hdirective]
  cases hstep : step t with
  | none => simp only [formattedLoop, hsame, hstep]
  | some u => simp only [formattedLoop, hsame, hstep]

/-- `%u` -/
def unsignedInt : Conversion where
  flags := []
  width := .omitted
  precision := none
  length := .default
  specifier := 'u'
  width_ne_zero := Amount.omitted_ne
  known := by decide

/-- The digits of a number, of which zero has one. -/
def printedDigits (n : ℕ) : List UInt8 := zeros (onlyZero n) ++ numeral 10 false n

/-- One round on `%u` -/
theorem directive_unsignedInt (strings : BitVec 64 → List UInt8) (rest : List UInt8)
    (args : VaList) :
    ∃ sites, directive strings ('%'.toUInt8 :: 'u'.toUInt8 :: rest) args =
        (.sites sites, 'u'.toUInt8 :: rest, args.rest) ∧
      text sites = printedDigits (args.next.setWidth 32).toNat := by
  obtain ⟨value, htaken⟩ := taken unsignedInt args.next (by simp [unsignedInt])
  have hargument : unsignedInt.argument args.next = (args.next.setWidth 32).toNat := rfl
  have htext := text_unpadded args htaken (by decide) rfl rfl rfl rfl
  have hoctal : unsignedInt.octal = 0 := rfl
  rw [hargument, hoctal, Nat.zero_add] at htext
  refine ⟨integerSites (unsignedInt.spec args) value, ?_, htext⟩
  have hround := unsignedInt.directive_bytes rest args strings
  have hargs : unsignedInt.valueArgs args = args := rfl
  rw [hargs, convert_integer strings args htaken (by decide)] at hround
  exact hround

variable (args) in
/-- The text of a format that begins with `%u` and has more behind it. -/
theorem formattedLoop_unsignedInt {rest more : List UInt8} {known : Bool} {c : UInt8} (fuel : ℕ)
    (hrest : ∃ sites, formattedLoop (fun _ _ => none) strings fuel (c :: rest) args.rest =
      some (known, sites) ∧ text sites = more) :
    ∃ sites, formattedLoop (fun _ _ => none) strings (fuel + 1)
        ('%'.toUInt8 :: 'u'.toUInt8 :: c :: rest) args = some (known, sites) ∧
      text sites = printedDigits (args.next.setWidth 32).toNat ++ more := by
  obtain ⟨front, hdirective, hfront⟩ := directive_unsignedInt strings (c :: rest) args
  obtain ⟨back, hloop, hback⟩ := hrest
  refine ⟨front ++ back, ?_, ?_⟩
  · rw [formattedLoop_step fuel hdirective]
    dsimp only [step]
    rw [hloop]
    rfl
  · rw [text_append, hfront, hback]

/-- The text of a format that begins with a dot. -/
theorem formattedLoop_dot {rest more : List UInt8} {known : Bool} {c : UInt8} (fuel : ℕ)
    (hrest : ∃ sites, formattedLoop (fun _ _ => none) strings fuel (c :: rest) args =
      some (known, sites) ∧ text sites = more) :
    ∃ sites, formattedLoop (fun _ _ => none) strings (fuel + 1) ('.'.toUInt8 :: c :: rest) args =
        some (known, sites) ∧
      text sites = '.'.toUInt8 :: more := by
  have hdirective : directive strings ('.'.toUInt8 :: c :: rest) args =
      (.sites [⟨['.'.toUInt8], 1⟩], '.'.toUInt8 :: c :: rest, args) := rfl
  obtain ⟨back, hloop, hback⟩ := hrest
  refine ⟨[⟨['.'.toUInt8], 1⟩] ++ back, ?_, ?_⟩
  · rw [formattedLoop_step fuel hdirective]
    dsimp only [step]
    rw [hloop]
    rfl
  · rw [text_append, text_singleton, hback]
    rfl

variable (strings args) in
/-- The text of `%u` at the end of the format. -/
theorem formattedLoop_last (fuel : ℕ) :
    ∃ sites, formattedLoop (fun _ _ => none) strings (fuel + 1) ['%'.toUInt8, 'u'.toUInt8] args =
        some (true, sites) ∧
      text sites = printedDigits (args.next.setWidth 32).toNat := by
  obtain ⟨sites, hdirective, htext⟩ := directive_unsignedInt strings [] args
  refine ⟨sites, ?_, htext⟩
  rw [formattedLoop_step fuel hdirective]
  rfl

end Engine

section Address

variable (strings : BitVec 64 → List UInt8) (undefined : ℕ → BitVec 32) (ip : BitVec 32)

/-- The text of an address. -/
def addressText (ip : BitVec 32) : List UInt8 :=
  printedDigits (octet ip 0).toNat ++ '.'.toUInt8 ::
    (printedDigits (octet ip 1).toNat ++ '.'.toUInt8 ::
      (printedDigits (octet ip 2).toNat ++ '.'.toUInt8 :: printedDigits (octet ip 3).toNat))

theorem formatted_address :
    formatted (fun _ _ => none) strings addressFormat (addressArguments undefined ip) =
      some (true, addressText ip) := by
  have hnext (i : ℕ) : (VaList.mk (addressArguments undefined ip).words i).next.setWidth 32 =
      octet ip i := BitVec.setWidth_append_eq_right
  have hlast := formattedLoop_last strings ⟨(addressArguments undefined ip).words, 3⟩ 5
  have hall := formattedLoop_unsignedInt (addressArguments undefined ip) 11
    (formattedLoop_dot 10 (formattedLoop_unsignedInt _ 9 (formattedLoop_dot 8
      (formattedLoop_unsignedInt _ 7 (formattedLoop_dot 6 hlast)))))
  obtain ⟨sites, hloop, htext⟩ := hall
  rw [show addressArguments undefined ip =
    ⟨(addressArguments undefined ip).words, 0⟩ from rfl] at htext
  simp only [VaList.rest, hnext] at htext
  have hwhole : formattedLoop (fun _ _ => none) strings (addressFormat.length + 1) addressFormat
      (addressArguments undefined ip) = some (true, sites) := hloop
  unfold formatted
  rw [hwhole]
  exact congrArg (fun output => some (true, output)) htext

end Address

section RoundTrip

variable {ip : BitVec 32}

theorem octet_toNat (ip : BitVec 32) :
    (octet ip 0).toNat = ip.toNat / 2 ^ 24 ∧ (octet ip 1).toNat = ip.toNat / 2 ^ 16 % 2 ^ 8 ∧
      (octet ip 2).toNat = ip.toNat / 2 ^ 8 % 2 ^ 8 ∧ (octet ip 3).toNat = ip.toNat % 2 ^ 8 := by
  have hmask (v : BitVec 32) : (v &&& 0xFF).toNat = v.toNat % 2 ^ 8 := by
    rw [BitVec.toNat_and]
    exact Nat.and_two_pow_sub_one_eq_mod v.toNat 8
  have hshift (k : ℕ) : (ip >>> k).toNat = ip.toNat / 2 ^ k := by
    rw [BitVec.toNat_ushiftRight, Nat.shiftRight_eq_div_pow]
  show (ip >>> 24 &&& 0xFF).toNat = _ ∧ (ip >>> 16 &&& 0xFF).toNat = _ ∧
    (ip >>> 8 &&& 0xFF).toNat = _ ∧ (ip &&& 0xFF).toNat = _
  rw [hmask, hmask, hmask, hmask, hshift, hshift, hshift]
  have hlt := ip.isLt
  omega

/-- A printed number up to 255 is a group of at most three digits. -/
theorem isOctet_printedDigits {v : BitVec 32} (hv : v.toNat ≤ 255) :
    IsOctet (printedDigits v.toNat) v ∧ (printedDigits v.toNat).length ≤ 3 := by
  have hpadded : printedDigits v.toNat =
      (paddedDigits 10 (onlyZero v.toNat) v.toNat).map (numeralByte false) :=
    zeros_numeral 10 (onlyZero v.toNat) v.toNat false
  have hless : ∀ d ∈ paddedDigits 10 (onlyZero v.toNat) v.toNat, d < 10 :=
    paddedDigits_lt (by decide)
  have hdecimal : decimal (printedDigits v.toNat) = v.toNat := by
    unfold decimal
    rw [hpadded, filterMap_digitOf fun d hd => Nat.lt_trans (hless d hd) (by decide),
      value_paddedDigits]
  have hlength : printedDigits v.toNat ≠ [] ∧ (printedDigits v.toNat).length ≤ 3 := by
    unfold printedDigits
    rw [← List.length_pos_iff, List.length_append, length_zeros, length_numeral]
    unfold onlyZero
    by_cases hzero : (v.toNat : ℤ) = 0
    · have hnat : v.toNat = 0 := by
        omega
      rw [if_pos hzero, hnat, Nat.digits_zero]
      decide
    · have hpositive : 0 < (Nat.digits 10 v.toNat).length := by
        rw [List.length_pos_iff, Nat.digits_ne_nil_iff_ne_zero]
        omega
      have hshort : (Nat.digits 10 v.toNat).length ≤ 3 := by
        apply (Nat.digits_length_le_iff (by decide) v.toNat).mpr
        omega
      rw [if_neg hzero]
      omega
  refine ⟨⟨hlength.1, ?_, hdecimal.symm, hdecimal.trans_le hv⟩, hlength.2⟩
  intro c hc
  rw [hpadded] at hc
  obtain ⟨d, hd, rfl⟩ := List.mem_map.mp hc
  have hd := hless d hd
  interval_cases d <;> decide

/-- The text of an address is an address in digits and dots. -/
theorem quad_addressText (ip : BitVec 32) : Quad IsOctet (addressText ip) ip := by
  obtain ⟨h0, h1, h2, h3⟩ := octet_toNat ip
  have hlt := ip.isLt
  have hoctet {v : BitVec 32} (hv : v.toNat ≤ 255) := (isOctet_printedDigits hv).1
  refine ⟨[octet ip 0, octet ip 1, octet ip 2, octet ip 3], ?_, rfl, ?_⟩
  · apply Joined.more (hoctet (by omega))
    apply Joined.more (hoctet (by omega))
    apply Joined.more (hoctet (by omega))
    exact Joined.last (hoctet (by omega))
  · show ip.toNat = (((0 * 256 + (octet ip 0).toNat) * 256 + (octet ip 1).toNat) * 256 +
      (octet ip 2).toNat) * 256 + (octet ip 3).toNat
    omega

theorem length_addressText (ip : BitVec 32) : (addressText ip).length ≤ 15 := by
  obtain ⟨h0, h1, h2, h3⟩ := octet_toNat ip
  have hlt := ip.isLt
  have hshort {v : BitVec 32} (hv : v.toNat ≤ 255) := (isOctet_printedDigits hv).2
  have hfirst := hshort (v := octet ip 0) (by omega)
  have hsecond := hshort (v := octet ip 1) (by omega)
  have hthird := hshort (v := octet ip 2) (by omega)
  have hfourth := hshort (v := octet ip 3) (by omega)
  unfold addressText
  simp only [List.length_append, List.length_cons]
  omega

theorem nul_notMem_addressText (ip : BitVec 32) : 0 ∉ addressText ip := by
  intro hmem
  obtain ⟨parts, hjoined, -⟩ := quad_addressText ip
  rcases hjoined.mem_cases hmem with heq | ⟨g, v, hgroup, hin⟩
  · exact absurd heq (by decide)
  · exact absurd (hgroup.digit 0 hin) (by decide)

/-- What `formatIp` leaves in a buffer of 16 characters and more. -/
theorem formatIp_eq (strings : BitVec 64 → List UInt8) (undefined : ℕ → BitVec 32)
    (ip : BitVec 32) (out : Memory) {len : ℕ} (hlen : 16 ≤ len) :
    ∃ content, formatIp strings undefined ip out len = some content ∧
      cString ((List.range len).map content) = addressText ip := by
  have hlength := length_addressText ip
  obtain ⟨content, hresult, hstored⟩ := (vsnprintfWith_formatted (fun _ _ => none) strings out len
    addressFormat (addressArguments undefined ip)).2 true (addressText ip)
      (formatted_address strings undefined ip)
  rw [vsnprintfWith_none] at hresult
  refine ⟨content, ?_, ?_⟩
  · unfold formatIp
    rw [hresult]
    rfl
  · rw [hstored (by omega)]
    exact cString_stored (nul_notMem_addressText ip) out (by omega)

end RoundTrip

/-- A text is read as the address it is exactly if it is not disguised as one with blanks
and signs; and what has been printed is read back. -/
theorem address_text_iff (text : List UInt8) :
    (Exact text ↔ Undisguised text) ∧
    ∀ (strings : BitVec 64 → List UInt8) (undefined : ℕ → BitVec 32) (ip out : BitVec 32)
      (memory : Memory) (len : ℕ), 16 ≤ len →
      ∃ content, formatIp strings undefined ip memory len = some content ∧
        parseIp (some (cString ((List.range len).map content))) (some out) = (true, some ip) := by
  constructor
  · exact exact_iff text
  · intro strings undefined ip out memory len hlen
    obtain ⟨content, hformat, htext⟩ := formatIp_eq strings undefined ip memory hlen
    refine ⟨content, hformat, ?_⟩
    rw [htext]
    apply (parseIp_iff out).mpr
    exact (quad_addressText ip).tolerated

/-- The largest address, in the buffer that it just fits. -/
theorem address_text_iff_largest :
    ∃ content, formatIp (fun _ => []) (fun _ => 0) 0xFFFFFFFF (fun _ => 0) 16 = some content ∧
      parseIp (some (cString ((List.range 16).map content))) (some 0) = (true, some 0xFFFFFFFF) :=
  (address_text_iff []).2 (fun _ => []) (fun _ => 0) 0xFFFFFFFF 0 (fun _ => 0) 16 (Nat.le_refl 16)

/-- A blank and a plus sign are no part of an address, but accepted. -/
theorem address_text_disguised :
    ¬ ∀ text, Exact text := by
  intro hall
  have haccepted : parseIp (some (" 1.+2.3.4".toList.map Char.toUInt8)) (some 0) =
      (true, some 0x01020304) := by
    decide
  have hclean := ((hall _ 0 _).mp haccepted).clean ' '.toUInt8 List.mem_cons_self
  exact absurd hclean.1 (by decide)

end Heartix.Network
