import Heartix.Lib.OnesComplement

/-!
The checksum that `ping` puts into its packets, on a little-endian machine, and the
Internet checksum: the ones' complement of the ones' complement sum of the words of a
packet, in network order.
-/

namespace Heartix.Network

open OnesComplement

/-- A word in memory. -/
def loadWord (first second : UInt8) : UInt16 := first.toUInt16 + (second.toUInt16 <<< 8)

def storeWord (word : UInt16) : List UInt8 := [word.toUInt8, (word >>> 8).toUInt8]

/-- The loop of `checksum16` over the words, and the byte that may be left. -/
def addWords : List UInt8 → UInt32 → UInt32
  | first :: second :: rest, sum => addWords rest (sum + (loadWord first second).toUInt32)
  | [last], sum => sum + (last.toUInt16 <<< 8).toUInt32
  | [], sum => sum

theorem toNat_shift (sum : UInt32) : (sum >>> 16).toNat = sum.toNat / 65536 := by
  rw [UInt32.toNat_shiftRight]
  exact Nat.shiftRight_eq_div_pow sum.toNat 16

theorem toNat_mask (sum : UInt32) : (sum &&& (0xFFFF : UInt32)).toNat = sum.toNat % 65536 := by
  rw [UInt32.toNat_and]
  exact Nat.and_two_pow_sub_one_eq_mod sum.toNat 16

theorem shift_ne_zero_iff (sum : UInt32) : sum >>> 16 ≠ 0 ↔ 65536 ≤ sum.toNat := by
  have hzero : sum >>> 16 = 0 ↔ sum.toNat / 65536 = 0 := by
    rw [← UInt32.toNat_inj, toNat_shift]
    exact Iff.rfl
  rw [ne_eq, hzero]
  omega

theorem toNat_carry (sum : UInt32) : ((sum &&& (0xFFFF : UInt32)) + (sum >>> 16)).toNat =
    sum.toNat % 65536 + sum.toNat / 65536 := by
  have hlt := sum.toNat_lt
  rw [UInt32.toNat_add, toNat_mask, toNat_shift]
  exact Nat.mod_eq_of_lt (by omega)

def addCarries (sum : UInt32) : UInt32 :=
  if _ : sum >>> 16 ≠ 0 then addCarries ((sum &&& (0xFFFF : UInt32)) + (sum >>> 16)) else sum
termination_by sum.toNat
decreasing_by
  have hle := (shift_ne_zero_iff sum).mp ‹_›
  rw [toNat_carry]
  omega

def checksum16 (data : List UInt8) : UInt16 := (~~~addCarries (addWords data 0)).toUInt16

/-- The words of a packet in network order. A byte that is left has a zero byte behind it. -/
def networkWords : List UInt8 → List ℕ
  | first :: second :: rest => (first.toNat * 256 + second.toNat) :: networkWords rest
  | [last] => [last.toNat * 256]
  | [] => []

def internetChecksum (data : List UInt8) : ℕ := 65535 - sum 65536 (networkWords data)

def networkBytes (n : ℕ) : List UInt8 := [(n / 256).toUInt8, (n % 256).toUInt8]

/-- The words as they are added. The byte that is left is the high byte of its word. -/
def machineWords : List UInt8 → List ℕ
  | first :: second :: rest => (first.toNat + 256 * second.toNat) :: machineWords rest
  | [last] => [last.toNat * 256]
  | [] => []

section Words

theorem toNat_loadWord (first second : UInt8) :
    (loadWord first second).toNat = first.toNat + 256 * second.toNat := by
  have hfirst := first.toNat_lt
  have hsecond := second.toNat_lt
  have height : (8 : UInt16).toNat % 16 = 8 := rfl
  unfold loadWord
  rw [UInt16.toNat_add, UInt16.toNat_shiftLeft, UInt8.toNat_toUInt16, UInt8.toNat_toUInt16, height,
    Nat.shiftLeft_eq]
  omega

theorem toNat_highByte (last : UInt8) : (last.toUInt16 <<< 8).toNat = last.toNat * 256 := by
  have hlast := last.toNat_lt
  have height : (8 : UInt16).toNat % 16 = 8 := rfl
  rw [UInt16.toNat_shiftLeft, UInt8.toNat_toUInt16, height, Nat.shiftLeft_eq]
  omega

/-- A word is loaded as it was stored. -/
theorem storeWord_eq (word : UInt16) : storeWord word =
    networkBytes (swap 256 word.toNat) := by
  have hword := word.toNat_lt
  have hhigh : swap 256 word.toNat / 256 = word.toNat % 256 := by
    unfold swap
    omega
  have hlow : swap 256 word.toNat % 256 = word.toNat / 256 := by
    unfold swap
    omega
  unfold storeWord networkBytes
  rw [hhigh, hlow]
  congr 1
  · apply UInt8.toNat_inj.mp
    rw [UInt16.toNat_toUInt8, Nat.toUInt8_eq, UInt8.toNat_ofNat']
    omega
  · congr 1
    apply UInt8.toNat_inj.mp
    have height : (8 : UInt16).toNat % 16 = 8 := rfl
    rw [UInt16.toNat_toUInt8, UInt16.toNat_shiftRight, height, Nat.shiftRight_eq_div_pow,
      Nat.toUInt8_eq, UInt8.toNat_ofNat']

theorem networkBytes_inj {m n : ℕ} (hm : m < 65536) (hn : n < 65536) :
    networkBytes m = networkBytes n ↔ m = n := by
  constructor
  · intro h
    unfold networkBytes at h
    obtain ⟨hhigh, hlow⟩ := List.cons.inj h
    have hhigh := congrArg UInt8.toNat hhigh
    have hlow := congrArg UInt8.toNat (List.cons.inj hlow).1
    rw [Nat.toUInt8_eq, Nat.toUInt8_eq, UInt8.toNat_ofNat', UInt8.toNat_ofNat'] at hhigh hlow
    omega
  · rintro rfl
    rfl

theorem toNat_addWords (data : List UInt8) (sum : UInt32) :
    (addWords data sum).toNat = (sum.toNat + (machineWords data).sum) % 2 ^ 32 := by
  induction data using machineWords.induct generalizing sum with
  | case1 first second rest ih =>
    unfold addWords machineWords
    rw [ih, List.sum_cons, UInt32.toNat_add, UInt16.toNat_toUInt32, toNat_loadWord, Nat.mod_add_mod,
      Nat.add_assoc]
  | case2 last =>
    unfold addWords machineWords
    rw [List.sum_singleton, UInt32.toNat_add, UInt16.toNat_toUInt32, toNat_highByte]
  | case3 =>
    have hlt := sum.toNat_lt
    unfold addWords machineWords
    rw [List.sum_nil, Nat.add_zero, Nat.mod_eq_of_lt hlt]

theorem toNat_addCarries (sum : UInt32) : (addCarries sum).toNat = fold 65536 sum.toNat := by
  induction sum using addCarries.induct with
  | case1 sum hcarry ih =>
    have hle := (shift_ne_zero_iff sum).mp hcarry
    rw [addCarries, dif_pos hcarry, ih, toNat_carry, fold_of_le (by decide) hle]
  | case2 sum hnone =>
    have hlt := Nat.not_le.mp (mt (shift_ne_zero_iff sum).mpr hnone)
    rw [addCarries, dif_neg hnone, fold_of_lt hlt]

/-- The checksum of the words, of which the carries out of 32 bits are lost. -/
theorem toNat_checksum16 (data : List UInt8) : (checksum16 data).toNat =
    65535 - fold 65536 ((machineWords data).sum % 2 ^ 32) := by
  have hfold := fold_lt (b := 65536) (by decide) ((machineWords data).sum % 2 ^ 32)
  have hsum : (addCarries (addWords data 0)).toNat =
      fold 65536 ((machineWords data).sum % 2 ^ 32) := by
    rw [toNat_addCarries, toNat_addWords]
    exact congrArg (fun n => fold 65536 (n % 2 ^ 32)) (Nat.zero_add _)
  have hsize : UInt32.size = 2 ^ 32 := rfl
  unfold checksum16
  rw [UInt32.toNat_toUInt16, UInt32.toNat_not, hsum, hsize]
  omega

theorem networkWords_lt (data : List UInt8) : ∀ w ∈ networkWords data, w < 256 * 256 := by
  induction data using networkWords.induct with
  | case1 first second rest ih =>
    exact List.forall_mem_cons.mpr ⟨digits_lt first.toNat_lt second.toNat_lt, ih⟩
  | case2 last =>
    have hlast := last.toNat_lt
    exact List.forall_mem_singleton.mpr (by omega)
  | case3 => exact List.forall_mem_nil _

theorem sum_machineWords_le (data : List UInt8) :
    (machineWords data).sum ≤ 65535 * ((data.length + 1) / 2) := by
  induction data using machineWords.induct with
  | case1 first second rest ih =>
    have hfirst := first.toNat_lt
    have hsecond := second.toNat_lt
    unfold machineWords
    rw [List.sum_cons, List.length_cons, List.length_cons]
    omega
  | case2 last =>
    have hlast := last.toNat_lt
    unfold machineWords
    rw [List.sum_singleton, List.length_singleton]
    omega
  | case3 => exact Nat.zero_le _

/-- The machine reads the bytes of each pair the other way round. -/
theorem machineWords_of_even {data : List UInt8} (h : data.length % 2 = 0) :
    machineWords data = (networkWords data).map (swap 256) := by
  induction data using machineWords.induct with
  | case1 first second rest ih =>
    unfold machineWords networkWords
    rw [List.length_cons, List.length_cons] at h
    rw [List.map_cons, swap_digits second.toNat_lt, ih (by omega), Nat.mul_comm, Nat.add_comm]
  | case2 last => cases h
  | case3 => rfl

theorem machineWords_append {front : List UInt8} (h : front.length % 2 = 0) (back : List UInt8) :
    machineWords (front ++ back) = machineWords front ++ machineWords back := by
  induction front using machineWords.induct with
  | case1 first second rest ih =>
    rw [List.length_cons, List.length_cons] at h
    rw [List.cons_append, List.cons_append, machineWords, machineWords, ih (by omega),
      List.cons_append]
  | case2 last => cases h
  | case3 => rfl

theorem networkWords_append {front : List UInt8} (h : front.length % 2 = 0) (back : List UInt8) :
    networkWords (front ++ back) = networkWords front ++ networkWords back := by
  induction front using networkWords.induct with
  | case1 first second rest ih =>
    rw [List.length_cons, List.length_cons] at h
    rw [List.cons_append, List.cons_append, networkWords, networkWords, ih (by omega),
      List.cons_append]
  | case2 last => cases h
  | case3 => rfl

theorem sum_networkWords_lt (data : List UInt8) : sum 65536 (networkWords data) < 65536 :=
  sum_lt (by decide) (networkWords_lt data)

/-- In memory, the checksum is the complement of the sum with the bytes exchanged. -/
theorem storeWord_checksum16 (data : List UInt8) : storeWord (checksum16 data) =
    networkBytes (65535 - swap 256 (fold 65536 ((machineWords data).sum % 2 ^ 32))) := by
  have hlt : fold 65536 ((machineWords data).sum % 2 ^ 32) < 256 * 256 := fold_lt (by decide) _
  rw [storeWord_eq, toNat_checksum16]
  exact congrArg networkBytes (swap_complement hlt)

theorem stored_iff {data : List UInt8} (hlength : data.length ≤ 65535) :
    storeWord (checksum16 data) = networkBytes (internetChecksum data) ↔
      fold 65536 (machineWords data).sum = swap 256 (sum 65536 (networkWords data)) := by
  have hbound := sum_machineWords_le data
  have hnone : (machineWords data).sum % 2 ^ 32 = (machineWords data).sum :=
    Nat.mod_eq_of_lt (by omega)
  have hfold : fold 65536 (machineWords data).sum < 256 * 256 := fold_lt (by decide) _
  have hsum : sum 65536 (networkWords data) < 256 * 256 := sum_networkWords_lt data
  have hswap := swap_lt hfold
  rw [storeWord_checksum16, hnone]
  unfold internetChecksum
  rw [networkBytes_inj (by omega) (by omega)]
  constructor
  · intro h
    rw [← swap_swap hfold]
    exact congrArg (swap 256) (by omega)
  · intro h
    rw [h, swap_swap hsum]

/-- The machine's words add up to the sum with its bytes exchanged. -/
theorem fold_swapped {words : List ℕ} (hwords : ∀ w ∈ words, w < 256 * 256) :
    fold 65536 (words.map (swap 256)).sum = swap 256 (sum 65536 words) := by
  have hswapped : ∀ w ∈ words.map (swap 256), w < 256 * 256 := by
    intro w hw
    obtain ⟨v, hv, rfl⟩ := List.mem_map.mp hw
    exact swap_lt (hwords v hv)
  rw [← sum_map_swap (by decide) hwords]
  exact (sum_eq_fold (by decide) hswapped).symm

/-- A byte that is left would have to be the low byte of its word. -/
theorem fold_odd_iff {front : List UInt8} (hfront : front.length % 2 = 0) (last : UInt8) :
    fold 65536 (machineWords (front ++ [last])).sum =
      swap 256 (sum 65536 (networkWords (front ++ [last]))) ↔ last = 0 := by
  have hlast := last.toNat_lt
  have hswap : swap 256 (last.toNat * 256) = last.toNat := by
    have hdigits := swap_digits (c := 256) (by decide : 0 < 256) last.toNat
    rwa [Nat.add_zero, Nat.zero_mul, Nat.zero_add] at hdigits
  have hmachine : (machineWords (front ++ [last])).sum =
      ((networkWords front).map (swap 256)).sum + last.toNat * 256 := by
    rw [machineWords_append hfront, machineWords_of_even hfront, List.sum_append]
    unfold machineWords
    rw [List.sum_singleton]
  have hnetwork : ((networkWords (front ++ [last])).map (swap 256)).sum =
      ((networkWords front).map (swap 256)).sum + last.toNat := by
    rw [networkWords_append hfront, List.map_append, List.sum_append]
    unfold networkWords
    rw [List.map_singleton, List.sum_singleton, hswap]
  rw [← fold_swapped (networkWords_lt _), hmachine, hnetwork, fold_eq_iff (by decide)]
  constructor
  · rintro ⟨hmod, _⟩
    have hdvd := (Nat.modEq_iff_dvd' (by omega)).mp hmod.symm
    have hzero : last.toNat = 0 := by omega
    exact UInt8.toNat_inj.mp hzero
  · rintro rfl
    exact ⟨Nat.ModEq.refl _, Iff.rfl⟩

theorem stored_checksum_iff {data : List UInt8} (hlength : data.length ≤ 65535) :
    storeWord (checksum16 data) = networkBytes (internetChecksum data) ↔
      data.length % 2 = 0 ∨ data.getLast? = some 0 := by
  rw [stored_iff hlength]
  by_cases heven : data.length % 2 = 0
  · rw [machineWords_of_even heven]
    exact iff_of_true (fold_swapped (networkWords_lt data)) (Or.inl heven)
  · obtain rfl | ⟨front, last, hconcat⟩ := data.eq_nil_or_concat
    · exact absurd rfl heven
    · rw [List.concat_eq_append] at hconcat
      subst hconcat
      rw [List.length_append, List.length_singleton] at heven
      rw [fold_odd_iff (by omega), List.length_append, List.length_singleton, or_iff_right heven,
        List.getLast?_concat, Option.some_inj]

theorem machineWords_storeWord (word : UInt16) (back : List UInt8) :
    machineWords (storeWord word ++ back) = word.toNat :: machineWords back := by
  have hword := word.toNat_lt
  have height : (8 : UInt16).toNat % 16 = 8 := rfl
  unfold storeWord
  rw [List.cons_append, List.singleton_append, machineWords]
  congr 1
  rw [UInt16.toNat_toUInt8, UInt16.toNat_toUInt8, UInt16.toNat_shiftRight, height,
    Nat.shiftRight_eq_div_pow]
  omega

/-- The words of a packet with a checksum in it, and of the one it was computed for. -/
theorem sum_machineWords_field {front : List UInt8} (hfront : front.length % 2 = 0)
    (word : UInt16) (back : List UInt8) :
    (machineWords (front ++ (storeWord word ++ back))).sum =
      (machineWords (front ++ (0 :: 0 :: back))).sum + word.toNat := by
  have hzero : machineWords (0 :: 0 :: back) = 0 :: machineWords back := rfl
  rw [machineWords_append hfront, machineWords_append hfront, machineWords_storeWord, hzero,
    List.sum_append, List.sum_append, List.sum_cons, List.sum_cons]
  omega

theorem sum_networkWords_eq_iff {data : List UInt8} (heven : data.length % 2 = 0) :
    sum 65536 (networkWords data) = 65535 ↔ fold 65536 (machineWords data).sum = 65535 := by
  have hsum : sum 65536 (networkWords data) < 256 * 256 := sum_networkWords_lt data
  have hmax : swap 256 65535 = 65535 := by decide
  rw [machineWords_of_even heven, fold_swapped (networkWords_lt data)]
  constructor
  · intro h
    rw [h, hmax]
  · intro h
    rw [← swap_swap hsum, h, hmax]

/-- A packet adds up to 65535 unless carries out of the 32 bits were lost. -/
theorem sum_packet_iff {front back : List UInt8} (hfront : front.length % 2 = 0)
    (hback : back.length % 2 = 0) :
    sum 65536 (networkWords (front ++
        (storeWord (checksum16 (front ++ (0 :: 0 :: back))) ++ back))) = 65535 ↔
      65535 ∣ (machineWords (front ++ (0 :: 0 :: back))).sum / 2 ^ 32 := by
  have heven (word : UInt16) : (front ++ (storeWord word ++ back)).length % 2 = 0 := by
    unfold storeWord
    simp only [List.length_append, List.length_cons, List.length_nil]
    omega
  rw [sum_networkWords_eq_iff (heven _), sum_machineWords_field hfront, toNat_checksum16]
  generalize (machineWords (front ++ (0 :: 0 :: back))).sum = m
  have hone : 1 < 65536 := by decide
  have hlt := fold_lt hone (m % 2 ^ 32)
  have hzero := fold_eq_zero hone (m % 2 ^ 32)
  have hmod := (Nat.modEq_iff_dvd).mp (fold_modEq hone (m % 2 ^ 32))
  have hmax := fold_eq_max_iff (n := m + (65535 - fold 65536 (m % 2 ^ 32))) hone
  generalize fold 65536 (m % 2 ^ 32) = f at *
  rw [show (65535 : ℕ) = 65536 - 1 from rfl, hmax]
  omega

/-- No carries are lost in packets of up to 131074 bytes. -/
theorem sum_packet {front back : List UInt8} (hfront : front.length % 2 = 0)
    (hback : back.length % 2 = 0) (hlength : front.length + back.length ≤ 131072) :
    sum 65536 (networkWords (front ++
        (storeWord (checksum16 (front ++ (0 :: 0 :: back))) ++ back))) = 65535 := by
  have hsum := sum_machineWords_le (front ++ (0 :: 0 :: back))
  rw [List.length_append, List.length_cons, List.length_cons] at hsum
  rw [sum_packet_iff hfront hback, Nat.div_eq_of_lt (by omega)]
  exact dvd_zero 65535

end Words

/-- The checksum of a sequence of bytes is the Internet checksum, if no byte is left at
the end or it is zero. A packet with its checksum in it adds up to 65535, if the number
of carries that were lost is a multiple of that. -/
theorem checksum16_iff (data : List UInt8) (hlength : data.length ≤ 65535)
    (front back : List UInt8) (hfront : front.length % 2 = 0) (hback : back.length % 2 = 0) :
    (storeWord (checksum16 data) = networkBytes (internetChecksum data) ↔
      data.length % 2 = 0 ∨ data.getLast? = some 0) ∧
    (sum 65536 (networkWords (front ++
        (storeWord (checksum16 (front ++ (0 :: 0 :: back))) ++ back))) = 65535 ↔
      65535 ∣ (machineWords (front ++ (0 :: 0 :: back))).sum / 2 ^ 32) :=
  ⟨stored_checksum_iff hlength, sum_packet_iff hfront hback⟩

theorem checksum16_iff_request :
    (storeWord (checksum16 [1, 2, 0]) = networkBytes (internetChecksum [1, 2, 0]) ↔
      [1, 2, (0 : UInt8)].length % 2 = 0 ∨ [1, 2, (0 : UInt8)].getLast? = some 0) ∧
    (sum 65536 (networkWords ([8, 0] ++
        (storeWord (checksum16 ([8, 0] ++ (0 :: 0 :: [0x13, 0x37]))) ++ [0x13, 0x37]))) = 65535 ↔
      65535 ∣ (machineWords ([8, 0] ++ (0 :: 0 :: [0x13, 0x37]))).sum / 2 ^ 32) :=
  checksum16_iff [1, 2, 0] (by decide) [8, 0] [0x13, 0x37] rfl rfl

/-- The byte 1 is taken for the word 0x0100, which is 0x0001 in network order. -/
theorem checksum16_odd : storeWord (checksum16 [1]) = [0xFF, 0xFE] ∧
    networkBytes (internetChecksum [1]) = [0xFE, 0xFF] ∧
    storeWord (checksum16 [1]) ≠ networkBytes (internetChecksum [1]) := by
  have hcarries : addCarries 0x100 = 0x100 := by
    rw [addCarries, dif_neg (by decide)]
  have hstored : storeWord (checksum16 [1]) = [0xFF, 0xFE] := by
    have haddWords : addWords [1] 0 = 0x100 := by decide
    unfold checksum16
    rw [haddWords, hcarries]
    decide
  have hnetwork : networkBytes (internetChecksum [1]) = [0xFE, 0xFF] := by decide
  refine ⟨hstored, hnetwork, ?_⟩
  rw [hstored, hnetwork]
  decide

section Echo

def hostToNetwork32 (value : UInt32) : List UInt8 :=
  networkBytes (value.toNat / 65536) ++ networkBytes (value.toNat % 65536)

def ETHERTYPE_IPV4 : ℕ := 0x0800
def IP_TTL_DEFAULT : UInt8 := 64
def IP_PROTOCOL_ICMP : UInt8 := 1
def ICMP_TYPE_ECHO_REQUEST : UInt8 := 8

/-- The bytes of an `ipv4_header` in front of its checksum. -/
def ipv4Front : List UInt8 :=
  [0x45, 0] ++ networkBytes 60 ++ [0, 0, 0, 0, IP_TTL_DEFAULT, IP_PROTOCOL_ICMP]

def ipv4Back (localIp targetIp : UInt32) : List UInt8 :=
  hostToNetwork32 localIp ++ hostToNetwork32 targetIp

/-- The bytes of an `icmp_echo` behind its checksum. -/
def icmpBack (sequence : UInt16) : List UInt8 :=
  networkBytes 0x1337 ++ networkBytes sequence.toNat ++
    "ghost ping utility".toList.map Char.toUInt8 ++ List.replicate 14 0

/-- A part of the packet, with the checksum computed while its field is zero. -/
def checksummed (front back : List UInt8) : List UInt8 :=
  front ++ (storeWord (checksum16 (front ++ (0 :: 0 :: back))) ++ back)

/-- The frame that `sendIcmpEcho` sends. -/
def icmpEchoFrame (targetMac mac : Vector UInt8 6) (localIp targetIp : UInt32)
    (sequence : UInt16) : List UInt8 :=
  targetMac.toList ++ mac.toList ++ networkBytes ETHERTYPE_IPV4 ++
    checksummed ipv4Front (ipv4Back localIp targetIp) ++
    checksummed [ICMP_TYPE_ECHO_REQUEST, 0] (icmpBack sequence)

/-- Behind the Ethernet header of an echo request come two parts that add up to 65535. -/
theorem echo_valid (targetMac mac : Vector UInt8 6) (localIp targetIp : UInt32)
    (sequence : UInt16) :
    ∃ header icmp, (icmpEchoFrame targetMac mac localIp targetIp sequence).drop 14 =
        header ++ icmp ∧ header.length = 20 ∧ icmp.length = 40 ∧
      sum 65536 (networkWords header) = 65535 ∧ sum 65536 (networkWords icmp) = 65535 := by
  have hipv4 : (ipv4Back localIp targetIp).length = 8 := rfl
  have hicmp : (icmpBack sequence).length = 36 := rfl
  have hethernet : (targetMac.toList ++ mac.toList ++ networkBytes ETHERTYPE_IPV4).length = 14 := by
    rw [List.length_append, List.length_append, Vector.length_toList, Vector.length_toList]
    rfl
  refine ⟨checksummed ipv4Front (ipv4Back localIp targetIp),
    checksummed [ICMP_TYPE_ECHO_REQUEST, 0] (icmpBack sequence), ?_, rfl, rfl, ?_, ?_⟩
  · unfold icmpEchoFrame
    rw [List.append_assoc _ (checksummed ipv4Front _), ← hethernet]
    exact List.drop_left
  · exact sum_packet rfl (by rw [hipv4]) (by rw [hipv4]; decide)
  · exact sum_packet rfl (by rw [hicmp]) (by rw [hicmp]; decide)

end Echo

end Heartix.Network
