import Heartix.Network.Checksum
import Mathlib.Tactic.IntervalCases

/-!
The frames of `ping`: ARP requests and replies, echo requests, and what it takes for a
reply. The headers are packed structures, so they are read where they were written. Of a
frame that is received only the bytes are there that its length counts: the program
reads no others.
-/

namespace Heartix.Network

abbrev Mac := Vector UInt8 6

def ETHERTYPE_ARP : UInt16 := 0x0806
def ARP_HTYPE_ETHERNET : UInt16 := 1
def ARP_PTYPE_IPV4 : UInt16 := 0x0800
def ARP_HLEN_ETHERNET : UInt8 := 6
def ARP_PLEN_IPV4 : UInt8 := 4
def ARP_OPER_REQUEST : UInt16 := 1
def ARP_OPER_REPLY : UInt16 := 2
def IP_VERSION : UInt8 := 4
def IP_IHL_WORDS : UInt8 := 5
def ICMP_TYPE_ECHO_REPLY : UInt8 := 0

/-- A byte of a frame. -/
def byteAt (bytes : List UInt8) (offset : ℕ) : UInt8 := bytes.getD offset 0

/-- A word in network order. -/
def networkToHost16 (bytes : List UInt8) (offset : ℕ) : UInt16 :=
  UInt16.ofNat ((byteAt bytes offset).toNat * 256 + (byteAt bytes (offset + 1)).toNat)

def networkToHost32 (bytes : List UInt8) (offset : ℕ) : UInt32 :=
  UInt32.ofNat ((networkToHost16 bytes offset).toNat * 65536 +
    (networkToHost16 bytes (offset + 2)).toNat)

def macAt (bytes : List UInt8) (offset : ℕ) : Mac :=
  #v[byteAt bytes offset, byteAt bytes (offset + 1), byteAt bytes (offset + 2),
    byteAt bytes (offset + 3), byteAt bytes (offset + 4), byteAt bytes (offset + 5)]

/-- An `ethernet_header`, with its type as the host has it. -/
structure EthernetHeader where
  dest : Mac
  src : Mac
  ethertype : UInt16
  deriving DecidableEq

def EthernetHeader.bytes (eth : EthernetHeader) : List UInt8 :=
  eth.dest.toList ++ eth.src.toList ++ networkBytes eth.ethertype.toNat

def ethernetHeader (frame : List UInt8) : EthernetHeader where
  dest := macAt frame 0
  src := macAt frame 6
  ethertype := networkToHost16 frame 12

/-- An `arp_packet`, with its numbers as the host has them. -/
structure ArpPacket where
  htype : UInt16
  ptype : UInt16
  hlen : UInt8
  plen : UInt8
  oper : UInt16
  sha : Mac
  spa : UInt32
  tha : Mac
  tpa : UInt32
  deriving DecidableEq

def ArpPacket.bytes (arp : ArpPacket) : List UInt8 :=
  networkBytes arp.htype.toNat ++ networkBytes arp.ptype.toNat ++ [arp.hlen, arp.plen] ++
    networkBytes arp.oper.toNat ++ arp.sha.toList ++ hostToNetwork32 arp.spa ++
    arp.tha.toList ++ hostToNetwork32 arp.tpa

def arpPacket (frame : List UInt8) : ArpPacket where
  htype := networkToHost16 frame 14
  ptype := networkToHost16 frame 16
  hlen := byteAt frame 18
  plen := byteAt frame 19
  oper := networkToHost16 frame 20
  sha := macAt frame 22
  spa := networkToHost32 frame 28
  tha := macAt frame 32
  tpa := networkToHost32 frame 38

/-- The globals of the program: its channel's address and the two addresses it was given. -/
structure Station where
  mac : Mac
  localIp : UInt32
  targetIp : UInt32

namespace Station

variable (station : Station)

def sendArpReply (targetMac : Mac) (targetIp : UInt32) : List UInt8 :=
  EthernetHeader.bytes
    { dest := targetMac, src := station.mac, ethertype := ETHERTYPE_ARP } ++
  ArpPacket.bytes
    { htype := ARP_HTYPE_ETHERNET, ptype := ARP_PTYPE_IPV4, hlen := ARP_HLEN_ETHERNET,
      plen := ARP_PLEN_IPV4, oper := ARP_OPER_REPLY, sha := station.mac,
      spa := station.localIp, tha := targetMac, tpa := targetIp }

def sendArpRequest : List UInt8 :=
  EthernetHeader.bytes
    { dest := Vector.replicate 6 0xFF, src := station.mac, ethertype := ETHERTYPE_ARP } ++
  ArpPacket.bytes
    { htype := ARP_HTYPE_ETHERNET, ptype := ARP_PTYPE_IPV4, hlen := ARP_HLEN_ETHERNET,
      plen := ARP_PLEN_IPV4, oper := ARP_OPER_REQUEST, sha := station.mac,
      spa := station.localIp, tha := Vector.replicate 6 0x00, tpa := station.targetIp }

/-- The reply to a request for this station's address. -/
def handleArpRequest (frame : List UInt8) : Option (List UInt8) :=
  if frame.length < 42 then none
  else if (ethernetHeader frame).ethertype ≠ ETHERTYPE_ARP then none
  else if (arpPacket frame).oper ≠ ARP_OPER_REQUEST then none
  else if (arpPacket frame).tpa ≠ station.localIp then none
  else some (station.sendArpReply (arpPacket frame).sha (arpPacket frame).spa)

def tryParseArpReply (frame : List UInt8) : Option Mac :=
  if frame.length < 42 then none
  else if (ethernetHeader frame).ethertype ≠ ETHERTYPE_ARP then none
  else if (arpPacket frame).oper ≠ ARP_OPER_REPLY then none
  else if (arpPacket frame).spa ≠ station.targetIp then none
  else if (arpPacket frame).tpa ≠ station.localIp then none
  else some (arpPacket frame).sha

def sendIcmpEcho (sequence : UInt16) (targetMac : Mac) : List UInt8 :=
  icmpEchoFrame targetMac station.mac station.localIp station.targetIp sequence

/-- The checksums are not looked at. -/
def tryHandleIcmpReply (frame : List UInt8) (sequence : UInt16) : Bool :=
  let versionAndHeaderLength := byteAt frame 14
  let ipHeaderLength := (versionAndHeaderLength &&& 0x0F).toNat * 4
  let icmp := 14 + ipHeaderLength
  if frame.length < 74 then false
  else if (ethernetHeader frame).ethertype.toNat ≠ ETHERTYPE_IPV4 then false
  else if versionAndHeaderLength >>> 4 ≠ IP_VERSION then false
  else if versionAndHeaderLength &&& 0x0F < IP_IHL_WORDS then false
  else if byteAt frame 23 ≠ IP_PROTOCOL_ICMP then false
  else if networkToHost32 frame 26 ≠ station.targetIp ∨
      networkToHost32 frame 30 ≠ station.localIp then false
  else if frame.length < 14 + ipHeaderLength + 40 then false
  else if byteAt frame icmp ≠ ICMP_TYPE_ECHO_REPLY ∨ byteAt frame (icmp + 1) ≠ 0 then false
  else if networkToHost16 frame (icmp + 4) ≠ 0x1337 then false
  else if networkToHost16 frame (icmp + 6) ≠ sequence then false
  else true

end Station

section Fields

theorem mac_toList (mac : Mac) :
    mac.toList = [mac[0], mac[1], mac[2], mac[3], mac[4], mac[5]] := by
  apply List.ext_getElem
  · rw [Vector.length_toList]
    rfl
  · intro i hi _
    rw [Vector.length_toList] at hi
    rw [Vector.getElem_toList]
    interval_cases i <;> rfl

theorem mac_eta (mac : Mac) : #v[mac[0], mac[1], mac[2], mac[3], mac[4], mac[5]] = mac := by
  apply Vector.ext
  intro i hi
  interval_cases i <;> rfl

theorem toNat_networkToHost16 {bytes : List UInt8} {offset n : ℕ} (hn : n < 65536)
    (hhigh : byteAt bytes offset = (n / 256).toUInt8)
    (hlow : byteAt bytes (offset + 1) = (n % 256).toUInt8) :
    (networkToHost16 bytes offset).toNat = n := by
  unfold networkToHost16
  rw [hhigh, hlow, Nat.toUInt8_eq, Nat.toUInt8_eq, UInt8.toNat_ofNat', UInt8.toNat_ofNat',
    UInt16.toNat_ofNat']
  omega

theorem networkToHost16_eq {bytes : List UInt8} {offset : ℕ} {value : UInt16}
    (hhigh : byteAt bytes offset = (value.toNat / 256).toUInt8)
    (hlow : byteAt bytes (offset + 1) = (value.toNat % 256).toUInt8) :
    networkToHost16 bytes offset = value := by
  apply UInt16.toNat_inj.mp
  exact toNat_networkToHost16 value.toNat_lt hhigh hlow

theorem networkToHost32_eq {bytes : List UInt8} {offset : ℕ} {value : UInt32}
    (h : (bytes.drop offset).take 4 = hostToNetwork32 value) :
    networkToHost32 bytes offset = value := by
  have hvalue := value.toNat_lt
  have hbyte (i : ℕ) (hi : i < 4) :
      byteAt bytes (offset + i) = (hostToNetwork32 value).getD i 0 := by
    rw [← h, List.getD_eq_getElem?_getD, List.getElem?_take, if_pos hi, List.getElem?_drop,
      ← List.getD_eq_getElem?_getD]
    rfl
  have hhigh : (networkToHost16 bytes offset).toNat = value.toNat / 65536 := by
    apply toNat_networkToHost16 (by omega)
    · exact hbyte 0 (by decide)
    · exact hbyte 1 (by decide)
  have hlow : (networkToHost16 bytes (offset + 2)).toNat = value.toNat % 65536 := by
    apply toNat_networkToHost16 (by omega)
    · exact hbyte 2 (by decide)
    · exact hbyte 3 (by decide)
  unfold networkToHost32
  apply UInt32.toNat_inj.mp
  rw [hhigh, hlow, UInt32.toNat_ofNat']
  omega

/-- The headers are read as they were written. -/
theorem ethernetHeader_bytes (eth : EthernetHeader) (rest : List UInt8) :
    ethernetHeader (eth.bytes ++ rest) = eth := by
  obtain ⟨dest, src, ethertype⟩ := eth
  unfold EthernetHeader.bytes
  rw [mac_toList, mac_toList]
  unfold ethernetHeader
  congr 1
  · exact mac_eta dest
  · exact mac_eta src
  · exact networkToHost16_eq rfl rfl

theorem length_ethernetBytes (eth : EthernetHeader) : eth.bytes.length = 14 := by
  unfold EthernetHeader.bytes
  rw [List.length_append, List.length_append, Vector.length_toList, Vector.length_toList]
  rfl

theorem arpPacket_bytes (eth : EthernetHeader) (arp : ArpPacket) (rest : List UInt8) :
    arpPacket (eth.bytes ++ arp.bytes ++ rest) = arp := by
  obtain ⟨htype, ptype, hlen, plen, oper, sha, spa, tha, tpa⟩ := arp
  unfold EthernetHeader.bytes ArpPacket.bytes
  rw [mac_toList, mac_toList, mac_toList, mac_toList]
  unfold arpPacket
  congr 1
  · exact networkToHost16_eq rfl rfl
  · exact networkToHost16_eq rfl rfl
  · exact networkToHost16_eq rfl rfl
  · exact mac_eta sha
  · exact networkToHost32_eq rfl
  · exact mac_eta tha
  · exact networkToHost32_eq rfl

theorem arpPacket_frame (eth : EthernetHeader) (arp : ArpPacket) :
    arpPacket (eth.bytes ++ arp.bytes) = arp := by
  have h := arpPacket_bytes eth arp []
  rwa [List.append_nil] at h

theorem length_arpBytes (arp : ArpPacket) : arp.bytes.length = 28 := by
  unfold ArpPacket.bytes
  rw [mac_toList, mac_toList]
  rfl

theorem length_arpFrame (eth : EthernetHeader) (arp : ArpPacket) (padding : List UInt8) :
    ¬ (eth.bytes ++ arp.bytes ++ padding).length < 42 := by
  rw [List.length_append, List.length_append, length_ethernetBytes, length_arpBytes]
  omega

end Fields

namespace Station

variable (station : Station)

section Frames

/-- What is answered, and with what. -/
theorem handleArpRequest_some {frame reply : List UInt8}
    (h : station.handleArpRequest frame = some reply) :
    (arpPacket frame).oper = ARP_OPER_REQUEST ∧ (arpPacket frame).tpa = station.localIp ∧
      reply = station.sendArpReply (arpPacket frame).sha (arpPacket frame).spa := by
  unfold handleArpRequest at h
  split at h
  · cases h
  · split at h
    · cases h
    · split at h
      · cases h
      · split at h
        · cases h
        · rename_i hoper htpa
          rw [not_not] at hoper htpa
          exact ⟨hoper, htpa, (Option.some.inj h).symm⟩

/-- An ARP packet, behind which the network may have put some bytes. -/
theorem handleArpRequest_arp (eth : EthernetHeader) (arp : ArpPacket) (padding : List UInt8)
    (harp : eth.ethertype = ETHERTYPE_ARP) :
    station.handleArpRequest (eth.bytes ++ arp.bytes ++ padding) =
      if arp.oper = ARP_OPER_REQUEST ∧ arp.tpa = station.localIp
      then some (station.sendArpReply arp.sha arp.spa) else none := by
  unfold handleArpRequest
  rw [if_neg (length_arpFrame eth arp padding), arpPacket_bytes, List.append_assoc,
    ethernetHeader_bytes, if_neg (not_not_intro harp)]
  by_cases hoper : arp.oper = ARP_OPER_REQUEST
  · by_cases htpa : arp.tpa = station.localIp
    · rw [if_neg (not_not_intro hoper), if_neg (not_not_intro htpa), if_pos ⟨hoper, htpa⟩]
    · rw [if_neg (not_not_intro hoper), if_pos htpa, if_neg (fun h => htpa h.2)]
  · rw [if_pos hoper, if_neg (fun h => hoper h.1)]

theorem tryParseArpReply_arp (eth : EthernetHeader) (arp : ArpPacket) (padding : List UInt8)
    (harp : eth.ethertype = ETHERTYPE_ARP) :
    station.tryParseArpReply (eth.bytes ++ arp.bytes ++ padding) =
      if arp.oper = ARP_OPER_REPLY ∧ arp.spa = station.targetIp ∧ arp.tpa = station.localIp
      then some arp.sha else none := by
  unfold tryParseArpReply
  rw [if_neg (length_arpFrame eth arp padding), arpPacket_bytes, List.append_assoc,
    ethernetHeader_bytes, if_neg (not_not_intro harp)]
  by_cases hoper : arp.oper = ARP_OPER_REPLY
  · rw [if_neg (not_not_intro hoper)]
    by_cases hspa : arp.spa = station.targetIp
    · rw [if_neg (not_not_intro hspa)]
      by_cases htpa : arp.tpa = station.localIp
      · rw [if_neg (not_not_intro htpa), if_pos ⟨hoper, hspa, htpa⟩]
      · rw [if_pos htpa, if_neg (fun h => htpa h.2.2)]
    · rw [if_pos hspa, if_neg (fun h => hspa h.2.1)]
  · rw [if_pos hoper, if_neg (fun h => hoper h.1)]

theorem unless_iff {c : Prop} [Decidable c] {b : Bool} :
    (if c then false else b) = true ↔ ¬ c ∧ b = true := by
  by_cases hc : c
  · rw [if_pos hc]
    exact iff_of_false Bool.false_ne_true (fun h => h.1 hc)
  · rw [if_neg hc]
    exact (and_iff_right hc).symm

/-- What is checked of the ICMP message, once its place is known. -/
theorem icmp_of_tryHandleIcmpReply {frame : List UInt8} {sequence : UInt16} {words : ℕ}
    (hwords : (byteAt frame 14 &&& 0x0F).toNat = words)
    (h : station.tryHandleIcmpReply frame sequence = true) :
    byteAt frame (14 + words * 4) = ICMP_TYPE_ECHO_REPLY := by
  unfold tryHandleIcmpReply at h
  dsimp only at h
  rw [hwords] at h
  iterate 8 rw [unless_iff] at h
  obtain ⟨_, _, _, _, _, _, _, htype, _⟩ := h
  exact not_not.mp (not_or.mp htype).1

theorem tryHandleIcmpReply_eq_false {frame : List UInt8} (sequence : UInt16)
    (h : (ethernetHeader frame).ethertype.toNat ≠ ETHERTYPE_IPV4) :
    station.tryHandleIcmpReply frame sequence = false := by
  unfold tryHandleIcmpReply
  by_cases hlength : frame.length < 74
  · exact if_pos hlength
  · dsimp only
    rw [if_neg hlength, if_pos h]

/-- What a station makes of another's request. -/
theorem handleArpRequest_sendArpRequest (other : Station) (padding : List UInt8) :
    station.handleArpRequest (other.sendArpRequest ++ padding) =
      if station.localIp = other.targetIp
      then some (station.sendArpReply other.mac other.localIp) else none := by
  unfold sendArpRequest
  rw [handleArpRequest_arp station _ _ padding rfl]
  by_cases hip : station.localIp = other.targetIp
  · rw [if_pos ⟨rfl, hip.symm⟩, if_pos hip]
  · rw [if_neg (fun h => hip h.2.symm), if_neg hip]

theorem request_ne_reply : ARP_OPER_REQUEST ≠ ARP_OPER_REPLY := by decide

theorem tryParseArpReply_sendArpRequest (other : Station) (padding : List UInt8) :
    station.tryParseArpReply (other.sendArpRequest ++ padding) = none := by
  unfold sendArpRequest
  rw [tryParseArpReply_arp station _ _ padding rfl]
  exact if_neg (fun h => request_ne_reply h.1)

theorem handleArpRequest_sendArpReply (other : Station) (mac : Mac) (ip : UInt32)
    (padding : List UInt8) :
    station.handleArpRequest (other.sendArpReply mac ip ++ padding) = none := by
  unfold sendArpReply
  rw [handleArpRequest_arp station _ _ padding rfl]
  exact if_neg (fun h => request_ne_reply h.1.symm)

/-- A reply is taken for an answer by those that it is addressed to, if they asked for it. -/
theorem tryParseArpReply_sendArpReply (other : Station) (mac : Mac) (ip : UInt32)
    (padding : List UInt8) :
    station.tryParseArpReply (other.sendArpReply mac ip ++ padding) =
      if other.localIp = station.targetIp ∧ ip = station.localIp
      then some other.mac else none := by
  unfold sendArpReply
  rw [tryParseArpReply_arp station _ _ padding rfl]
  exact if_congr (and_iff_right rfl) rfl rfl

theorem ethertype_arp (eth : EthernetHeader) (arp : ArpPacket) (padding : List UInt8) :
    (ethernetHeader (eth.bytes ++ arp.bytes ++ padding)).ethertype = eth.ethertype := by
  rw [List.append_assoc, ethernetHeader_bytes]

theorem ipv4_ne_arp : (0x0800 : UInt16) ≠ ETHERTYPE_ARP := by decide

theorem arp_ne_ipv4 : ETHERTYPE_ARP.toNat ≠ ETHERTYPE_IPV4 := by decide

/-- An echo request is no ARP packet, and no reply. -/
theorem ethernetHeader_sendIcmpEcho (other : Station) (sequence : UInt16) (mac : Mac)
    (padding : List UInt8) :
    ethernetHeader (other.sendIcmpEcho sequence mac ++ padding) =
      { dest := mac, src := other.mac, ethertype := 0x0800 } := by
  have hfront : other.sendIcmpEcho sequence mac ++ padding =
      EthernetHeader.bytes { dest := mac, src := other.mac, ethertype := 0x0800 } ++
        (checksummed ipv4Front (ipv4Back other.localIp other.targetIp) ++
          checksummed [ICMP_TYPE_ECHO_REQUEST, 0] (icmpBack sequence) ++ padding) := by
    unfold sendIcmpEcho icmpEchoFrame EthernetHeader.bytes
    rw [List.append_assoc _ (checksummed ipv4Front _), List.append_assoc]
    rfl
  rw [hfront, ethernetHeader_bytes]

theorem tryParseArpReply_sendIcmpEcho (other : Station) (sequence : UInt16) (mac : Mac)
    (padding : List UInt8) :
    station.tryParseArpReply (other.sendIcmpEcho sequence mac ++ padding) = none := by
  unfold tryParseArpReply
  rw [ethernetHeader_sendIcmpEcho]
  by_cases hlength : (other.sendIcmpEcho sequence mac ++ padding).length < 42
  · exact if_pos hlength
  · rw [if_neg hlength]
    exact if_pos ipv4_ne_arp

theorem tryHandleIcmpReply_sendIcmpEcho (other : Station) (sent sequence : UInt16) (mac : Mac)
    (padding : List UInt8) :
    station.tryHandleIcmpReply (other.sendIcmpEcho sent mac ++ padding) sequence = false := by
  have hversion : byteAt (other.sendIcmpEcho sent mac ++ padding) 14 = 0x45 := by
    unfold sendIcmpEcho icmpEchoFrame
    rw [mac_toList, mac_toList]
    rfl
  have htype : byteAt (other.sendIcmpEcho sent mac ++ padding) 34 = ICMP_TYPE_ECHO_REQUEST := by
    unfold sendIcmpEcho icmpEchoFrame
    rw [mac_toList, mac_toList]
    rfl
  have hwords : (byteAt (other.sendIcmpEcho sent mac ++ padding) 14 &&& 0x0F).toNat = 5 := by
    rw [hversion]
    rfl
  apply Bool.eq_false_of_not_eq_true
  intro htaken
  have hreply := icmp_of_tryHandleIcmpReply station hwords htaken
  exact absurd (htype.symm.trans hreply) (by decide)

end Frames

end Station

end Heartix.Network
