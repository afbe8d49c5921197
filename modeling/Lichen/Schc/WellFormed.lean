import Lichen.Schc.RoundTrip

namespace Lichen.Schc

open Lichen.Lib List

variable {p s room src dst payload tail body : Bytes} {bs : List Bool}
  {ruleId nextHeader hopLimit : UInt8}

/-- A packet with a zero Traffic Class and Flow Label, and these fields and payload. -/
structure Ipv6Packet (p : Bytes) (nextHeader hopLimit : UInt8) (src dst payload : Bytes) :
    Prop where
  eq : p = ipv6Header payload.length nextHeader hopLimit src dst ++ payload
  length_src : src.length = 16
  length_dst : dst.length = 16
  length_payload : payload.length < 2 ^ 16

namespace Ipv6Packet

variable (h : Ipv6Packet p nextHeader hopLimit src dst payload)

include h

theorem length : p.length = 40 + payload.length := by
  rw [h.eq, length_append, length_ipv6Header h.length_src h.length_dst]

theorem drop_eq : p.drop 40 = payload := by
  rw [h.eq, drop_left' (length_ipv6Header h.length_src h.length_dst _ _ _)]

theorem version : p.extract 0 4 = versionWord := by
  rw [h.eq, ipv6Header, append_assoc, ← nil_append (versionWord ++ _)]
  exact extract_field rfl rfl

theorem payloadLen : u16At p 4 = payload.length := by
  rw [h.eq, ipv6Header, append_assoc, append_assoc]
  exact u16At_field versionWord _ h.length_payload

theorem drop_fixed : p.drop 6 = nextHeader :: hopLimit :: (src ++ (dst ++ payload)) := by
  have hfront : (versionWord ++ beBytes 2 payload.length).length = 6 := by
    rw [length_append, length_beBytes]
    rfl
  rw [h.eq, ipv6Header, ← append_assoc, append_assoc, drop_left' hfront]
  simp

theorem nextHeader_eq : p.getD 6 0 = nextHeader := by
  rw [← Nat.add_zero 6, ← getD_drop, h.drop_fixed]
  rfl

theorem hopLimit_eq : p.getD 7 0 = hopLimit := by
  rw [show 7 = 6 + 1 from rfl, ← getD_drop, h.drop_fixed]
  rfl

theorem sourceAddress_eq : sourceAddress p = src := by
  have hfield := extract_drop p 6 2 18
  rw [h.drop_fixed] at hfield
  rw [sourceAddress, ← hfield]
  change ([nextHeader, hopLimit] ++ (src ++ (dst ++ payload))).extract 2 18 = src
  exact extract_field rfl (by rw [h.length_src]; rfl)

theorem destinationAddress_eq : destinationAddress p = dst := by
  have hfield := extract_drop p 6 18 34
  rw [h.drop_fixed] at hfield
  rw [destinationAddress, ← hfield]
  change ((nextHeader :: hopLimit :: src) ++ (dst ++ payload)).extract 18 34 = dst
  have hfront : (nextHeader :: hopLimit :: src).length = 18 := by
    rw [length_cons, length_cons, h.length_src]
  exact extract_field hfront (by rw [hfront, h.length_dst])

theorem validate
    (hnext : nextHeader = 58 ∨ nextHeader = 17 ∧ validateUdp payload src dst = .ok ()) :
    validateFullIpv6Structure p = .ok () := by
  have hlength := h.length
  obtain ⟨fuel, hfuel⟩ : ∃ fuel, p.length = fuel + 1 := ⟨p.length - 1, by omega⟩
  have hheaders : extensionHeaders p p.length nextHeader 40 (p.extract 24 40) =
      .ok (nextHeader, 40, p.extract 24 40) := by
    rw [hfuel]
    obtain rfl | ⟨rfl, _⟩ := hnext <;> rfl
  have hdst : p.extract 24 40 = dst := h.destinationAddress_eq
  have hsrc : p.extract 8 24 = src := h.sourceAddress_eq
  simp only [validateFullIpv6Structure, h.nextHeader_eq, hheaders]
  rw [if_neg (by omega), if_neg (fun hne => hne (getD_of_version h.version)),
    if_neg (by rw [h.payloadLen]; omega), h.drop_eq, hsrc, hdst]
  obtain rfl | ⟨rfl, hudp⟩ := hnext
  · rfl
  · rw [if_pos rfl, hudp]

end Ipv6Packet

theorem udpHeader_fields (hsrc : srcPort < 2 ^ 16)
    (hdst : dstPort < 2 ^ 16) (hlen : udpLen < 2 ^ 16) (hchecksum : checksum < 2 ^ 16)
    (body : Bytes) : u16At (udpHeader srcPort dstPort udpLen checksum ++ body) 0 = srcPort ∧
      u16At (udpHeader srcPort dstPort udpLen checksum ++ body) 2 = dstPort ∧
      u16At (udpHeader srcPort dstPort udpLen checksum ++ body) 4 = udpLen ∧
      u16At (udpHeader srcPort dstPort udpLen checksum ++ body) 6 = checksum := by
  simp only [udpHeader, append_assoc]
  refine ⟨u16At_field [] _ hsrc, u16At_field (beBytes 2 srcPort) _ hdst, ?_, ?_⟩
  · have h := u16At_field (beBytes 2 srcPort ++ beBytes 2 dstPort) (beBytes 2 checksum ++ body) hlen
    rwa [append_assoc] at h
  · have h := u16At_field (beBytes 2 srcPort ++ (beBytes 2 dstPort ++ beBytes 2 udpLen)) body
      hchecksum
    rwa [append_assoc, append_assoc] at h

theorem validateUdp_udpHeader (hsrc : srcPort < 2 ^ 16)
    (hdst : dstPort < 2 ^ 16) (hlen : 8 + body.length < 2 ^ 16)
    (h : udpChecksum src dst srcPort dstPort body = .ok checksum) :
    validateUdp (udpHeader srcPort dstPort (8 + body.length) checksum ++ body) src dst = .ok () := by
  obtain ⟨hpos, hlt⟩ := udpChecksum_pos h
  obtain ⟨hsrcPort, hdstPort, hudpLen, hfield⟩ := udpHeader_fields hsrc hdst hlen hlt body
  have hheader := length_udpHeader srcPort dstPort (8 + body.length) checksum
  have hlength : (udpHeader srcPort dstPort (8 + body.length) checksum ++ body).length =
      8 + body.length := by
    rw [length_append, hheader]
  simp only [validateUdp, hsrcPort, hdstPort, hudpLen, hfield, hlength, drop_left' hheader, h]
  rw [if_neg (by omega), if_neg (by omega), if_neg (by omega), if_neg (fun hne => hne rfl)]

/-- A UDP datagram with the length and the checksum that belong to it. -/
structure UdpPacket (p : Bytes) (hopLimit : UInt8) (src dst : Bytes)
    (srcPort dstPort checksum : Nat) (body : Bytes) : Prop where
  ipv6 : Ipv6Packet p 17 hopLimit src dst
    (udpHeader srcPort dstPort (8 + body.length) checksum ++ body)
  srcPort_lt : srcPort < 2 ^ 16
  dstPort_lt : dstPort < 2 ^ 16
  checksum_eq : udpChecksum src dst srcPort dstPort body = .ok checksum

namespace UdpPacket

variable {srcPort dstPort checksum : Nat}

variable (h : UdpPacket p hopLimit src dst srcPort dstPort checksum body)

include h

theorem length_lt : 8 + body.length < 2 ^ 16 := by
  have hlength := h.ipv6.length_payload
  rwa [length_append, length_udpHeader] at hlength

theorem length : p.length = 48 + body.length := by
  rw [h.ipv6.length, length_append, length_udpHeader]
  omega

theorem validate :
    validateFullIpv6Structure p = .ok () :=
  h.ipv6.validate
    (.inr ⟨rfl, validateUdp_udpHeader h.srcPort_lt h.dstPort_lt h.length_lt h.checksum_eq⟩)

theorem ports : u16At p 40 = srcPort ∧ u16At p 42 = dstPort := by
  have hfields := udpHeader_fields h.srcPort_lt h.dstPort_lt h.length_lt
    (udpChecksum_pos h.checksum_eq).2 body
  rw [← h.ipv6.drop_eq, u16At_drop, u16At_drop] at hfields
  exact ⟨hfields.1, hfields.2.1⟩

theorem drop_eq : p.drop 48 = body := by
  rw [show 48 = 40 + 8 from rfl, ← drop_drop, h.ipv6.drop_eq,
    drop_left' (length_udpHeader _ _ _ _)]

end UdpPacket

structure Icmpv6Packet (p : Bytes) (hopLimit icmpType code : UInt8) (src dst body : Bytes) :
    Prop where
  eq : p = icmpv6Packet hopLimit icmpType code src dst body
  length_src : src.length = 16
  length_dst : dst.length = 16
  length_body : 4 + body.length < 2 ^ 16

namespace Icmpv6Packet

variable {icmpType code : UInt8}

variable (h : Icmpv6Packet p hopLimit icmpType code src dst body)

include h

theorem ipv6 : Ipv6Packet p 58 hopLimit src dst ([icmpType, code] ++
      (beBytes 2 (icmpv6ChecksumParts src dst [icmpType :: code :: 0 :: 0 :: body]) ++ body)) := by
  have hlength : ([icmpType, code] ++
      (beBytes 2 (icmpv6ChecksumParts src dst [icmpType :: code :: 0 :: 0 :: body]) ++
        body)).length = 4 + body.length := by
    simp only [length_append, length_beBytes, length_cons, length_nil]
    omega
  refine ⟨?_, h.length_src, h.length_dst, by rw [hlength]; exact h.length_body⟩
  rw [hlength, h.eq, icmpv6Packet, Nat.mod_eq_of_lt h.length_body]

theorem length : p.length = 44 + body.length := by
  rw [h.eq, length_icmpv6Packet h.length_src h.length_dst]

theorem checksumValid :
    icmpv6ChecksumValid (sourceAddress p) (destinationAddress p) (p.drop 40) := by
  rw [h.ipv6.sourceAddress_eq, h.ipv6.destinationAddress_eq, h.ipv6.drop_eq]
  exact icmpv6ChecksumValid_parts h.length_src h.length_dst (Nat.le_of_lt_succ h.length_body)

theorem type_eq : p.getD 40 0 = icmpType := by
  rw [← Nat.add_zero 40, ← getD_drop, h.ipv6.drop_eq]
  rfl

theorem code_eq : p.getD 41 0 = code := by
  rw [show 41 = 40 + 1 from rfl, ← getD_drop, h.ipv6.drop_eq]
  rfl

theorem drop_eq : p.drop 44 = body := by
  rw [show 44 = 40 + 4 from rfl, ← drop_drop, h.ipv6.drop_eq, ← append_assoc,
    drop_left' (by rw [length_append, length_beBytes]; rfl)]

theorem getD_eq (i : Nat) : p.getD (44 + i) 0 = body.getD i 0 := by
  rw [← getD_drop, h.drop_eq]

end Icmpv6Packet

/-- How a packet was decoded: the rule, the bits of its residue and the tail behind them. -/
inductive Decoded (p : Bytes) : UInt8 → List Bool → Bytes → Prop
  | coap {ruleId : UInt8} {bs : List Bool} {tail : Bytes} {f : CoapFields} (checksum : Nat)
      (hrule : IsCoap ruleId) (hread : f.Read ruleId bs)
      (haccepts : AcceptsCoap ruleId (hasOscoreOptionParts f.head tail))
      (hp : UdpPacket p f.hopLimit (beBytes 16 f.addresses.1) (beBytes 16 f.addresses.2) f.srcPort
        f.dstPort checksum (f.head ++ tail)) :
      Decoded p ruleId bs tail
  | echo {bs : List Bool} {tail : Bytes} {f : EchoFields} (hread : f.Read bs)
      (hp : Icmpv6Packet p f.hopLimit f.icmpType 0 (linkLocalAddress f.srcIid)
        (linkLocalAddress f.dstIid) (f.body tail)) :
      Decoded p ruleIcmpv6Echo bs tail
  | dio {bs : List Bool} {tail : Bytes} {f : DioFields} (hread : f.Read bs)
      (hp : Icmpv6Packet p f.hopLimit 155 1 (linkLocalAddress f.srcIid)
        (linkLocalAddress f.dstIid) (f.base ++ tail)) :
      Decoded p ruleRplDio bs tail
  | dao {bs : List Bool} {tail : Bytes} {f : DaoFields} (hread : f.Read bs)
      (hp : Icmpv6Packet p f.hopLimit 155 2 (linkLocalAddress f.srcIid)
        (linkLocalAddress f.dstIid) (f.base ++ tail)) :
      Decoded p ruleRplDao bs tail
  | mqttSn {bs : List Bool} {tail : Bytes} {f : MqttFields} (checksum : Nat) (hread : f.Read bs)
      (hp : UdpPacket p f.hopLimit f.addresses.1 f.addresses.2 f.srcPort f.dstPort checksum tail) :
      Decoded p ruleMqttSn bs tail

theorem Wire.length_tail (h : Wire s ruleId bs tail) : tail.length < s.length := by
  obtain ⟨_, -, rfl⟩ := h
  rw [length_cons, length_append]
  omega

theorem wire_of_readResidue (hfields : BitReader.Consumes fields E)
    (h : readResidue reason fields (ruleId :: rest) = .ok (a, tail)) :
    ∃ bs, E a bs ∧ Wire (ruleId :: rest) ruleId bs tail := by
  obtain ⟨bs, residue, hE, hresidue, rfl⟩ := readResidue_ok hfields h
  exact ⟨bs, hE, residue, hresidue, rfl⟩

theorem decoded_coap (hrule : IsCoap ruleId)
    (h : Returns (decompressCoap (ruleId :: rest) ruleId) room p) :
    ∃ bs tail, Wire (ruleId :: rest) ruleId bs tail ∧ Decoded p ruleId bs tail := by
  obtain ⟨f, tail, checksum, hread, haccepts, hchecksum, hlength, -, rfl⟩ :=
    returns_decompressCoap.mp h
  obtain ⟨bs, hfields, hwire⟩ := wire_of_readResidue (consumes_readCoap hrule) hread
  have hbody : (f.head ++ tail).length = 4 + tail.length := by
    rw [length_append, f.length_head]
  have hpayload : (udpHeader f.srcPort f.dstPort (8 + (f.head ++ tail).length) checksum ++
      (f.head ++ tail)).length = 8 + (4 + tail.length) := by
    rw [length_append, length_udpHeader, hbody]
  rw [udpChecksumParts_eq, flatten_cons, flatten_singleton] at hchecksum
  refine ⟨bs, tail, hwire, .coap checksum hrule hfields haccepts
    ⟨⟨?_, length_beBytes _ _, length_beBytes _ _, by omega⟩, hfields.srcPort.lt, hfields.dstPort.lt,
      hchecksum⟩⟩
  rw [hpayload, hbody, CoapFields.packet]

theorem decoded_echo (hlimit : (ruleIcmpv6Echo :: rest).length ≤ maxPacketSize)
    (h : Returns (decompressIcmpv6Echo (ruleIcmpv6Echo :: rest)) room p) :
    ∃ bs tail, Wire (ruleIcmpv6Echo :: rest) ruleIcmpv6Echo bs tail ∧
      Decoded p ruleIcmpv6Echo bs tail := by
  obtain ⟨f, tail, hread, -, hp⟩ := returns_decompressIcmpv6Echo.mp h
  obtain ⟨bs, hfields, hwire⟩ := wire_of_readResidue consumes_readIcmpv6Echo hread
  have hmax : (ruleIcmpv6Echo :: rest).length ≤ 22554 := hlimit
  have htail := hwire.length_tail
  refine ⟨bs, tail, hwire, .echo hfields ⟨hp, length_linkLocalAddress _, length_linkLocalAddress _, ?_⟩⟩
  rw [f.length_body]
  omega

theorem DioFields.length_base (f : DioFields) : f.base.length = 24 := by
  simp [DioFields.base]

theorem decoded_dio (hlimit : (ruleRplDio :: rest).length ≤ maxPacketSize)
    (h : Returns (decompressRplDio (ruleRplDio :: rest)) room p) :
    ∃ bs tail, Wire (ruleRplDio :: rest) ruleRplDio bs tail ∧ Decoded p ruleRplDio bs tail := by
  obtain ⟨f, tail, hread, -, hp⟩ := returns_decompressRplDio.mp h
  obtain ⟨bs, hfields, hwire⟩ := wire_of_readResidue consumes_readRplDio hread
  have hmax : (ruleRplDio :: rest).length ≤ 22554 := hlimit
  have htail := hwire.length_tail
  refine ⟨bs, tail, hwire, .dio hfields ⟨hp, length_linkLocalAddress _, length_linkLocalAddress _, ?_⟩⟩
  rw [length_append, f.length_base]
  omega

theorem DaoFields.length_base (f : DaoFields) : f.base.length = 20 := by
  simp [DaoFields.base]

theorem decoded_dao (hlimit : (ruleRplDao :: rest).length ≤ maxPacketSize)
    (h : Returns (decompressRplDao (ruleRplDao :: rest)) room p) :
    ∃ bs tail, Wire (ruleRplDao :: rest) ruleRplDao bs tail ∧ Decoded p ruleRplDao bs tail := by
  obtain ⟨f, tail, hread, -, hp⟩ := returns_decompressRplDao.mp h
  obtain ⟨bs, hfields, hwire⟩ := wire_of_readResidue consumes_readRplDao hread
  have hmax : (ruleRplDao :: rest).length ≤ 22554 := hlimit
  have htail := hwire.length_tail
  refine ⟨bs, tail, hwire, .dao hfields ⟨hp, length_linkLocalAddress _, length_linkLocalAddress _, ?_⟩⟩
  rw [length_append, f.length_base]
  omega

theorem MqttFields.Read.ports_lt {f : MqttFields} (h : f.Read bs) :
    f.srcPort < 2 ^ 16 ∧ f.dstPort < 2 ^ 16 := by
  have hother := h.otherPort_lt
  have hmqtt : portMqttSn < 2 ^ 16 := by decide
  rw [MqttFields.srcPort, MqttFields.dstPort]
  split
  · exact ⟨hmqtt, hother⟩
  · exact ⟨hother, hmqtt⟩

theorem decoded_mqttSn (h : Returns (decompressMqttSn (ruleMqttSn :: rest) ruleMqttSn) room p) :
    ∃ bs tail, Wire (ruleMqttSn :: rest) ruleMqttSn bs tail ∧ Decoded p ruleMqttSn bs tail := by
  obtain ⟨-, f, tail, checksum, hread, hchecksum, hlength, -, rfl⟩ := returns_decompressMqttSn.mp h
  obtain ⟨bs, hfields, hwire⟩ := wire_of_readResidue consumes_readMqttSn hread
  obtain ⟨abits, haddresses, -⟩ := hfields.addresses
  obtain ⟨hsrcPort, hdstPort⟩ := hfields.ports_lt
  have hpayload : (udpHeader f.srcPort f.dstPort (8 + tail.length) checksum ++ tail).length =
      8 + tail.length := by
    rw [length_append, length_udpHeader]
  refine ⟨bs, tail, hwire, .mqttSn checksum hfields
    ⟨⟨?_, haddresses.length.1, haddresses.length.2, by omega⟩, hsrcPort, hdstPort, hchecksum⟩⟩
  rw [hpayload, MqttFields.packet]

theorem decompress_decoded (h : Returns (decompress s) room p) : s.length ≤ maxPacketSize ∧
      (s = ruleUncompressed :: p ∧ validateFullIpv6Structure p = .ok () ∨
        ∃ ruleId bs tail, Wire s ruleId bs tail ∧ Decoded p ruleId bs tail) := by
  rw [decompress, returns_check, returns_check] at h
  obtain ⟨hne, hlimit, h⟩ := h
  rw [Nat.not_lt] at hlimit
  refine ⟨hlimit, ?_⟩
  cases s with
  | nil => exact absurd rfl hne
  | cons =>
    rw [getD_cons_zero] at h
    simp only [decompressRule] at h
    split at h
    · next hrule =>
      subst hrule
      exact .inr ⟨_, decoded_coap (.inl rfl) h⟩
    split at h
    · next hrule =>
      subst hrule
      exact .inr ⟨_, decoded_coap (.inr (.inl rfl)) h⟩
    split at h
    · next hrule =>
      subst hrule
      exact .inr ⟨_, decoded_echo hlimit h⟩
    split at h
    · next hrule =>
      subst hrule
      exact .inr ⟨_, decoded_dio hlimit h⟩
    split at h
    · next hrule =>
      subst hrule
      exact .inr ⟨_, decoded_dao hlimit h⟩
    split at h
    · next hrule =>
      subst hrule
      exact .inr ⟨_, decoded_coap (.inr (.inr (.inl rfl))) h⟩
    split at h
    · next hrule =>
      subst hrule
      exact .inr ⟨_, decoded_coap (.inr (.inr (.inr rfl))) h⟩
    split at h
    · next hrule =>
      subst hrule
      exact .inr ⟨_, decoded_mqttSn h⟩
    split at h
    · exact .inl (returns_decodeRule255 h)
    · exact (not_returns_throw h).elim

theorem Decoded.validate (h : Decoded p ruleId bs tail) : validateFullIpv6Structure p = .ok () := by
  cases h with
  | coap _ _ _ _ hp | mqttSn _ _ hp => exact hp.validate
  | echo _ hp | dio _ hp | dao _ hp => exact hp.ipv6.validate (.inl rfl)

def IsIcmpv6Rule (ruleId : UInt8) : Prop :=
  ruleId = ruleIcmpv6Echo ∨ ruleId = ruleRplDio ∨ ruleId = ruleRplDao

theorem Decoded.checksumValid (h : Decoded p ruleId bs tail) (hrule : IsIcmpv6Rule ruleId) :
    icmpv6ChecksumValid (sourceAddress p) (destinationAddress p) (p.drop 40) := by
  cases h with
  | coap _ hcoap =>
    rcases hcoap with rfl | rfl | rfl | rfl <;> exact absurd hrule (by rw [IsIcmpv6Rule]; decide)
  | echo _ hp | dio _ hp | dao _ hp => exact hp.checksumValid
  | mqttSn => exact absurd hrule (by rw [IsIcmpv6Rule]; decide)

/-- Whatever the rule, a decompressed packet passes the structural validation; where the ICMPv6
checksum was elided, it is the right one. -/
theorem decompress_wellFormed (h : Returns (decompress s) room p) :
    validateFullIpv6Structure p = .ok () ∧
      (IsIcmpv6Rule (s.getD 0 0) →
        icmpv6ChecksumValid (sourceAddress p) (destinationAddress p) (p.drop 40)) := by
  obtain ⟨-, ⟨rfl, hvalid⟩ | ⟨_, _, _, ⟨_, -, rfl⟩, hdecoded⟩⟩ := decompress_decoded h
  · exact ⟨hvalid, fun hrule => absurd hrule (by rw [getD_cons_zero, IsIcmpv6Rule]; decide)⟩
  · exact ⟨hdecoded.validate, hdecoded.checksumValid⟩

theorem echoResidue_wellFormed :
    Returns (decompress (echoResidue [0, 0])) (List.replicate 48 0)
      (echoRequest [0x82, 0xB7] [0, 0]) ∧
    validateFullIpv6Structure (echoRequest [0x82, 0xB7] [0, 0]) = .ok () ∧
    (IsIcmpv6Rule ((echoResidue [0, 0]).getD 0 0) →
      icmpv6ChecksumValid (sourceAddress (echoRequest [0x82, 0xB7] [0, 0]))
        (destinationAddress (echoRequest [0x82, 0xB7] [0, 0]))
        ((echoRequest [0x82, 0xB7] [0, 0]).drop 40)) := by
  have h : Returns (decompress (echoResidue [0, 0])) (List.replicate 48 0)
      (echoRequest [0x82, 0xB7] [0, 0]) := by
    decide +kernel
  exact ⟨h, decompress_wellFormed h⟩

/-- Rule 255 carries an ICMPv6 message whatever its checksum. -/
theorem uncompressed_wrong_checksum :
    Returns (decompress (ruleUncompressed :: echoRequest [0, 0] [0, 0])) (List.replicate 48 0)
      (echoRequest [0, 0] [0, 0]) ∧
    icmpv6ChecksumValid (sourceAddress (echoRequest [0, 0] [0, 0]))
      (destinationAddress (echoRequest [0, 0] [0, 0])) ((echoRequest [0, 0] [0, 0]).drop 40) =
        false := by
  decide +kernel

end Lichen.Schc
