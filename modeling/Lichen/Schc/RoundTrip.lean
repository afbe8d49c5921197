import Lichen.Schc.Rules

namespace Lichen.Schc

open Lichen.Lib BitWriter BitReader List

variable {packet out room s : Bytes} {ruleId : UInt8}

/-- The packet with the ICMPv6 checksum that is computed for it, which is never zero. -/
def recomputed (packet : Bytes) : Bytes :=
  if packet.extract 42 44 = [0, 0] then overwrite packet 42 [0xFF, 0xFF] else packet

theorem recomputed_append (hfront : front.length = 42) (hchecksum : checksum =
      if high.toNat * 256 + low.toNat = 0 then 0xFFFF else high.toNat * 256 + low.toNat) :
    front ++ (beBytes 2 checksum ++ body) = recomputed (front ++ ([high, low] ++ body)) := by
  rw [recomputed, extract_field hfront (by rw [hfront]; rfl)]
  by_cases hzero : high.toNat * 256 + low.toNat = 0
  · have hhigh : high = 0 := UInt8.toNat_inj.mp (by rw [UInt8.toNat_zero]; omega)
    have hlow : low = 0 := UInt8.toNat_inj.mp (by rw [UInt8.toNat_zero]; omega)
    have hones : beBytes 2 0xFFFF = [0xFF, 0xFF] := by decide
    subst hhigh hlow
    rw [if_pos hzero] at hchecksum
    rw [if_pos rfl, hchecksum, hones, overwrite, take_left' hfront,
      ← drop_drop, drop_left' hfront]
    rfl
  · have hne : [high, low] ≠ [0, 0] := by
      rintro ⟨⟩
      exact hzero rfl
    have hbytes : beBytes 2 (high.toNat * 256 + low.toNat) = [high, low] := by
      have h := beBytes_beNat [high, low]
      rwa [show beNat [high, low] = high.toNat * 256 + low.toNat by simp [beNat]] at h
    rw [if_neg hzero] at hchecksum
    rw [if_neg hne, hchecksum, hbytes]

/-- What holds of a packet for which one of the ICMPv6 rules is tried. -/
structure Icmpv6Match (packet : Bytes) : Prop where
  fields : Ipv6Fields packet
  version : packet.extract 0 4 = versionWord
  limit : packet.length ≤ maxPacketSize
  nextHeader : packet.getD 6 0 = 58
  length_le : 44 ≤ packet.length
  src_local : isLinkLocal64 (sourceAddress packet)
  dst_local : isLinkLocal64 (destinationAddress packet)
  checksum : icmpv6ChecksumValid (sourceAddress packet) (destinationAddress packet) (packet.drop 40)

theorem Icmpv6Match.rebuilt (h : Icmpv6Match packet) :
    icmpv6Packet (packet.getD 7 0) (packet.getD 40 0) (packet.getD 41 0) (sourceAddress packet)
      (destinationAddress packet) (packet.drop 44) = recomputed packet := by
  have hlimit : packet.length ≤ 22554 := h.limit
  have hlength := h.length_le
  have hsrc := length_sourceAddress h.fields
  have hdst := length_destinationAddress h.fields
  have hicmp : packet.drop 40 = [packet.getD 40 0, packet.getD 41 0] ++
      ([packet.getD 42 0, packet.getD 43 0] ++ packet.drop 44) := by
    rw [drop_eq_pair_append (by omega) 0, drop_eq_pair_append (by omega) 0]
  have hpacket := ipv6Header_append h.fields h.version
  rw [h.nextHeader, hicmp, ← append_assoc] at hpacket
  have hbody : 4 + (packet.drop 44).length = packet.length - 40 := by
    rw [length_drop]
    omega
  have hmod : (packet.length - 40) % 2 ^ 16 = packet.length - 40 := by omega
  have hvalid := h.checksum
  rw [hicmp] at hvalid
  have hlength' : 4 + (packet.drop 44).length ≤ 0xFFFF := by omega
  have hchecksum := icmpv6ChecksumParts_eq hsrc hdst hlength' hvalid flatten_singleton
  rw [icmpv6Packet, hbody, hmod, ← append_assoc, recomputed_append _ hchecksum, hpacket]
  rw [length_append, length_ipv6Header hsrc hdst]
  rfl

theorem length_recomputed (h : 44 ≤ packet.length) : (recomputed packet).length = packet.length :=
  by
  rw [recomputed]
  split
  · exact length_overwrite (by simpa using h)
  · rfl

def Restores (rule : Codec Nat) (packet restored : Bytes) : Prop :=
  ∀ out s room, Returns rule out s → packet.length ≤ room.length →
    Returns (decompress s) room restored

section

variable (hroom : packet.length ≤ room.length)

include hroom

theorem Icmpv6Match.restores_echo (h : Icmpv6Match packet) (hecho : IsEcho packet)
    (hwire : Wire s ruleIcmpv6Echo (echoBits packet) (packet.drop 48))
    (hlimit : s.length ≤ maxPacketSize) : Returns (decompress s) room (recomputed packet) := by
  obtain ⟨htype, hcode, hlength⟩ := hecho
  have hcarries := hwire.carries hlimit (reads_echo h.fields htype)
  have hbody : packet.drop 44 =
      beBytes 2 (u16At packet 44) ++ (beBytes 2 (u16At packet 46) ++ packet.drop 48) := by
    rw [beBytes_u16At hlength, beBytes_u16At (by omega)]
  rw [returns_decompress hcarries.head_eq hcarries.length_le]
  refine returns_decompressIcmpv6Echo.mpr ⟨_, _, hcarries.read_eq _,
    (length_recomputed h.length_le).trans_le hroom, ?_⟩
  simp only [EchoFields.packet, EchoFields.body, linkLocalAddress_iid h.src_local,
    linkLocalAddress_iid h.dst_local]
  rw [← hbody, ← h.rebuilt, hcode]

theorem Icmpv6Match.restores_dio (h : Icmpv6Match packet) (hdio : IsDio packet)
    (hwire : Wire s ruleRplDio (dioBits packet) (packet.drop 68))
    (hlimit : s.length ≤ maxPacketSize) : Returns (decompress s) room (recomputed packet) := by
  obtain ⟨htype, hcode, hlength, hflags, hreserved⟩ := hdio
  have hcarries := hwire.carries hlimit (reads_dio h.fields hlength)
  have hbase : packet.drop 44 = [packet.getD 44 0, packet.getD 45 0] ++ packet.drop 46 :=
    drop_eq_pair_append (by omega) 0
  have hgmop : packet.drop 48 = [packet.getD 48 0, packet.getD 49 0] ++ packet.drop 50 :=
    drop_eq_pair_append (by omega) 0
  have hrank : beBytes 2 (u16At packet 46) ++ packet.drop 48 = packet.drop 46 :=
    beBytes_u16At (by omega)
  have hzero : packet.drop 50 = [packet.getD 50 0, packet.getD 51 0] ++ packet.drop 52 :=
    drop_eq_pair_append (by omega) 0
  have hdodagid : beBytes 16 (beNat (packet.extract 52 68)) ++ packet.drop 68 = packet.drop 52 :=
    beBytes_dodagid (by omega)
  rw [returns_decompress hcarries.head_eq hcarries.length_le]
  refine returns_decompressRplDio.mpr ⟨_, _, hcarries.read_eq _,
    (length_recomputed h.length_le).trans_le hroom, ?_⟩
  rw [← h.rebuilt, hbase, ← hrank, hgmop, hzero, hflags, hreserved, ← hdodagid, htype, hcode]
  simp [DioFields.packet, DioFields.base, linkLocalAddress_iid h.src_local,
    linkLocalAddress_iid h.dst_local]

theorem Icmpv6Match.restores_dao (h : Icmpv6Match packet) (hdao : IsDao packet)
    (hwire : Wire s ruleRplDao (daoBits packet) (packet.drop 64))
    (hlimit : s.length ≤ maxPacketSize) : Returns (decompress s) room (recomputed packet) := by
  obtain ⟨htype, hcode, hlength, hflags, hreserved⟩ := hdao
  have hcarries := hwire.carries hlimit (reads_dao h.fields hlength hflags)
  have hbase : packet.drop 44 = [packet.getD 44 0, packet.getD 45 0] ++ packet.drop 46 :=
    drop_eq_pair_append (by omega) 0
  have hseq : packet.drop 46 = [packet.getD 46 0, packet.getD 47 0] ++ packet.drop 48 :=
    drop_eq_pair_append (by omega) 0
  have hdodagid : beBytes 16 (beNat (packet.extract 48 64)) ++ packet.drop 64 = packet.drop 48 :=
    beBytes_dodagid (by omega)
  rw [returns_decompress hcarries.head_eq hcarries.length_le]
  refine returns_decompressRplDao.mpr ⟨_, _, hcarries.read_eq _,
    (length_recomputed h.length_le).trans_le hroom, ?_⟩
  rw [← h.rebuilt, hbase, hseq, hreserved, ← hdodagid, htype, hcode]
  simp [DaoFields.packet, DaoFields.base, linkLocalAddress_iid h.src_local,
    linkLocalAddress_iid h.dst_local]

theorem UdpMatch.restores_mqttSn (hmatch : UdpMatch packet)
    (hpolicy : validateAddressPolicy (sourceAddress packet) (destinationAddress packet) = .ok ())
    (hport : u16At packet 40 = portMqttSn ∨ u16At packet 42 = portMqttSn)
    (hwire : Wire s ruleMqttSn (mqttBits packet) (packet.drop 48)) (hs : s.length ≤ maxPacketSize) :
    Returns (decompress s) room packet := by
  have hcarries := hwire.carries hs (reads_mqttSn hmatch.fields hpolicy)
  have hlength := hmatch.length_le
  have hlimit : packet.length ≤ 22554 := hmatch.limit
  have hudpLen : 8 + (packet.drop 48).length = packet.length - 40 := by
    rw [length_drop]
    omega
  have hsrcPort : (if (mqttPorts packet).1 = 0 then portMqttSn else (mqttPorts packet).2) =
      u16At packet 40 := by
    rw [mqttPorts]
    split
    · next heq => exact heq.symm
    · rfl
  have hdstPort : (if (mqttPorts packet).1 = 0 then (mqttPorts packet).2 else portMqttSn) =
      u16At packet 42 := by
    rw [mqttPorts]
    split
    · rfl
    · next hne => exact (hport.resolve_left hne).symm
  rw [returns_decompress hcarries.head_eq hcarries.length_le]
  refine returns_decompressMqttSn.mpr ⟨hcarries.head_eq, _, _, u16At packet 46,
    hcarries.read_eq _, ?_, by omega, hroom, ?_⟩
  · simp only [MqttFields.srcPort, MqttFields.dstPort, hsrcPort, hdstPort, hmatch.checksum_eq]
  · simp only [MqttFields.packet, MqttFields.srcPort, MqttFields.dstPort, hsrcPort, hdstPort,
      hudpLen, hmatch.rebuilt]

end

theorem decompressRule_coap (h : ruleId = ruleLinkLocalCoap ∨ ruleId = ruleGlobalCoap ∨
    ruleId = ruleLinkLocalOscore ∨ ruleId = ruleGlobalOscore) (data : Bytes) :
    decompressRule ruleId data = decompressCoap data ruleId := by
  rcases h with rfl | rfl | rfl | rfl <;> rfl

/-- The rule that is tried for a CoAP message, with or without an Object-Security option. -/
def IsCoapRule (ruleId : UInt8) (isOscore : Bool) : Prop :=
  if isOscore then ruleId = ruleLinkLocalOscore ∨ ruleId = ruleGlobalOscore
  else ruleId = ruleLinkLocalCoap ∨ ruleId = ruleGlobalCoap

theorem IsCoapRule.accepted (h : IsCoapRule ruleId isOscore) :
    (ruleId = ruleLinkLocalCoap ∨ ruleId = ruleGlobalCoap ∨ ruleId = ruleLinkLocalOscore ∨
      ruleId = ruleGlobalOscore) ∧
    ¬((ruleId = ruleLinkLocalOscore ∨ ruleId = ruleGlobalOscore) ∧ ¬isOscore) ∧
    ¬((ruleId = ruleLinkLocalCoap ∨ ruleId = ruleGlobalCoap) ∧ isOscore) := by
  cases isOscore with
  | true | false => rcases h with rfl | rfl <;> decide

theorem isCoapRule_coapRule (packet : Bytes) :
    IsCoapRule (coapRule packet) (hasOscoreOption (packet.drop 48)) := by
  rw [IsCoapRule, coapRule]
  split_ifs <;> simp

theorem UdpMatch.restores_coap (hmatch : UdpMatch packet) (hmessage : IsCoapMessage packet)
    (haddresses : CoapAddresses (coapRule packet) (sourceAddress packet)
      (destinationAddress packet) abits)
    (hwire : Wire s (coapRule packet) (coapBits packet) (packet.drop 52))
    (hs : s.length ≤ maxPacketSize) (hroom : packet.length ≤ room.length) :
    Returns (decompress s) room packet := by
  obtain ⟨f, hf, hreads⟩ := reads_coap hmatch.fields hmessage haddresses
  have hcarries := hwire.carries hs hreads
  have hrule := isCoapRule_coapRule packet
  have hlimit : packet.length ≤ 22554 := hmatch.limit
  have hlength := hf.length_le
  have hudpLen : 8 + (4 + (packet.drop 52).length) = packet.length - 40 := by
    rw [length_drop]
    omega
  rw [← hf.head_eq, hasOscoreOption_append f.length_head] at hrule
  obtain ⟨hcoap, haccepts⟩ := hrule.accepted
  rw [returns_decompress hcarries.head_eq hcarries.length_le, decompressRule_coap hcoap]
  refine returns_decompressCoap.mpr ⟨f, _, u16At packet 46, hcarries.read_eq _, haccepts, ?_,
    by omega, hroom, ?_⟩
  · rw [udpChecksumParts_eq, hf.src_eq, hf.dst_eq, hf.srcPort_eq, hf.dstPort_eq,
      ← hmatch.checksum_eq, ← hf.head_eq]
    simp
  · rw [CoapFields.packet, hf.head_eq, hf.src_eq, hf.dst_eq, hf.srcPort_eq, hf.dstPort_eq,
      hf.hopLimit_eq, hudpLen, hmatch.rebuilt]

theorem restores_uncompressed : Restores (encodeRule255 packet usizeMax) packet packet := by
  intro out s room h hroom
  obtain ⟨hvalid, hlimit, rfl⟩ := encodeRule255_returns h
  have hmin : min usizeMax maxPacketSize = maxPacketSize := by decide
  rw [returns_decompress rfl (by rwa [length_cons])]
  change Returns (decodeRule255 (ruleUncompressed :: packet) usizeMax) room packet
  rw [decodeRule255, returns_check, returns_check, hmin, returns_ofExcept]
  refine ⟨fun h => h rfl, ?_, (), (validateFullIpv6_ok hvalid).1, ?_⟩
  · rw [length_cons]
    omega
  · exact returns_checkRoom.mpr ⟨hroom, holding_nil.last rfl (by simp) hroom (by simp)⟩

/-- What becomes of a packet: only the checksum of an ICMPv6 rule can change. -/
def restored (packet : Bytes) : Bytes :=
  if MatchesIcmpv6Rule packet then recomputed packet else packet

theorem restored_of_not (h : ¬MatchesIcmpv6Rule packet) : restored packet = packet := if_neg h

theorem MatchesIcmpv6Rule.restores (h : MatchesIcmpv6Rule packet) (hfields : Ipv6Fields packet)
    (hlimit : packet.length ≤ maxPacketSize)
    (hwire : Wire s (encoding packet).1 (encoding packet).2.1 (encoding packet).2.2)
    (hs : s.length ≤ maxPacketSize) (hroom : packet.length ≤ room.length) :
    Returns (decompress s) room (recomputed packet) := by
  have hlength := h.length_le
  obtain ⟨hversion, hnext, hsrc, hdst, hvalid, hbody⟩ := h
  have hmatch : Icmpv6Match packet :=
    ⟨hfields, hversion, hlimit, hnext, hlength, hsrc, hdst, hvalid⟩
  obtain hecho | hdio | hdao := hbody
  · rw [encoding_echo hnext hecho] at hwire
    exact hmatch.restores_echo hroom hecho hwire hs
  · rw [encoding_dio hnext hdio] at hwire
    exact hmatch.restores_dio hroom hdio hwire hs
  · rw [encoding_dao hnext hdao] at hwire
    exact hmatch.restores_dao hroom hdao hwire hs

theorem restores_compress : Restores (compress packet) packet (restored packet) := by
  intro out s room h hroom
  have hchecked := h
  rw [compress, returns_check, returns_ofExcept, Nat.not_lt] at hchecked
  obtain ⟨hlimit, ⟨⟩, hvalid, -⟩ := hchecked
  obtain ⟨hstructure, hpolicy⟩ := validateFullIpv6_ok hvalid
  have hfields := validateFullIpv6Structure_ok hstructure
  obtain ⟨hmatches, hcompresses⟩ | ⟨hnot, hraw⟩ := compress_cases hlimit hvalid
  · obtain ⟨-, hwire, hs⟩ := Encodes.returns hcompresses h
    obtain hicmp | ⟨hversion, hnext, hrule⟩ := hmatches
    · rw [restored, if_pos hicmp]
      exact hicmp.restores hfields hlimit hwire hs hroom
    have hnot : ¬MatchesIcmpv6Rule packet := by
      rintro ⟨-, hicmp, -⟩
      rw [hnext] at hicmp
      exact absurd hicmp (by decide)
    have hmatch : UdpMatch packet := ⟨hfields, hversion, hlimit, hnext⟩
    rw [restored_of_not hnot]
    by_cases hport : u16At packet 40 = portMqttSn ∨ u16At packet 42 = portMqttSn
    · rw [encoding_mqttSn hnext hport] at hwire
      exact hmatch.restores_mqttSn hroom hpolicy hport hwire hs
    · obtain ⟨hmessage, _, haddresses⟩ := hrule.resolve_left hport
      rw [encoding_coap hnext hport] at hwire
      exact hmatch.restores_coap hmessage haddresses hwire hs hroom
  · rw [hraw] at h
    rw [restored_of_not fun h => hnot (.inl h)]
    exact restores_uncompressed out s room h hroom

theorem recomputed_eq_iff (h : 44 ≤ packet.length) :
    recomputed packet = packet ↔ packet.extract 42 44 ≠ [0, 0] := by
  rw [recomputed]
  split
  · next hzero =>
    refine ⟨fun heq => ?_, fun hne => (hne hzero).elim⟩
    have hones : (overwrite packet 42 [0xFF, 0xFF]).extract 42 44 = [0xFF, 0xFF] := by
      rw [overwrite]
      refine extract_field ?_ ?_
      · rw [length_take]
        omega
      · rw [length_take, length_cons, length_cons, length_nil]
        omega
    rw [heq, hzero] at hones
    exact absurd hones (by decide)
  · next hne => exact ⟨fun _ => hne, fun _ => rfl⟩

/-- A packet that was compressed comes back byte for byte, unless one of the ICMPv6 rules elided a
checksum that was zero. -/
theorem decompress_compress_iff (h : Returns (compress packet) out s) :
    (∀ room, packet.length ≤ room.length → Returns (decompress s) room packet) ↔
      ¬(MatchesIcmpv6Rule packet ∧ packet.extract 42 44 = [0, 0]) := by
  have hrestores := fun room => restores_compress out s room h
  by_cases hmatch : MatchesIcmpv6Rule packet
  · have hlength := hmatch.length_le
    have heq : restored packet = recomputed packet := if_pos hmatch
    rw [heq] at hrestores
    constructor
    · rintro hall ⟨_, hzero⟩
      have hsame := (hall packet le_rfl).unique (hrestores packet le_rfl)
      exact (recomputed_eq_iff hlength).mp hsame.symm hzero
    · intro hnot room hroom
      have hback := hrestores room hroom
      rwa [(recomputed_eq_iff hlength).mpr fun hzero => hnot ⟨hmatch, hzero⟩] at hback
  · rw [restored_of_not hmatch] at hrestores
    exact ⟨fun _ hboth => hmatch hboth.1, fun _ room hroom => hrestores room hroom⟩

def echoRequest (checksum identifier : Bytes) : Bytes :=
  [0x60, 0, 0, 0, 0, 8, 58, 64] ++ (linkLocalPrefix ++ [0, 0, 0, 0, 0, 0, 0, 1]) ++
    (linkLocalPrefix ++ [0, 0, 0, 0, 0, 0, 0, 2]) ++ [128, 0] ++ checksum ++ identifier ++ [0, 1]

def echoResidue (identifier : Bytes) : Bytes :=
  [2, 64, 0, 0, 0, 0, 0, 0, 0, 1, 0, 0, 0, 0, 0, 0, 0, 2, 128] ++ identifier ++ [0, 1]

theorem decompress_compress_echoRequest :
    Returns (compress (echoRequest [0x82, 0xB7] [0, 0])) (List.replicate 23 0) (echoResidue [0, 0])
      ∧
    ((∀ room, (echoRequest [0x82, 0xB7] [0, 0]).length ≤ room.length →
      Returns (decompress (echoResidue [0, 0])) room (echoRequest [0x82, 0xB7] [0, 0])) ↔
      ¬(MatchesIcmpv6Rule (echoRequest [0x82, 0xB7] [0, 0]) ∧
        (echoRequest [0x82, 0xB7] [0, 0]).extract 42 44 = [0, 0])) := by
  have h : Returns (compress (echoRequest [0x82, 0xB7] [0, 0])) (List.replicate 23 0)
      (echoResidue [0, 0]) := by
    decide +kernel
  exact ⟨h, decompress_compress_iff h⟩

theorem zero_checksum_not_restored :
    Returns (compress (echoRequest [0, 0] [0x82, 0xB7])) (List.replicate 48 0)
      (echoResidue [0x82, 0xB7]) ∧
    Returns (decompress (echoResidue [0x82, 0xB7])) (List.replicate 48 0)
      (echoRequest [0xFF, 0xFF] [0x82, 0xB7]) ∧
    ¬Returns (decompress (echoResidue [0x82, 0xB7])) (List.replicate 48 0)
      (echoRequest [0, 0] [0x82, 0xB7]) := by
  decide +kernel

end Lichen.Schc
