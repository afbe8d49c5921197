import Lichen.Schc.Compress

namespace Lichen.Schc

open Lichen.Lib BitReader

def genericPadding : String := "nonzero generic rule residue padding"

def readU8 : Reader UInt8 := do
  let value ← read 8
  pure (UInt8.ofNat value)

def linkLocalInt (iid : Nat) : Nat := (0xFE80000000000000 <<< 64) ||| iid

def linkLocalAddress (iid : Nat) : Bytes := beBytes 16 (linkLocalInt iid)

def ipv6Header (payloadLen : Nat) (nextHeader hopLimit : UInt8) (src dst : Bytes) : Bytes :=
  versionWord ++ (beBytes 2 payloadLen ++ ([nextHeader] ++ ([hopLimit] ++ (src ++ dst))))

def udpHeader (srcPort dstPort udpLen checksum : Nat) : Bytes :=
  beBytes 2 srcPort ++ (beBytes 2 dstPort ++ (beBytes 2 udpLen ++ beBytes 2 checksum))

def readCoapAddresses (ruleId : UInt8) : Reader (Nat × Nat) :=
  if ruleId = ruleLinkLocalCoap ∨ ruleId = ruleLinkLocalOscore then do
    let srcIid ← read 64
    let dstIid ← read 64
    pure (linkLocalInt srcIid, linkLocalInt dstIid)
  else if ruleId = ruleGlobalCoap ∨ ruleId = ruleGlobalOscore then do
    let srcLsb ← read 120
    let dstLsb ← read 120
    pure ((0x02 <<< 120) ||| srcLsb, (0x02 <<< 120) ||| dstLsb)
  else do
    let src ← read 128
    let dst ← read 128
    pure (src, dst)

structure CoapFields where
  hopLimit : UInt8
  addresses : Nat × Nat
  srcPort : Nat
  dstPort : Nat
  coapType : UInt8
  coapTkl : UInt8
  coapCode : UInt8
  coapMid : Nat

def readCoap (ruleId : UInt8) : Reader CoapFields := do
  let hopLimit ← readU8
  let addresses ← readCoapAddresses ruleId
  let srcPort ← read 4
  let dstPort ← read 4
  let coapType ← read 2
  let coapTkl ← read 4
  let coapCode ← readU8
  let coapMid ← read 16
  pure ⟨hopLimit, addresses, (coapPort &&& 0xFFF0) ||| srcPort, (coapPort &&& 0xFFF0) ||| dstPort,
    UInt8.ofNat coapType, UInt8.ofNat coapTkl, coapCode, coapMid⟩

def CoapFields.head (f : CoapFields) : Bytes :=
  [((1 : UInt8) <<< 6) ||| ((f.coapType &&& 0x3) <<< 4) ||| (f.coapTkl &&& 0x0F), f.coapCode] ++
    beBytes 2 f.coapMid

def decompressCoap (data : Bytes) (ruleId : UInt8) : Codec Nat := do
  let (f, tail) ← ofExcept (readResidue genericPadding (readCoap ruleId) data)
  let src := beBytes 16 f.addresses.1
  let dst := beBytes 16 f.addresses.2
  let coapLen := 4 + tail.length
  let udpLen := 8 + coapLen
  check (0xFFFF < udpLen) (.bufferTooSmall udpLen 0xFFFF)
  let total := 40 + 8 + coapLen
  checkRoom total
  let hasOscore := hasOscoreOptionParts f.head tail
  check ((ruleId = ruleLinkLocalOscore ∨ ruleId = ruleGlobalOscore) ∧ ¬hasOscore)
    (.nonCanonicalResidue "OSCORE rule does not reconstruct valid OSCORE CoAP")
  check ((ruleId = ruleLinkLocalCoap ∨ ruleId = ruleGlobalCoap) ∧ hasOscore)
    (.nonCanonicalResidue "plaintext CoAP rule reconstructs OSCORE content")
  let checksum ← ofExcept (udpChecksumParts src dst f.srcPort f.dstPort [f.head, tail])
  store 0 (ipv6Header udpLen 17 f.hopLimit src dst)
  store 40 (udpHeader f.srcPort f.dstPort udpLen checksum)
  store 48 f.head
  store 52 tail
  pure total

structure EchoFields where
  hopLimit : UInt8
  srcIid : Nat
  dstIid : Nat
  icmpType : UInt8
  icmpId : Nat
  icmpSeq : Nat

def readIcmpv6Echo : Reader EchoFields := do
  let hopLimit ← readU8
  let srcIid ← read 64
  let dstIid ← read 64
  let icmpType ← readU8
  let icmpId ← read 16
  let icmpSeq ← read 16
  check (icmpType ≠ 128 ∧ icmpType ≠ 129)
    (.nonCanonicalResidue "rule 2 residue contains non-Echo ICMPv6 type")
  pure ⟨hopLimit, srcIid, dstIid, icmpType, icmpId, icmpSeq⟩

def decompressIcmpv6Echo (data : Bytes) : Codec Nat := do
  let (f, tail) ← ofExcept (readResidue genericPadding readIcmpv6Echo data)
  let src := linkLocalAddress f.srcIid
  let dst := linkLocalAddress f.dstIid
  let icmpLen := 8 + tail.length
  let total := 40 + icmpLen
  checkRoom total
  let echo := beBytes 2 f.icmpId ++ beBytes 2 f.icmpSeq
  let checksum := icmpv6ChecksumParts src dst [[f.icmpType, 0, 0, 0] ++ echo, tail]
  store 0 (ipv6Header (icmpLen % 2 ^ 16) 58 f.hopLimit src dst)
  store 40 ([f.icmpType, 0] ++ (beBytes 2 checksum ++ echo))
  store 48 tail
  pure total

/-- Write an RPL message, whose header has a zeroed checksum field, and then its checksum. -/
def storeRpl (hopLimit : UInt8) (src dst icmpHead tail : Bytes) : Codec Nat := do
  let icmpLen := icmpHead.length + tail.length
  let total := 40 + icmpLen
  checkRoom total
  let checksum := icmpv6ChecksumParts src dst [icmpHead, tail]
  store 0 (ipv6Header (icmpLen % 2 ^ 16) 58 hopLimit src dst)
  store 40 icmpHead
  store (40 + icmpHead.length) tail
  store 42 (beBytes 2 checksum)
  pure total

structure DioFields where
  hopLimit : UInt8
  srcIid : Nat
  dstIid : Nat
  instanceId : UInt8
  version : UInt8
  rank : Nat
  gmop : UInt8
  dtsn : UInt8
  dodagid : Nat

def readRplDio : Reader DioFields := do
  let hopLimit ← readU8
  let srcIid ← read 64
  let dstIid ← read 64
  let instanceId ← readU8
  let version ← readU8
  let rank ← read 16
  let gmop ← readU8
  let dtsn ← readU8
  let dodagid ← read 128
  pure ⟨hopLimit, srcIid, dstIid, instanceId, version, rank, gmop, dtsn, dodagid⟩

def decompressRplDio (data : Bytes) : Codec Nat := do
  let (f, tail) ← ofExcept (readResidue genericPadding readRplDio data)
  let icmpHead := [155, 1, 0, 0] ++ ([f.instanceId, f.version] ++
    (beBytes 2 f.rank ++ ([f.gmop, f.dtsn, 0, 0] ++ beBytes 16 f.dodagid)))
  storeRpl f.hopLimit (linkLocalAddress f.srcIid) (linkLocalAddress f.dstIid) icmpHead tail

structure DaoFields where
  hopLimit : UInt8
  srcIid : Nat
  dstIid : Nat
  instanceId : UInt8
  kdFlags : UInt8
  seq : UInt8
  dodagid : Nat

def readRplDao : Reader DaoFields := do
  let hopLimit ← readU8
  let srcIid ← read 64
  let dstIid ← read 64
  let instanceId ← readU8
  let kdFlags ← readU8
  let seq ← readU8
  let dodagid ← read 128
  check (kdFlags &&& 0x40 = 0)
    (.nonCanonicalResidue "rule 4 residue lacks required D flag in kd_flags")
  pure ⟨hopLimit, srcIid, dstIid, instanceId, kdFlags, seq, dodagid⟩

def decompressRplDao (data : Bytes) : Codec Nat := do
  let (f, tail) ← ofExcept (readResidue genericPadding readRplDao data)
  let icmpHead := [155, 2, 0, 0] ++ ([f.instanceId, f.kdFlags, 0, f.seq] ++ beBytes 16 f.dodagid)
  storeRpl f.hopLimit (linkLocalAddress f.srcIid) (linkLocalAddress f.dstIid) icmpHead tail

structure MqttFields where
  hopLimit : UInt8
  addresses : Bytes × Bytes
  direction : Nat
  otherPort : Nat

def readMqttAddresses (addrMode : Nat) : Reader (Bytes × Bytes) :=
  if addrMode = 0 then do
    let srcIid ← read 64
    let dstIid ← read 64
    pure (linkLocalAddress srcIid, linkLocalAddress dstIid)
  else do
    let src ← read 128
    let dst ← read 128
    pure (beBytes 16 src, beBytes 16 dst)

def readMqttSn : Reader MqttFields := do
  let hopLimit ← readU8
  let addrMode ← read 1
  let addresses ← readMqttAddresses addrMode
  ofExcept (validateAddressPolicy addresses.1 addresses.2)
  check (addrMode = 1 ∧ isLinkLocal64 addresses.1 ∧ isLinkLocal64 addresses.2)
    (.nonCanonicalResidue "full-address mode used for two fe80::/64 addresses")
  let direction ← read 1
  let otherPort ← read 16
  check (direction = 1 ∧ otherPort = portMqttSn)
    (.nonCanonicalResidue "both MQTT-SN ports require direction zero")
  pure ⟨hopLimit, addresses, direction, otherPort⟩

def decompressMqttSn (data : Bytes) (ruleId : UInt8) : Codec Nat := do
  check (data.head? ≠ some ruleId) .noMatchingRule
  let (f, tail) ← ofExcept (readResidue "nonzero Rule 7 residue padding" readMqttSn data)
  let src := f.addresses.1
  let dst := f.addresses.2
  let srcPort := if f.direction = 0 then portMqttSn else f.otherPort
  let dstPort := if f.direction = 0 then f.otherPort else portMqttSn
  let udpLen := 8 + tail.length
  check (0xFFFF < udpLen) (.bufferTooSmall udpLen 0xFFFF)
  let checksum ← ofExcept (udpChecksum src dst srcPort dstPort tail)
  let total := 40 + 8 + tail.length
  checkRoom total
  store 0 (ipv6Header udpLen 17 f.hopLimit src dst)
  store 40 (udpHeader srcPort dstPort udpLen checksum)
  store 48 tail
  pure total

def decodeRule255 (data : Bytes) (singleFrameLimit : Nat) : Codec Nat := do
  check (data.head? ≠ some ruleUncompressed) (.invalidPacket "version mismatch accepts Rule 255 only")
  check (min singleFrameLimit maxPacketSize < data.length)
    (.invalidPacket "Rule 255 packet exceeds profile single-frame limit")
  let packet := data.drop 1
  ofExcept (validateFullIpv6Structure packet)
  checkRoom packet.length
  store 0 packet
  pure packet.length

def decompressRule (ruleId : UInt8) (data : Bytes) : Codec Nat :=
  if ruleId = ruleLinkLocalCoap then decompressCoap data ruleLinkLocalCoap
  else if ruleId = ruleGlobalCoap then decompressCoap data ruleGlobalCoap
  else if ruleId = ruleIcmpv6Echo then decompressIcmpv6Echo data
  else if ruleId = ruleRplDio then decompressRplDio data
  else if ruleId = ruleRplDao then decompressRplDao data
  else if ruleId = ruleLinkLocalOscore then decompressCoap data ruleLinkLocalOscore
  else if ruleId = ruleGlobalOscore then decompressCoap data ruleGlobalOscore
  else if ruleId = ruleMqttSn then decompressMqttSn data ruleMqttSn
  else if ruleId = ruleUncompressed then decodeRule255 data usizeMax
  else throw (.unknownRuleId ruleId)

def decompress (data : Bytes) : Codec Nat := do
  check (data = []) (.tooShort 1 0)
  check (maxPacketSize < data.length) (.invalidPacket "SCHC packet exceeds profile limit")
  decompressRule (data.getD 0 0) data

variable {packet address room : Bytes}

theorem returns_decompress (hhead : s.head? = some ruleId) (hlimit : s.length ≤ maxPacketSize) :
    Returns (decompress s) room p ↔ Returns (decompressRule ruleId s) room p := by
  obtain ⟨rest, rfl⟩ : ∃ rest, s = ruleId :: rest := by
    cases s with
    | nil => cases hhead
    | cons first rest => exact ⟨rest, by rw [Option.some.inj hhead]⟩
  rw [decompress, returns_check, returns_check]
  exact ⟨fun h => h.2.2, fun h => ⟨List.cons_ne_nil _ _, by omega, h⟩⟩

theorem ipv6Header_append (h : Ipv6Fields packet) (hversion : packet.extract 0 4 = versionWord) :
    ipv6Header (packet.length - 40) (packet.getD 6 0) (packet.getD 7 0) (sourceAddress packet)
      (destinationAddress packet) ++ packet.drop 40 = packet := by
  have hlength := h.length_le
  have hpayload : packet.length - 40 = u16At packet 4 := by
    have := h.length_eq
    omega
  have hnextHeader : packet.drop 6 = packet.getD 6 0 :: packet.drop 7 :=
    drop_eq_getD_cons (by omega) 0
  have hhopLimit : packet.drop 7 = packet.getD 7 0 :: packet.drop 8 :=
    drop_eq_getD_cons (by omega) 0
  rw [ipv6Header, hpayload, ← hversion, sourceAddress, destinationAddress]
  simp only [List.append_assoc, List.cons_append, List.nil_append]
  rw [← drop_eq_extract_append packet (by decide), ← drop_eq_extract_append packet (by decide),
    ← hhopLimit, ← hnextHeader, beBytes_u16At (by omega),
    ← drop_eq_extract_append packet (by decide), List.drop_zero]

theorem getD_of_version (hversion : packet.extract 0 4 = versionWord) :
    packet.getD 0 0 >>> 4 = 6 := by
  cases packet with
  | nil => cases hversion
  | cons =>
    injection hversion with hfirst
    rw [List.getD_cons_zero, hfirst]
    decide

section

variable (h : address.length = 16)

include h

theorem iid_lt : iid address < 2 ^ 64 := by
  have hlt := beNat_lt (address.drop 8)
  rw [List.length_drop, h] at hlt
  exact hlt

theorem beNat_lt_of_address : beNat address < 2 ^ 128 := by
  have hlt := beNat_lt address
  rw [h] at hlt
  exact hlt

theorem beBytes_address : beBytes 16 (beNat address) = address := by
  rw [← h, beBytes_beNat]

end

theorem linkLocalAddress_iid (h : isLinkLocal64 address) :
    linkLocalAddress (iid address) = address := by
  obtain ⟨hlength, hfixed⟩ := of_decide_eq_true h
  have hdrop : (address.drop 8).length = 8 := by rw [List.length_drop, hlength]
  have hiid : beBytes 8 (iid address) = address.drop 8 := by
    have hbytes := beBytes_beNat (address.drop 8)
    rwa [hdrop] at hbytes
  rw [linkLocalAddress, linkLocalInt, beBytes_shiftLeft_or 8 8 _ (iid_lt hlength), hiid]
  have hupper : beBytes 8 0xFE80000000000000 = linkLocalPrefix := by decide
  rw [hupper, ← hfixed, List.take_append_drop]

theorem globalAddress_lsb (hlength : address.length = 16) (h : address.getD 0 0 = 0x02) :
    beBytes 16 ((0x02 <<< 120) ||| (beNat address &&& ((1 <<< 120) - 1))) = address := by
  have hcons := drop_eq_getD_cons (l := address) (a := 0) (by omega) 0
  rw [List.drop_zero, h] at hcons
  have hrest : (address.drop 1).length = 15 := by rw [List.length_drop, hlength]
  have hlt := beNat_lt (address.drop 1)
  rw [hrest] at hlt
  have hlsb : beNat address &&& ((1 <<< 120) - 1) = beNat (address.drop 1) := by
    have hvalue : beNat address = beNat [0x02] * 256 ^ 15 + beNat (address.drop 1) := by
      rw [← hrest, ← beNat_append]
      exact congrArg beNat hcons
    rw [hvalue, Nat.one_shiftLeft, Nat.and_two_pow_sub_one_eq_mod]
    omega
  rw [hlsb, show (16 : Nat) = 1 + 15 from rfl, show (120 : Nat) = 8 * 15 from rfl,
    beBytes_shiftLeft_or 1 15 _ hlt]
  have hbytes := beBytes_beNat (address.drop 1)
  rw [hrest] at hbytes
  rw [hbytes]
  exact hcons.symm

theorem length_sourceAddress (h : Ipv6Fields packet) : (sourceAddress packet).length = 16 :=
  length_extract_of_le (by have := h.length_le; omega)

theorem length_destinationAddress (h : Ipv6Fields packet) :
    (destinationAddress packet).length = 16 :=
  length_extract_of_le h.length_le

end Lichen.Schc
