import Lichen.Schc.BitStream
import Lichen.Schc.Oscore

namespace Lichen.Schc

open Lichen.Lib BitWriter

def portMqttSn : Nat := 10883
def coapPort : Nat := 5683
def usizeMax : Nat := 2 ^ 64 - 1

def sourceAddress (packet : Bytes) : Bytes := packet.extract 8 24

def destinationAddress (packet : Bytes) : Bytes := packet.extract 24 40

def versionWord : Bytes := [0x60, 0, 0, 0]

def iid (address : Bytes) : Nat := beNat (address.drop 8)

def ensureIpv6 (packet : Bytes) : Codec Unit :=
  check (packet.length < 40 ∨ packet.getD 0 0 >>> 4 ≠ 6) .noMatchingRule

def profileLimit (needed : Nat) : Codec Unit :=
  check (maxPacketSize < needed) (.invalidPacket "SCHC packet exceeds profile limit")

/-- The size of the residue and how the addresses are written, where the rule matches them. -/
def coapAddresses (ruleId : UInt8) (src dst : Bytes) : Option (Nat × Writer Unit) :=
  if ruleId = ruleLinkLocalCoap ∨ ruleId = ruleLinkLocalOscore then
    if isLinkLocal64 src ∧ isLinkLocal64 dst then
      some (22, do
        write (iid src) 64
        write (iid dst) 64)
    else none
  else if ruleId = ruleGlobalCoap ∨ ruleId = ruleGlobalOscore then
    if src.getD 0 0 = 0x02 ∧ dst.getD 0 0 = 0x02 then
      some (36, do
        write (beNat src &&& ((1 <<< 120) - 1)) 120
        write (beNat dst &&& ((1 <<< 120) - 1)) 120)
    else none
  else none

def compressCoap (packet : Bytes) (ruleId : UInt8) : Codec Nat := do
  ensureIpv6 packet
  check (packet.length < 52) .noMatchingRule
  check (packet.extract 0 4 ≠ versionWord) .noMatchingRule
  let srcPort := u16At packet 40
  let dstPort := u16At packet 42
  let coap := packet.drop 48
  let coapTkl := coap.getD 0 0 &&& 0x0F
  check (coap.getD 0 0 >>> 6 ≠ 1 ∨ 8 < coapTkl ∨ coap.length < 4 + coapTkl.toNat) .noMatchingRule
  match coapAddresses ruleId (sourceAddress packet) (destinationAddress packet) with
  | none => throw .noMatchingRule
  | some (residueLen, addresses) => do
    check (srcPort >>> 4 ≠ coapPort >>> 4 ∨ dstPort >>> 4 ≠ coapPort >>> 4) .noMatchingRule
    let tail := coap.drop 4
    let needed := 1 + residueLen + tail.length
    checkRoom needed
    profileLimit needed
    let _ ← writeResidue ruleId do
      write (packet.getD 7 0).toNat 8
      addresses
      write (srcPort &&& 0xF) 4
      write (dstPort &&& 0xF) 4
      write ((coap.getD 0 0 >>> 4) &&& 0x3).toNat 2
      write coapTkl.toNat 4
      write (coap.getD 1 0).toNat 8
      write (u16At coap 2) 16
    store (1 + residueLen) tail
    pure needed

/-- Preflight the complete result, then write the Rule ID, the residue and the tail. -/
def emit (ruleId : UInt8) (residueLen : Nat) (fields : Writer Unit) (tail : Bytes) : Codec Nat := do
  let needed := 1 + residueLen + tail.length
  let out ← get
  check (out = []) (.bufferTooSmall 1 0)
  checkRoom needed
  profileLimit needed
  let n ← writeResidue ruleId fields
  store (1 + n) tail
  pure needed

section

variable (packet : Bytes)

def compressIcmpv6Echo : Codec Nat := do
  ensureIpv6 packet
  check (packet.length < 48) .noMatchingRule
  let icmp := packet.drop 40
  let fields := do
    write (packet.getD 7 0).toNat 8
    write (iid (sourceAddress packet)) 64
    write (iid (destinationAddress packet)) 64
    write (icmp.getD 0 0).toNat 8
    write (u16At icmp 4) 16
    write (u16At icmp 6) 16
  emit ruleIcmpv6Echo 22 fields (icmp.drop 8)

def compressRplDio : Codec Nat := do
  ensureIpv6 packet
  check (packet.length < 68) .noMatchingRule
  let rpl := packet.drop 44
  check (rpl.getD 6 0 ≠ 0 ∨ rpl.getD 7 0 ≠ 0) .noMatchingRule
  let fields := do
    write (packet.getD 7 0).toNat 8
    write (iid (sourceAddress packet)) 64
    write (iid (destinationAddress packet)) 64
    write (rpl.getD 0 0).toNat 8
    write (rpl.getD 1 0).toNat 8
    write (u16At rpl 2) 16
    write (rpl.getD 4 0).toNat 8
    write (rpl.getD 5 0).toNat 8
    write (beNat (rpl.extract 8 24)) 128
  emit ruleRplDio 39 fields (rpl.drop 24)

def compressRplDao : Codec Nat := do
  ensureIpv6 packet
  check (packet.length < 64) .noMatchingRule
  let rpl := packet.drop 44
  check (rpl.getD 1 0 &&& 0x40 = 0 ∨ rpl.getD 2 0 ≠ 0) .noMatchingRule
  let fields := do
    write (packet.getD 7 0).toNat 8
    write (iid (sourceAddress packet)) 64
    write (iid (destinationAddress packet)) 64
    write (rpl.getD 0 0).toNat 8
    write (rpl.getD 1 0).toNat 8
    write (rpl.getD 3 0).toNat 8
    write (beNat (rpl.extract 4 20)) 128
  emit ruleRplDao 36 fields (rpl.drop 20)

/-- Rule 7. The port that is not 10883 is sent, with one bit that tells which side it is on. -/
def compressMqttSn : Codec Nat := do
  ensureIpv6 packet
  check (packet.length < 48) (.invalidPacket "truncated IPv6/UDP datagram")
  check (packet.getD 6 0 ≠ 17) (.invalidPacket "Rule 7 requires UDP next header")
  check (u16At packet 4 ≠ packet.length - 40) (.invalidPacket "IPv6 payload length mismatch")
  let src := sourceAddress packet
  let dst := destinationAddress packet
  ofExcept (validateAddressPolicy src dst)
  let udp := packet.drop 40
  let srcPort := u16At udp 0
  let dstPort := u16At udp 2
  check (u16At udp 4 < 8 ∨ u16At udp 4 ≠ packet.length - 40) (.invalidPacket "UDP length mismatch")
  check (srcPort ≠ portMqttSn ∧ dstPort ≠ portMqttSn) .noMatchingRule
  check (u16At udp 6 = 0) (.invalidPacket "IPv6 UDP checksum is zero")
  let expected ← ofExcept (udpChecksum src dst srcPort dstPort (udp.drop 8))
  check (u16At udp 6 ≠ expected) (.invalidPacket "IPv6 UDP checksum is invalid")
  check (packet.extract 0 4 ≠ versionWord) .noMatchingRule
  let otherPort := if srcPort = portMqttSn then dstPort else srcPort
  let direction := if srcPort = portMqttSn then 0 else 1
  let linkLocal := isLinkLocal64 src && isLinkLocal64 dst
  let addresses := if linkLocal then do
      write 0 1
      write (iid src) 64
      write (iid dst) 64
    else do
      write 1 1
      write (beNat src) 128
      write (beNat dst) 128
  let fields := do
    write (packet.getD 7 0).toNat 8
    addresses
    write direction 1
    write otherPort 16
  emit ruleMqttSn (if linkLocal then 20 else 36) fields (udp.drop 8)

def encodeRule255 (singleFrameLimit : Nat) : Codec Nat := do
  ofExcept (validateFullIpv6 packet)
  let needed := packet.length + 1
  checkRoom needed
  check (min singleFrameLimit maxPacketSize < needed)
    (.invalidPacket "Rule 255 raw IPv6 packet exceeds profile single-frame limit")
  store 0 [ruleUncompressed]
  store 1 packet
  pure needed

end

def enforceEncodedProfileLimit (length : Nat) : Codec Nat := do
  profileLimit length
  pure length

def tryRule (rule next : Codec Nat) : Codec Nat := fun out =>
  match rule out with
  | .ok n out => enforceEncodedProfileLimit n out
  | .error .noMatchingRule out => next out
  | .error error out => .error error out

section

variable (packet : Bytes)

def compressUdp : Codec Nat :=
  let src := sourceAddress packet
  let dst := destinationAddress packet
  let coap := packet.drop 48
  let isOscore := packet.length ≥ 52 && hasOscoreOption coap
  let global := tryRule (compressCoap packet (if isOscore then ruleGlobalOscore else ruleGlobalCoap))
    (encodeRule255 packet usizeMax)
  let linkLocal := if isLinkLocal64 src ∧ isLinkLocal64 dst then
      tryRule (compressCoap packet (if isOscore then ruleLinkLocalOscore else ruleLinkLocalCoap)) global
    else global
  if u16At packet 40 = portMqttSn ∨ u16At packet 42 = portMqttSn then
    tryRule (compressMqttSn packet) linkLocal
  else linkLocal

def compressIcmpv6 : Codec Nat :=
  let src := sourceAddress packet
  let dst := destinationAddress packet
  let icmpType := packet.getD 40 0
  let icmpCode := packet.getD 41 0
  let uncompressed := encodeRule255 packet usizeMax
  if ¬icmpv6ChecksumValid src dst (packet.drop 40) then uncompressed
  else if (icmpType = 128 ∨ icmpType = 129) ∧ icmpCode = 0 ∧ isLinkLocal64 src ∧ isLinkLocal64 dst ∧
      48 ≤ packet.length then
    tryRule (compressIcmpv6Echo packet) uncompressed
  else if icmpType = 155 ∧ isLinkLocal64 src ∧ isLinkLocal64 dst then
    if icmpCode = 1 ∧ 68 ≤ packet.length then tryRule (compressRplDio packet) uncompressed
    else if icmpCode = 2 ∧ 64 ≤ packet.length ∧ packet.getD 45 0 &&& 0x40 ≠ 0 then
      tryRule (compressRplDao packet) uncompressed
    else uncompressed
  else uncompressed

/-- Compress a packet with the best rule that matches, and with Rule 255 if none does. -/
def compress : Codec Nat := do
  check (maxPacketSize < packet.length) (.invalidPacket "SCHC packet exceeds profile limit")
  ofExcept (validateFullIpv6 packet)
  if packet.extract 0 4 ≠ versionWord then encodeRule255 packet usizeMax
  else if packet.getD 6 0 = 17 ∧ 48 ≤ packet.length then compressUdp packet
  else if packet.getD 6 0 = 58 ∧ 44 ≤ packet.length then compressIcmpv6 packet
  else encodeRule255 packet usizeMax

end

theorem encodeRule255_returns (h : Returns (encodeRule255 packet usizeMax) out s) :
    validateFullIpv6 packet = .ok () ∧ packet.length + 1 ≤ maxPacketSize ∧
      s = ruleUncompressed :: packet := by
  have hmin : min usizeMax maxPacketSize = maxPacketSize := by decide
  rw [encodeRule255, returns_ofExcept] at h
  obtain ⟨⟨⟩, hvalid, h⟩ := h
  rw [returns_checkRoom, returns_check, hmin, Nat.not_lt] at h
  obtain ⟨hout, hlimit, h⟩ := h
  refine ⟨hvalid, hlimit, h.unique ?_⟩
  refine holding_nil.store rfl (by simp; omega) fun out₁ h₁ => ?_
  exact h₁.last rfl (by omega) hout rfl

end Lichen.Schc
