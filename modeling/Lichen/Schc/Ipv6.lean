import Lichen.Schc.Checksum

namespace Lichen.Schc

open Lichen.Lib

def u16At (data : Bytes) (offset : Nat) : Nat := beNat (data.extract offset (offset + 2))

def linkLocalPrefix : Bytes := [0xFE, 0x80, 0, 0, 0, 0, 0, 0]

section

variable (address : Bytes)

def isLinkLocal64 : Bool := address.length = 16 ∧ address.take 8 = linkLocalPrefix

def isUnspecifiedAddress : Bool :=
  address.length = 16 && address.all (· == 0)

def isLoopbackAddress : Bool :=
  address.length = 16 && (address.take 15).all (· == 0) && address.getD 15 0 == 1

def isIpv4MappedAddress : Bool :=
  address.length = 16 && (address.take 10).all (· == 0) && address.extract 10 12 == [0xff, 0xff]

end

def validateAddressPolicy (src dst : Bytes) : Except SchcError Unit :=
  if src.length ≠ 16 ∨ isUnspecifiedAddress src ∨ isLoopbackAddress src ∨ src.head? = some 0xff ∨
      isIpv4MappedAddress src then
    .error (.invalidPacket "invalid IPv6 source address")
  else if dst.length ≠ 16 ∨ isUnspecifiedAddress dst ∨ isLoopbackAddress dst ∨
      isIpv4MappedAddress dst then
    .error (.invalidPacket "invalid IPv6 destination address")
  else if dst.head? = some 0xff ∧ ¬(2 ≤ dst.getD 1 0 &&& 0x0f ∧ dst.getD 1 0 &&& 0x0f ≤ 14) then
    .error (.invalidPacket "invalid IPv6 destination multicast scope")
  else .ok ()

/-- The destination that the checksum covers behind a source-routing header of `extLen` bytes. -/
def routingDestination (packet : Bytes) (offset extLen : Nat) (destination : Bytes) :
    Except SchcError Bytes :=
  if extLen < 24 ∨ packet.getD (offset + 2) 0 ≠ 3 ∨
      packet.extract (offset + 4) (offset + 8) ≠ [0, 0, 0, 0] then
    .error (.invalidPacket "unsupported RPL source-routing header")
  else
    let segmentsLeft := (packet.getD (offset + 3) 0).toNat
    if (extLen - 8) / 16 < segmentsLeft then
      .error (.invalidPacket "invalid RPL source-routing segments-left")
    else if (extLen - 8) % 16 ≠ 0 then
      .error (.invalidPacket "invalid RPL source-routing header length")
    else if segmentsLeft ≠ 0 then
      .ok (packet.extract (offset + extLen - 16) (offset + extLen))
    else .ok destination

/-- Walk the extension headers from `offset` on: the upper-layer protocol, its offset, and the
destination for its checksum. -/
def extensionHeaders (packet : Bytes) :
    Nat → UInt8 → Nat → Bytes → Except SchcError (UInt8 × Nat × Bytes)
  | 0, nextHeader, offset, destination => .ok (nextHeader, offset, destination)
  | fuel + 1, nextHeader, offset, destination =>
    if nextHeader = 0 ∨ nextHeader = 43 ∨ nextHeader = 60 then
      if packet.length < offset + 2 then
        .error (.invalidPacket "truncated IPv6 extension header")
      else
        let extLen := ((packet.getD (offset + 1) 0).toNat + 1) * 8
        if packet.length < offset + extLen then
          .error (.invalidPacket "IPv6 extension header exceeds packet")
        else if nextHeader = 43 then
          match routingDestination packet offset extLen destination with
          | .error error => .error error
          | .ok destination =>
            extensionHeaders packet fuel (packet.getD offset 0) (offset + extLen) destination
        else extensionHeaders packet fuel (packet.getD offset 0) (offset + extLen) destination
    else if nextHeader = 44 then
      .error (.invalidPacket "IPv6 Fragment header is unsupported")
    else .ok (nextHeader, offset, destination)

def validateUdp (udp src dst : Bytes) : Except SchcError Unit :=
  if udp.length < 8 then .error (.invalidPacket "truncated IPv6/UDP datagram")
  else if u16At udp 4 < 8 ∨ u16At udp 4 ≠ udp.length then
    .error (.invalidPacket "UDP length mismatch")
  else if u16At udp 6 = 0 then .error (.invalidPacket "IPv6 UDP checksum is zero")
  else
    match udpChecksum src dst (u16At udp 0) (u16At udp 2) (udp.drop 8) with
    | .error error => .error error
    | .ok expected =>
      if u16At udp 6 ≠ expected then .error (.invalidPacket "IPv6 UDP checksum is invalid")
      else .ok ()

/-- Structure and checksums, whatever the addresses: all that is asked of a received packet. -/
def validateFullIpv6Structure (packet : Bytes) : Except SchcError Unit :=
  if packet.length < 40 then .error (.invalidPacket "truncated IPv6 header")
  else if packet.getD 0 0 >>> 4 ≠ 6 then .error (.invalidPacket "IPv6 version is not 6")
  else if packet.length ≠ 40 + u16At packet 4 then
    .error (.invalidPacket "IPv6 payload length mismatch")
  else
    -- every extension header takes eight bytes or more, so the length is enough fuel
    match extensionHeaders packet packet.length (packet.getD 6 0) 40 (packet.extract 24 40) with
    | .error error => .error error
    | .ok (nextHeader, offset, destination) =>
      if nextHeader = 17 then validateUdp (packet.drop offset) (packet.extract 8 24) destination
      else .ok ()

def validateFullIpv6 (packet : Bytes) : Except SchcError Unit :=
  match validateFullIpv6Structure packet with
  | .error error => .error error
  | .ok () => validateAddressPolicy (packet.extract 8 24) (packet.extract 24 40)

variable {packet udp src dst : Bytes}

theorem extensionHeaders_fuel (hfuel : packet.length - offset < fuel)
    (hfuel' : packet.length - offset < fuel') (nextHeader : UInt8) (destination : Bytes) :
    extensionHeaders packet fuel nextHeader offset destination =
      extensionHeaders packet fuel' nextHeader offset destination := by
  induction fuel generalizing fuel' nextHeader offset destination with
  | zero => omega
  | succ fuel ih =>
    obtain ⟨fuel', rfl⟩ : ∃ n, fuel' = n + 1 := ⟨fuel' - 1, by omega⟩
    simp only [extensionHeaders]
    split
    · split
      · rfl
      · split
        · rfl
        · have hnext : ∀ stop, offset < stop → ∀ nextHeader destination,
              extensionHeaders packet fuel nextHeader stop destination =
                extensionHeaders packet fuel' nextHeader stop destination :=
            fun stop hstop => ih (by omega) (by omega)
          simp only [hnext (offset + ((packet.getD (offset + 1) 0).toNat + 1) * 8) (by omega)]
    · rfl

theorem u16At_lt : u16At data offset < 2 ^ 16 := by
  have hlt := beNat_lt (data.extract offset (offset + 2))
  have hlength : (data.extract offset (offset + 2)).length ≤ 2 := by
    rw [List.extract, List.length_take]
    omega
  exact lt_of_lt_of_le hlt (Nat.pow_le_pow_right (by decide) hlength)

theorem u16At_drop (data : Bytes) (n offset : Nat) :
    u16At (data.drop n) offset = u16At data (n + offset) := by
  rw [u16At, extract_drop, u16At, Nat.add_assoc]

theorem u16At_field (front back : Bytes) (h : v < 2 ^ 16) :
    u16At (front ++ (beBytes 2 v ++ back)) front.length = v :=
  beNat_field (n := 2) front back h

theorem beBytes_u16At (h : offset + 2 ≤ data.length) :
    beBytes 2 (u16At data offset) ++ data.drop (offset + 2) = data.drop offset := by
  have hlength : (data.extract offset (offset + 2)).length = 2 := by
    rw [length_extract_of_le h]
    omega
  have hbytes := beBytes_beNat (data.extract offset (offset + 2))
  rw [hlength] at hbytes
  rw [u16At, hbytes, ← drop_eq_extract_append data (by omega)]

/-- What a UDP datagram that passes says of its own length and checksum. -/
structure UdpFields (udp src dst : Bytes) : Prop where
  length_le : 8 ≤ udp.length
  length_eq : u16At udp 4 = udp.length
  checksum_eq : udpChecksum src dst (u16At udp 0) (u16At udp 2) (udp.drop 8) = .ok (u16At udp 6)

theorem validateUdp_ok (h : validateUdp udp src dst = .ok ()) : UdpFields udp src dst := by
  simp only [validateUdp] at h
  split at h
  · cases h
  · split at h
    · cases h
    · split at h
      · cases h
      · split at h
        · cases h
        · split at h
          · cases h
          · next hshort hlength _ _ expected hchecksum heq =>
            rw [not_or, not_not] at hlength
            rw [not_not] at heq
            exact ⟨by omega, hlength.2, by rw [hchecksum, heq]⟩

structure Ipv6Fields (packet : Bytes) : Prop where
  length_le : 40 ≤ packet.length
  length_eq : packet.length = 40 + u16At packet 4
  udp : packet.getD 6 0 = 17 →
    UdpFields (packet.drop 40) (packet.extract 8 24) (packet.extract 24 40)

theorem validateFullIpv6Structure_ok (h : validateFullIpv6Structure packet = .ok ()) :
    Ipv6Fields packet := by
  simp only [validateFullIpv6Structure] at h
  split at h
  · cases h
  · split at h
    · cases h
    · split at h
      · cases h
      · next hshort _ hlength =>
        refine ⟨by omega, by omega, ?_⟩
        intro hudp
        obtain ⟨fuel, hfuel⟩ : ∃ fuel, packet.length = fuel + 1 := ⟨packet.length - 1, by omega⟩
        have hheaders : extensionHeaders packet packet.length 17 40 (packet.extract 24 40) =
            .ok (17, 40, packet.extract 24 40) := by
          rw [hfuel]
          rfl
        rw [hudp, hheaders] at h
        exact validateUdp_ok h

theorem validateFullIpv6_ok (h : validateFullIpv6 packet = .ok ()) :
    validateFullIpv6Structure packet = .ok () ∧
      validateAddressPolicy (packet.extract 8 24) (packet.extract 24 40) = .ok () := by
  rw [validateFullIpv6] at h
  split at h
  · cases h
  · next hstructure => exact ⟨hstructure, h⟩

end Lichen.Schc
