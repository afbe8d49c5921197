import Lichen.Schc.Decompress

namespace Lichen.Schc

open Lichen.Lib BitWriter List

variable {p s out src dst tail : Bytes} {bs abits : List Bool} {ruleId : UInt8} {rule next : Codec Nat}

def Wire (s : Bytes) (ruleId : UInt8) (bs : List Bool) (tail : Bytes) : Prop :=
  ∃ residue, Residue residue bs ∧ s = ruleId :: (residue ++ tail)

theorem Wire.unique (h : Wire s ruleId bs tail) (h' : Wire s' ruleId bs tail) : s = s' := by
  obtain ⟨_, hresidue, rfl⟩ := h
  obtain ⟨_, hresidue', rfl⟩ := h'
  rw [hresidue.unique hresidue']

theorem Wire.length_eq (h : Wire s ruleId bs tail) :
    s.length = 1 + (bs.length + 7) / 8 + tail.length := by
  obtain ⟨_, hresidue, rfl⟩ := h
  rw [length_cons, length_append, hresidue.length_eq]
  omega

/-- The packet stands in the buffer, or the buffer is as it was and lacks the room for it. -/
def Written (ruleId : UInt8) (bs : List Bool) (tail out : Bytes) :
    EStateM.Result SchcError Bytes Nat → Prop
  | .ok n out' => n ≤ out.length ∧ n ≤ maxPacketSize ∧
    ∃ s, Wire s ruleId bs tail ∧ n = s.length ∧ out'.take n = s
  | .error e out' => e ≠ .noMatchingRule ∧ out' = out ∧
    min out.length maxPacketSize < 1 + (bs.length + 7) / 8 + tail.length

/-- What a rule does on every buffer, with the packets it matches and with the others. -/
structure Encodes (rule : Codec Nat) (guard : Prop) (ruleId : UInt8) (bs : List Bool)
    (tail : Bytes) : Prop where
  unmatched : ¬guard → ∀ out, rule out = .error .noMatchingRule out
  matched : guard → ∀ out, Written ruleId bs tail out (rule out)

theorem encodes_writeResidue (hfields : Writes fields bs) (hlength : n = (bs.length + 7) / 8)
    (hk : k n = store (1 + n) tail >>= fun _ => pure (1 + n + tail.length)) :
    Encodes (checkRoom (1 + n + tail.length) >>= fun _ => profileLimit (1 + n + tail.length) >>=
      fun _ => writeResidue ruleId fields >>= k) True ruleId bs tail := by
  refine ⟨fun h => absurd trivial h, fun _ out => ?_⟩
  subst hlength
  by_cases hroom : out.length < 1 + (bs.length + 7) / 8 + tail.length
  · rw [checkRoom_of_lt hroom]
    exact ⟨nofun, rfl, by omega⟩
  rw [checkRoom_of_le (Nat.not_lt.mp hroom), profileLimit]
  by_cases hlimit : maxPacketSize < 1 + (bs.length + 7) / 8 + tail.length
  · rw [check_bind_of hlimit]
    exact ⟨nofun, rfl, by omega⟩
  rw [check_bind_of_not hlimit]
  obtain ⟨residue, hresidue, _, hy, htake⟩ :=
    returns_writeResidue hfields rfl (Nat.not_lt.mp hroom) hk
  have hwire : Wire _ ruleId bs tail := ⟨residue, hresidue, rfl⟩
  have hs := hwire.length_eq
  rw [hy]
  exact ⟨by omega, by omega, _, hwire, rfl, htake⟩

theorem encodes_emit (hfields : Writes fields bs) (hlength : n = (bs.length + 7) / 8) :
    Encodes (emit ruleId n fields tail) True ruleId bs tail := by
  refine ⟨fun h => absurd trivial h, fun _ out => ?_⟩
  by_cases hout : out = []
  · have hfail : emit ruleId n fields tail out = .error (.bufferTooSmall 1 0) out :=
      check_bind_of hout
    rw [hfail, hout]
    exact ⟨nofun, rfl, by rw [length_nil]; omega⟩
  · have hpass : emit ruleId n fields tail out = _ := congrFun (check_bind_of_not hout) out
    rw [hpass]
    exact (encodes_writeResidue hfields hlength rfl).matched trivial out

namespace Encodes

variable {guard : Prop}

theorem of_iff (h : Encodes rule guard ruleId bs tail) (hguard : guard' ↔ guard) :
    Encodes rule guard' ruleId bs tail := propext hguard ▸ h

theorem check [Decidable c] (h : Encodes rule guard ruleId bs tail) :
    Encodes (check c .noMatchingRule >>= fun _ => rule) (¬c ∧ guard) ruleId bs tail := by
  constructor
  · intro hguard out
    by_cases hc : c
    · exact check_bind_of hc
    · rw [check_bind_of_not hc]
      exact h.unmatched (fun hg => hguard ⟨hc, hg⟩) out
  · rintro ⟨hc, hg⟩ out
    rw [check_bind_of_not hc]
    exact h.matched hg out

section

variable (h : Encodes rule guard ruleId bs tail)

include h

theorem returns (hs : Returns rule out s) :
    guard ∧ Wire s ruleId bs tail ∧ s.length ≤ maxPacketSize := by
  obtain ⟨_, hy, htake⟩ := hs
  by_cases hg : guard
  · have hwritten := h.matched hg out
    rw [hy] at hwritten
    obtain ⟨-, hlimit, _, hwire, -, rfl⟩ := hwritten
    exact ⟨hg, htake ▸ hwire, hlimit⟩
  · rw [Yields, h.unmatched hg] at hy
    cases hy

theorem emits (hg : guard) (hwire : Wire s ruleId bs tail)
    (hroom : s.length ≤ out.length) (hlimit : s.length ≤ maxPacketSize) : Returns rule out s := by
  have hwritten := h.matched hg out
  have hs := hwire.length_eq
  cases hr : rule out with
  | ok n out' =>
    rw [hr] at hwritten
    obtain ⟨-, -, s', hwire', rfl, htake⟩ := hwritten
    cases hwire.unique hwire'
    exact ⟨out', hr, htake⟩
  | error =>
    rw [hr] at hwritten
    obtain ⟨-, -, hshort⟩ := hwritten
    omega

theorem tryRule (hg : guard) : Encodes (tryRule rule next) True ruleId bs tail := by
  refine ⟨fun h => absurd trivial h, fun _ out => ?_⟩
  have hwritten := h.matched hg out
  cases hr : rule out with
  | ok n out' =>
    rw [hr] at hwritten
    have hpass : enforceEncodedProfileLimit n out' = .ok n out' :=
      congrFun (check_bind_of_not (Nat.not_lt.mpr hwritten.2.1)) out'
    simpa only [Schc.tryRule, hr, hpass] using hwritten
  | error e out' =>
    rw [hr] at hwritten
    simp only [Schc.tryRule, hr]
    cases e with
    | noMatchingRule => exact absurd rfl hwritten.1
    | _ => exact hwritten

theorem tryRule_of_not (hg : ¬guard) : Schc.tryRule rule next = next := by
  funext out
  simp only [Schc.tryRule, h.unmatched hg]

end

end Encodes

section Icmpv6

def echoBits (p : Bytes) : List Bool :=
  natBits 8 (p.getD 7 0).toNat ++ (natBits 64 (iid (sourceAddress p)) ++
    (natBits 64 (iid (destinationAddress p)) ++ (natBits 8 (p.getD 40 0).toNat ++
    (natBits 16 (u16At p 44) ++ natBits 16 (u16At p 46)))))

def dioBits (p : Bytes) : List Bool :=
  natBits 8 (p.getD 7 0).toNat ++ (natBits 64 (iid (sourceAddress p)) ++
    (natBits 64 (iid (destinationAddress p)) ++ (natBits 8 (p.getD 44 0).toNat ++
    (natBits 8 (p.getD 45 0).toNat ++ (natBits 16 (u16At p 46) ++ (natBits 8 (p.getD 48 0).toNat ++
    (natBits 8 (p.getD 49 0).toNat ++ natBits 128 (beNat (p.extract 52 68)))))))))

def daoBits (p : Bytes) : List Bool :=
  natBits 8 (p.getD 7 0).toNat ++ (natBits 64 (iid (sourceAddress p)) ++
    (natBits 64 (iid (destinationAddress p)) ++ (natBits 8 (p.getD 44 0).toNat ++
    (natBits 8 (p.getD 45 0).toNat ++ (natBits 8 (p.getD 47 0).toNat ++
    natBits 128 (beNat (p.extract 48 64)))))))

section

variable (hversion : p.extract 0 4 = versionWord)

include hversion

theorem encodes_echo :
    Encodes (compressIcmpv6Echo p) (48 ≤ p.length) ruleIcmpv6Echo (echoBits p) (p.drop 48) := by
  simp only [compressIcmpv6Echo, ensureIpv6, getD_drop, u16At_drop, drop_drop]
  refine (Encodes.check <| .check <| encodes_emit (.field <| .field <| .field <| .field <| .field <|
    writes_write _ _) (by simp)).of_iff ?_
  simp only [getD_of_version hversion]
  grind

theorem encodes_dio :
    Encodes (compressRplDio p) (68 ≤ p.length ∧ p.getD 50 0 = 0 ∧ p.getD 51 0 = 0) ruleRplDio
      (dioBits p) (p.drop 68) := by
  simp only [compressRplDio, ensureIpv6, getD_drop, u16At_drop, extract_drop, drop_drop]
  refine (Encodes.check <| .check <| .check <| encodes_emit (.field <| .field <| .field <| .field <|
    .field <| .field <| .field <| .field <| writes_write _ _) (by simp)).of_iff ?_
  simp only [getD_of_version hversion]
  grind

theorem encodes_dao :
    Encodes (compressRplDao p) (64 ≤ p.length ∧ p.getD 45 0 &&& 0x40 ≠ 0 ∧ p.getD 46 0 = 0)
      ruleRplDao (daoBits p) (p.drop 64) := by
  simp only [compressRplDao, ensureIpv6, getD_drop, extract_drop, drop_drop]
  refine (Encodes.check <| .check <| .check <| encodes_emit (.field <| .field <| .field <| .field <|
    .field <| .field <| writes_write _ _) (by simp)).of_iff ?_
  simp only [getD_of_version hversion]
  grind

end

end Icmpv6

structure UdpMatch (packet : Bytes) : Prop where
  fields : Ipv6Fields packet
  version : packet.extract 0 4 = versionWord
  limit : packet.length ≤ maxPacketSize
  nextHeader : packet.getD 6 0 = 17

theorem UdpMatch.length_le (h : UdpMatch packet) : 48 ≤ packet.length := by
  have hudp := (h.fields.udp h.nextHeader).length_le
  rw [length_drop] at hudp
  omega

theorem UdpMatch.checksum_eq (h : UdpMatch packet) :
    udpChecksum (sourceAddress packet) (destinationAddress packet) (u16At packet 40)
      (u16At packet 42) (packet.drop 48) = .ok (u16At packet 46) := by
  have hchecksum := (h.fields.udp h.nextHeader).checksum_eq
  rwa [u16At_drop, u16At_drop, u16At_drop, drop_drop] at hchecksum

theorem UdpMatch.udpLen_eq (h : UdpMatch p) : u16At p 44 = p.length - 40 := by
  have hudp := (h.fields.udp h.nextHeader).length_eq
  rwa [u16At_drop, length_drop] at hudp

theorem UdpMatch.rebuilt (h : UdpMatch packet) :
    ipv6Header (packet.length - 40) 17 (packet.getD 7 0) (sourceAddress packet)
        (destinationAddress packet) ++ (udpHeader (u16At packet 40) (u16At packet 42)
          (packet.length - 40) (u16At packet 46) ++ packet.drop 48) = packet := by
  have hlength := h.length_le
  have hudp := h.udpLen_eq
  have hpacket := ipv6Header_append h.fields h.version
  rw [h.nextHeader] at hpacket
  rw [udpHeader, append_assoc, append_assoc, append_assoc,
    beBytes_u16At (by omega), ← hudp, beBytes_u16At (by omega),
    beBytes_u16At (by omega), beBytes_u16At (by omega), hudp, hpacket]

def mqttPorts (packet : Bytes) : Nat × Nat :=
  if u16At packet 40 = portMqttSn then (0, u16At packet 42) else (1, u16At packet 40)

def mqttAddressBits (src dst : Bytes) : List Bool :=
  if isLinkLocal64 src && isLinkLocal64 dst then
    natBits 1 0 ++ (natBits 64 (iid src) ++ natBits 64 (iid dst))
  else natBits 1 1 ++ (natBits 128 (beNat src) ++ natBits 128 (beNat dst))

def mqttBits (p : Bytes) : List Bool :=
  natBits 8 (p.getD 7 0).toNat ++ (mqttAddressBits (sourceAddress p) (destinationAddress p) ++
    (natBits 1 (mqttPorts p).1 ++ natBits 16 (mqttPorts p).2))

theorem udpChecksum_pos (h : udpChecksum src dst srcPort dstPort body = .ok checksum) :
    0 < checksum ∧ checksum < 2 ^ 16 := by
  simp only [udpChecksum, udpChecksumParts] at h
  split at h
  · cases h
  · cases h
    exact onesComplementSum_pos

theorem encodes_mqttSn (hmatch : UdpMatch p)
    (hpolicy : validateAddressPolicy (sourceAddress p) (destinationAddress p) = .ok ()) :
    Encodes (compressMqttSn p) (u16At p 40 = portMqttSn ∨ u16At p 42 = portMqttSn) ruleMqttSn
      (mqttBits p) (p.drop 48) := by
  have hlength := hmatch.length_le
  have hpayload := hmatch.fields.length_eq
  have hudp := hmatch.udpLen_eq
  have hpos := (udpChecksum_pos hmatch.checksum_eq).1
  have hdirection : (if u16At p 40 = portMqttSn then 0 else 1) = (mqttPorts p).1 := by
    rw [mqttPorts]
    split <;> rfl
  have hother : (if u16At p 40 = portMqttSn then u16At p 42 else u16At p 40) = (mqttPorts p).2 := by
    rw [mqttPorts]
    split <;> rfl
  simp only [compressMqttSn, ensureIpv6, u16At_drop, drop_drop, Nat.reduceAdd, hpolicy,
    hmatch.checksum_eq, ofExcept, pure_bind, hdirection, hother]
  have hipv6 : ¬(p.length < 40 ∨ p.getD 0 0 >>> 4 ≠ 6) :=
    not_or.mpr ⟨by omega, not_not.mpr (getD_of_version hmatch.version)⟩
  rw [u16At_drop, u16At_drop, u16At_drop, u16At_drop, check_bind_of_not hipv6,
    check_bind_of_not (by omega), check_bind_of_not (not_not.mpr hmatch.nextHeader),
    check_bind_of_not (by omega), check_bind_of_not (by simp only [Nat.reduceAdd]; omega),
    check_bind_of_not hpos.ne', check_bind_of_not (not_not.mpr rfl),
    check_bind_of_not (not_not.mpr hmatch.version), mqttBits, mqttAddressBits]
  refine Encodes.of_iff (.check ?_) (.trans ?_ (and_iff_left trivial).symm)
  case refine_2 => grind
  by_cases hlocal : isLinkLocal64 (sourceAddress p) && isLinkLocal64 (destinationAddress p)
  · simp only [hlocal, if_true]
    exact encodes_emit (.field <| (Writes.field <| .field <| writes_write _ _).bind <| .field <|
      writes_write _ _) (by simp)
  · simp only [hlocal]
    exact encodes_emit (.field <| (Writes.field <| .field <| writes_write _ _).bind <| .field <|
      writes_write _ _) (by simp)

def coapAddressBits (src dst : Bytes) : List Bool :=
  if isLinkLocal64 src ∧ isLinkLocal64 dst then natBits 64 (iid src) ++ natBits 64 (iid dst)
  else natBits 120 (beNat src &&& ((1 <<< 120) - 1)) ++ natBits 120 (beNat dst &&& ((1 <<< 120) -
    1))

def coapBits (p : Bytes) : List Bool :=
  natBits 8 (p.getD 7 0).toNat ++ (coapAddressBits (sourceAddress p) (destinationAddress p) ++
    (natBits 4 (u16At p 40 &&& 0xF) ++ (natBits 4 (u16At p 42 &&& 0xF) ++
    (natBits 2 ((p.getD 48 0 >>> 4) &&& 0x3).toNat ++ (natBits 4 (p.getD 48 0 &&& 0x0F).toNat ++
    (natBits 8 (p.getD 49 0).toNat ++ natBits 16 (u16At p 50)))))))

def coapRule (p : Bytes) : UInt8 :=
  if isLinkLocal64 (sourceAddress p) ∧ isLinkLocal64 (destinationAddress p) then
    if hasOscoreOption (p.drop 48) then ruleLinkLocalOscore else ruleLinkLocalCoap
  else if hasOscoreOption (p.drop 48) then ruleGlobalOscore else ruleGlobalCoap

inductive CoapAddresses (ruleId : UInt8) (src dst : Bytes) : List Bool → Prop
  | linkLocal (hrule : ruleId = ruleLinkLocalCoap ∨ ruleId = ruleLinkLocalOscore)
      (hsrc : isLinkLocal64 src) (hdst : isLinkLocal64 dst) :
      CoapAddresses ruleId src dst (natBits 64 (iid src) ++ natBits 64 (iid dst))
  | global (hrule : ruleId = ruleGlobalCoap ∨ ruleId = ruleGlobalOscore)
      (hsrc : src.getD 0 0 = 0x02) (hdst : dst.getD 0 0 = 0x02) :
      CoapAddresses ruleId src dst (natBits 120 (beNat src &&& ((1 <<< 120) - 1)) ++
        natBits 120 (beNat dst &&& ((1 <<< 120) - 1)))

theorem not_isLinkLocal64_of_first (h : src.getD 0 0 = 0x02) : ¬isLinkLocal64 src = true := by
  intro hlocal
  obtain ⟨-, hfixed⟩ := of_decide_eq_true hlocal
  cases src with
  | nil => cases h
  | cons =>
    rw [getD_cons_zero] at h
    rw [take_succ_cons, linkLocalPrefix, h] at hfixed
    exact absurd (List.cons.inj hfixed).1 (by decide)

theorem CoapAddresses.bits_eq (h : CoapAddresses ruleId src dst abits) :
    coapAddressBits src dst = abits := by
  cases h with
  | linkLocal _ hsrc hdst => exact if_pos ⟨hsrc, hdst⟩
  | global _ hsrc => exact if_neg fun hlocal => not_isLinkLocal64_of_first hsrc hlocal.1

/-- The token length of the message is a defined one, and the message is long enough for it. -/
def TokenComplete (coap : Bytes) : Prop :=
  coap.getD 0 0 &&& 0x0F ≤ 8 ∧ 4 + (coap.getD 0 0 &&& 0x0F).toNat ≤ coap.length

theorem coapAddresses_cases :
    (coapAddresses ruleId src dst = none ∧ ∀ abits, ¬CoapAddresses ruleId src dst abits) ∨
      ∃ n addresses abits, coapAddresses ruleId src dst = some (n, addresses) ∧
        CoapAddresses ruleId src dst abits ∧ Writes addresses abits ∧
        n = (abits.length + 53) / 8 := by
  simp only [coapAddresses]
  split_ifs with hlocal haddresses hglobal hfirst
  · exact .inr ⟨_, _, _, rfl, .linkLocal hlocal haddresses.1 haddresses.2, .field (writes_write _ _),
      by simp⟩
  · refine .inl ⟨rfl, ?_⟩
    rintro _ (⟨-, hsrc, hdst⟩ | hrule)
    · exact haddresses ⟨hsrc, hdst⟩
    · rcases hrule with rfl | rfl <;> exact absurd hlocal (by decide)
  · exact .inr ⟨_, _, _, rfl, .global hglobal hfirst.1 hfirst.2, .field (writes_write _ _), by simp⟩
  · refine .inl ⟨rfl, ?_⟩
    rintro _ (⟨hrule⟩ | ⟨-, hsrc, hdst⟩)
    · exact hlocal hrule
    · exact hfirst ⟨hsrc, hdst⟩
  · refine .inl ⟨rfl, ?_⟩
    rintro _ (⟨hrule⟩ | ⟨hrule⟩)
    · exact hlocal hrule
    · exact hglobal hrule

def IsCoapMessage (p : Bytes) : Prop :=
  52 ≤ p.length ∧ p.getD 48 0 >>> 6 = 1 ∧ TokenComplete (p.drop 48) ∧
    u16At p 40 >>> 4 = coapPort >>> 4 ∧ u16At p 42 >>> 4 = coapPort >>> 4

theorem encodes_coap (hversion : p.extract 0 4 = versionWord) : Encodes (compressCoap p ruleId)
      (IsCoapMessage p ∧ ∃ abits, CoapAddresses ruleId (sourceAddress p) (destinationAddress p) abits)
      ruleId (coapBits p) (p.drop 52) := by
  simp only [compressCoap, ensureIpv6, getD_drop, u16At_drop, drop_drop, Nat.add_zero]
  obtain ⟨heq, hnone⟩ | ⟨n, addresses, abits, heq, haddresses, hwrites, hn⟩ :=
    coapAddresses_cases
  · rw [heq]
    have hthrow : Encodes (throw .noMatchingRule) False ruleId (coapBits p) (p.drop 52) :=
      ⟨fun _ _ => rfl, False.elim⟩
    refine (Encodes.check <| .check <| .check <| .check hthrow).of_iff ?_
    simp [hnone]
  · rw [heq]
    refine (Encodes.check <| .check <| .check <| .check <| .check <| encodes_writeResidue ?_ ?_
      rfl).of_iff ?_
    · rw [coapBits, haddresses.bits_eq]
      exact .field <| hwrites.bind <| .field <| .field <| .field <| .field <| .field <| writes_write
        _ _
    · rw [coapBits, haddresses.bits_eq]
      simp only [length_append, length_natBits]
      omega
    · simp only [IsCoapMessage, TokenComplete, getD_drop, getD_of_version hversion, hversion, not_or,
        not_not, not_lt, UInt8.not_lt]
      constructor
      · rintro ⟨⟨hlength, hfirst, htoken, hports⟩, -⟩
        exact ⟨⟨by omega, trivial⟩, hlength, trivial, ⟨hfirst, htoken⟩, hports, trivial⟩
      · rintro ⟨-, hlength, -, ⟨hfirst, htoken⟩, hports, -⟩
        exact ⟨⟨hlength, hfirst, htoken, hports⟩, abits, haddresses⟩

def IsEcho (packet : Bytes) : Prop :=
  (packet.getD 40 0 = 128 ∨ packet.getD 40 0 = 129) ∧ packet.getD 41 0 = 0 ∧ 48 ≤ packet.length

def IsDio (packet : Bytes) : Prop :=
  packet.getD 40 0 = 155 ∧ packet.getD 41 0 = 1 ∧ 68 ≤ packet.length ∧
    packet.getD 50 0 = 0 ∧ packet.getD 51 0 = 0

def IsDao (packet : Bytes) : Prop :=
  packet.getD 40 0 = 155 ∧ packet.getD 41 0 = 2 ∧ 64 ≤ packet.length ∧
    packet.getD 45 0 &&& 0x40 ≠ 0 ∧ packet.getD 46 0 = 0

instance : Decidable (IsEcho packet) := inferInstanceAs (Decidable (_ ∧ _))
instance : Decidable (IsDio packet) := inferInstanceAs (Decidable (_ ∧ _))
instance : Decidable (IsDao packet) := inferInstanceAs (Decidable (_ ∧ _))

def MatchesIcmpv6Rule (packet : Bytes) : Prop :=
  packet.extract 0 4 = versionWord ∧ packet.getD 6 0 = 58 ∧
  isLinkLocal64 (sourceAddress packet) ∧ isLinkLocal64 (destinationAddress packet) ∧
  icmpv6ChecksumValid (sourceAddress packet) (destinationAddress packet) (packet.drop 40) ∧
  (IsEcho packet ∨ IsDio packet ∨ IsDao packet)

instance : Decidable (MatchesIcmpv6Rule packet) := inferInstanceAs (Decidable (_ ∧ _))

/-- The rule, the bits and the tail that are sent for a packet of one of the rules 0 to 7. -/
def encoding (p : Bytes) : UInt8 × List Bool × Bytes :=
  if p.getD 6 0 = 17 then
    if u16At p 40 = portMqttSn ∨ u16At p 42 = portMqttSn then (ruleMqttSn, mqttBits p, p.drop 48)
    else (coapRule p, coapBits p, p.drop 52)
  else if p.getD 40 0 = 155 then
    if p.getD 41 0 = 1 then (ruleRplDio, dioBits p, p.drop 68)
    else (ruleRplDao, daoBits p, p.drop 64)
  else (ruleIcmpv6Echo, echoBits p, p.drop 48)

/-- The packet is written as `encoding` says. -/
def Compresses (rule : Codec Nat) (p : Bytes) : Prop :=
  Encodes rule True (encoding p).1 (encoding p).2.1 (encoding p).2.2

theorem Encodes.compresses (h : Encodes rule True ruleId bs tail)
    (hencoding : encoding p = (ruleId, bs, tail)) : Compresses rule p := by
  rwa [Compresses, hencoding]

theorem MatchesIcmpv6Rule.length_le (h : MatchesIcmpv6Rule packet) : 44 ≤ packet.length := by
  obtain ⟨_, _, _, _, _, h | h | h⟩ := h
  · exact le_trans (by decide) h.2.2
  · exact le_trans (by decide) h.2.2.1
  · exact le_trans (by decide) h.2.2.1

theorem encoding_echo (hnext : p.getD 6 0 = 58) (h : IsEcho p) :
    encoding p = (ruleIcmpv6Echo, echoBits p, p.drop 48) := by
  have htype : p.getD 40 0 ≠ 155 := by
    rcases h.1 with h | h <;> rw [h] <;> decide
  rw [encoding, hnext, if_neg (by decide), if_neg htype]

theorem encoding_dio (hnext : p.getD 6 0 = 58) (h : IsDio p) :
    encoding p = (ruleRplDio, dioBits p, p.drop 68) := by
  rw [encoding, hnext, if_neg (by decide), if_pos h.1, if_pos h.2.1]

theorem encoding_dao (hnext : p.getD 6 0 = 58) (h : IsDao p) :
    encoding p = (ruleRplDao, daoBits p, p.drop 64) := by
  rw [encoding, hnext, if_neg (by decide), if_pos h.1, h.2.1, if_neg (by decide)]

theorem MatchesIcmpv6Rule.compresses (h : MatchesIcmpv6Rule p) :
    Compresses (compressIcmpv6 p) p := by
  obtain ⟨hversion, hnext, hsrc, hdst, hvalid, hecho | hdio | hdao⟩ := h
  · refine Encodes.compresses ?_ (encoding_echo hnext hecho)
    rw [compressIcmpv6, if_neg (not_not.mpr hvalid),
      if_pos ⟨hecho.1, hecho.2.1, hsrc, hdst, hecho.2.2⟩]
    exact (encodes_echo hversion).tryRule hecho.2.2
  · refine Encodes.compresses ?_ (encoding_dio hnext hdio)
    obtain ⟨htype, hcode, hguard⟩ := hdio
    rw [compressIcmpv6, if_neg (not_not.mpr hvalid), htype, hcode, if_neg (by simp),
      if_pos ⟨rfl, hsrc, hdst⟩, if_pos ⟨rfl, hguard.1⟩]
    exact (encodes_dio hversion).tryRule hguard
  · refine Encodes.compresses ?_ (encoding_dao hnext hdao)
    obtain ⟨htype, hcode, hguard⟩ := hdao
    rw [compressIcmpv6, if_neg (not_not.mpr hvalid), htype, hcode, if_neg (by simp),
      if_pos ⟨rfl, hsrc, hdst⟩, if_neg (by simp), if_pos ⟨rfl, hguard.1, hguard.2.1⟩]
    exact (encodes_dao hversion).tryRule hguard

theorem compressIcmpv6_of_not (hversion : p.extract 0 4 = versionWord) (hnext : p.getD 6 0 = 58)
    (h : ¬MatchesIcmpv6Rule p) : compressIcmpv6 p = encodeRule255 p usizeMax := by
  simp only [compressIcmpv6]
  split
  · rfl
  rename_i hvalid
  have hbody := fun hsrc hdst hbody => h ⟨hversion, hnext, hsrc, hdst, not_not.mp hvalid, hbody⟩
  split
  · rename_i hecho
    exact (hbody hecho.2.2.1 hecho.2.2.2.1 (.inl ⟨hecho.1, hecho.2.1, hecho.2.2.2.2⟩)).elim
  split
  · rename_i hrpl
    have hrule := hbody hrpl.2.1 hrpl.2.2
    split
    · rename_i hdio
      exact (encodes_dio hversion).tryRule_of_not fun hg =>
        hrule (.inr (.inl ⟨hrpl.1, hdio.1, hg⟩))
    split
    · rename_i hdao
      exact (encodes_dao hversion).tryRule_of_not fun hg =>
        hrule (.inr (.inr ⟨hrpl.1, hdao.1, hg⟩))
    · rfl
  · rfl

def MatchesUdpRule (p : Bytes) : Prop :=
  p.extract 0 4 = versionWord ∧ p.getD 6 0 = 17 ∧
  ((u16At p 40 = portMqttSn ∨ u16At p 42 = portMqttSn) ∨ IsCoapMessage p ∧
    ∃ abits, CoapAddresses (coapRule p) (sourceAddress p) (destinationAddress p) abits)

theorem IsCoapMessage.isOscore (h : IsCoapMessage p) :
    (decide (p.length ≥ 52) && hasOscoreOption (p.drop 48)) = hasOscoreOption (p.drop 48) := by
  rw [decide_eq_true h.1, Bool.true_and]

theorem encoding_mqttSn (hnext : p.getD 6 0 = 17)
    (hport : u16At p 40 = portMqttSn ∨ u16At p 42 = portMqttSn) :
    encoding p = (ruleMqttSn, mqttBits p, p.drop 48) := by
  rw [encoding, if_pos hnext, if_pos hport]

theorem encoding_coap (hnext : p.getD 6 0 = 17)
    (hport : ¬(u16At p 40 = portMqttSn ∨ u16At p 42 = portMqttSn)) :
    encoding p = (coapRule p, coapBits p, p.drop 52) := by
  rw [encoding, if_pos hnext, if_neg hport]

theorem MatchesUdpRule.compresses (h : MatchesUdpRule p) (hmatch : UdpMatch p)
    (hpolicy : validateAddressPolicy (sourceAddress p) (destinationAddress p) = .ok ()) :
    Compresses (compressUdp p) p := by
  obtain ⟨hversion, hnext, h⟩ := h
  by_cases hport : u16At p 40 = portMqttSn ∨ u16At p 42 = portMqttSn
  · simp only [compressUdp, if_pos hport]
    exact ((encodes_mqttSn hmatch hpolicy).tryRule hport).compresses (encoding_mqttSn hnext hport)
  · have hcoap := h.resolve_left hport
    refine Encodes.compresses ?_ (encoding_coap hnext hport)
    simp only [compressUdp, if_neg hport, hcoap.1.isOscore]
    split
    · rename_i hlocal
      rw [← (if_pos hlocal : coapRule p = _)]
      exact (encodes_coap hversion).tryRule hcoap
    · rename_i hlocal
      rw [← (if_neg hlocal : coapRule p = _)]
      exact (encodes_coap hversion).tryRule hcoap

theorem compressUdp_of_not (hmatch : UdpMatch p) (h : ¬MatchesUdpRule p) :
    compressUdp p = encodeRule255 p usizeMax := by
  have hcoap := fun hrule => h ⟨hmatch.version, hmatch.nextHeader, hrule⟩
  simp only [compressUdp, if_neg fun hport => hcoap (.inl hport)]
  split
  · rename_i hlocal
    have hmessage : ¬IsCoapMessage p := by
      refine fun hmessage => hcoap (.inr ⟨hmessage, _, .linkLocal ?_ hlocal.1 hlocal.2⟩)
      rw [coapRule, if_pos hlocal]
      split <;> simp
    rw [(encodes_coap hmatch.version).tryRule_of_not fun hg => hmessage hg.1,
      (encodes_coap hmatch.version).tryRule_of_not fun hg => hmessage hg.1]
  · rename_i hlocal
    refine (encodes_coap hmatch.version).tryRule_of_not fun hg => hcoap (.inr ⟨hg.1, ?_⟩)
    rw [coapRule, if_neg hlocal, ← hg.1.isOscore]
    exact hg.2

def MatchesRule (p : Bytes) : Prop := MatchesIcmpv6Rule p ∨ MatchesUdpRule p

theorem compress_cases (hlimit : p.length ≤ maxPacketSize) (hvalid : validateFullIpv6 p = .ok ()) :
    (MatchesRule p ∧ Compresses (compress p) p) ∨
      (¬MatchesRule p ∧ compress p = encodeRule255 p usizeMax) := by
  obtain ⟨hstructure, hpolicy⟩ := validateFullIpv6_ok hvalid
  have hfields := validateFullIpv6Structure_ok hstructure
  rw [compress, check_bind_of_not (Nat.not_lt.mpr hlimit), hvalid]
  simp only [ofExcept, pure_bind]
  split
  · exact .inr ⟨fun h => by rcases h with h | h <;> exact ‹¬_› h.1, rfl⟩
  rename_i hversion
  rw [not_not] at hversion
  split
  · rename_i hudp
    have hmatch : UdpMatch p := ⟨hfields, hversion, hlimit, hudp.1⟩
    by_cases h : MatchesUdpRule p
    · exact .inl ⟨.inr h, h.compresses hmatch hpolicy⟩
    · refine .inr ⟨?_, compressUdp_of_not hmatch h⟩
      rintro (⟨-, hnext, -⟩ | h')
      · rw [hudp.1] at hnext
        exact absurd hnext (by decide)
      · exact h h'
  rename_i hudp
  have hnotUdp : ¬MatchesUdpRule p := fun h =>
    hudp ⟨h.2.1, UdpMatch.length_le ⟨hfields, hversion, hlimit, h.2.1⟩⟩
  split
  · rename_i hicmp
    by_cases h : MatchesIcmpv6Rule p
    · exact .inl ⟨.inl h, h.compresses⟩
    · exact .inr ⟨not_or.mpr ⟨h, hnotUdp⟩, compressIcmpv6_of_not hversion hicmp.1 h⟩
  · rename_i hicmp
    exact .inr ⟨not_or.mpr ⟨fun h => hicmp ⟨h.2.1, h.length_le⟩, hnotUdp⟩, rfl⟩

end Lichen.Schc
