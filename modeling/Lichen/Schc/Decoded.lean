import Lichen.Schc.Matching

namespace Lichen.Schc

open Lichen.Lib BitReader MqttFields List

variable {room src dst tail : Bytes} {ruleId nextHeader hopLimit : UInt8}

section Reading

theorem consumes_readU8 : Consumes readU8 fun byte bs => bs = natBits 8 byte.toNat := by
  refine consumes_read.bind fun v bs h => ?_
  obtain ⟨hlt, rfl⟩ := h
  apply consumes_pure
  rw [append_nil, UInt8.toNat_ofNat', Nat.mod_eq_of_lt hlt]

structure EchoFields.Read (f : EchoFields) (bs : List Bool) : Prop where
  src_lt : f.srcIid < 2 ^ 64
  dst_lt : f.dstIid < 2 ^ 64
  id_lt : f.icmpId < 2 ^ 16
  seq_lt : f.icmpSeq < 2 ^ 16
  isEcho : f.icmpType = 128 ∨ f.icmpType = 129
  bits_eq : bs = natBits 8 f.hopLimit.toNat ++ (natBits 64 f.srcIid ++ (natBits 64 f.dstIid ++
    (natBits 8 f.icmpType.toNat ++ (natBits 16 f.icmpId ++ natBits 16 f.icmpSeq))))

theorem consumes_readIcmpv6Echo : Consumes readIcmpv6Echo EchoFields.Read := by
  refine consumes_readU8.bind fun hopLimit _ hhop => ?_
  refine consumes_read.bind fun srcIid _ hsrc => ?_
  refine consumes_read.bind fun dstIid _ hdst => ?_
  refine consumes_readU8.bind fun icmpType _ htype => ?_
  refine consumes_read.bind fun icmpId _ hid => ?_
  refine consumes_read.bind fun icmpSeq _ hseq => ?_
  refine consumes_check.bind fun _ _ hcheck => consumes_pure ?_
  have htypes := not_and_or.mp hcheck.1
  rw [not_not, not_not] at htypes
  refine ⟨hsrc.1, hdst.1, hid.1, hseq.1, htypes, ?_⟩
  rw [hhop, hsrc.2, hdst.2, htype, hid.2, hseq.2, hcheck.2, append_nil, append_nil]

structure DioFields.Read (f : DioFields) (bs : List Bool) : Prop where
  src_lt : f.srcIid < 2 ^ 64
  dst_lt : f.dstIid < 2 ^ 64
  rank_lt : f.rank < 2 ^ 16
  dodagid_lt : f.dodagid < 2 ^ 128
  bits_eq : bs = natBits 8 f.hopLimit.toNat ++ (natBits 64 f.srcIid ++ (natBits 64 f.dstIid ++
    (natBits 8 f.instanceId.toNat ++ (natBits 8 f.version.toNat ++ (natBits 16 f.rank ++
    (natBits 8 f.gmop.toNat ++ (natBits 8 f.dtsn.toNat ++ natBits 128 f.dodagid)))))))

theorem consumes_readRplDio : Consumes readRplDio DioFields.Read := by
  refine consumes_readU8.bind fun hopLimit _ hhop => ?_
  refine consumes_read.bind fun srcIid _ hsrc => ?_
  refine consumes_read.bind fun dstIid _ hdst => ?_
  refine consumes_readU8.bind fun instanceId _ hinstance => ?_
  refine consumes_readU8.bind fun version _ hversion => ?_
  refine consumes_read.bind fun rank _ hrank => ?_
  refine consumes_readU8.bind fun gmop _ hgmop => ?_
  refine consumes_readU8.bind fun dtsn _ hdtsn => ?_
  refine consumes_read.bind fun dodagid _ hdodagid => consumes_pure ?_
  refine ⟨hsrc.1, hdst.1, hrank.1, hdodagid.1, ?_⟩
  rw [hhop, hsrc.2, hdst.2, hinstance, hversion, hrank.2, hgmop, hdtsn, hdodagid.2, append_nil]

structure DaoFields.Read (f : DaoFields) (bs : List Bool) : Prop where
  src_lt : f.srcIid < 2 ^ 64
  dst_lt : f.dstIid < 2 ^ 64
  dodagid_lt : f.dodagid < 2 ^ 128
  flags : f.kdFlags &&& 0x40 ≠ 0
  bits_eq : bs = natBits 8 f.hopLimit.toNat ++ (natBits 64 f.srcIid ++ (natBits 64 f.dstIid ++
    (natBits 8 f.instanceId.toNat ++ (natBits 8 f.kdFlags.toNat ++ (natBits 8 f.seq.toNat ++
    natBits 128 f.dodagid)))))

theorem consumes_readRplDao : Consumes readRplDao DaoFields.Read := by
  refine consumes_readU8.bind fun hopLimit _ hhop => ?_
  refine consumes_read.bind fun srcIid _ hsrc => ?_
  refine consumes_read.bind fun dstIid _ hdst => ?_
  refine consumes_readU8.bind fun instanceId _ hinstance => ?_
  refine consumes_readU8.bind fun kdFlags _ hflags => ?_
  refine consumes_readU8.bind fun seq _ hseq => ?_
  refine consumes_read.bind fun dodagid _ hdodagid => ?_
  refine consumes_check.bind fun _ _ hcheck => consumes_pure ?_
  refine ⟨hsrc.1, hdst.1, hdodagid.1, hcheck.1, ?_⟩
  rw [hhop, hsrc.2, hdst.2, hinstance, hflags, hseq, hdodagid.2, hcheck.2, append_nil,
    append_nil]

theorem linkLocalAddress_eq (h : v < 2 ^ 64) :
    linkLocalAddress v = linkLocalPrefix ++ beBytes 8 v := by
  have hupper : beBytes 8 0xFE80000000000000 = linkLocalPrefix := by decide
  rw [linkLocalAddress, linkLocalInt, beBytes_shiftLeft_or 8 8 _ h, hupper]

theorem isLinkLocal64_linkLocalAddress (h : v < 2 ^ 64) :
    isLinkLocal64 (linkLocalAddress v) = true := by
  refine decide_eq_true ⟨length_beBytes _ _, ?_⟩
  rw [linkLocalAddress_eq h]
  rfl

theorem iid_linkLocalAddress (h : v < 2 ^ 64) : iid (linkLocalAddress v) = v := by
  rw [iid, linkLocalAddress_eq h]
  exact beNat_beBytes_of_lt (n := 8) h

theorem globalAddress_eq (h : v < 2 ^ 120) :
    beBytes 16 ((0x02 <<< 120) ||| v) = 0x02 :: beBytes 15 v := by
  have hlt : v < 256 ^ 15 := by
    rw [show (256 : Nat) = 2 ^ 8 from rfl, ← Nat.pow_mul]
    exact h
  rw [show (16 : Nat) = 1 + 15 from rfl, show (120 : Nat) = 8 * 15 from rfl,
    beBytes_shiftLeft_or 1 15 0x02 hlt, show beBytes 1 0x02 = [0x02] from rfl, singleton_append]

theorem lsb_globalAddress (h : v < 2 ^ 120) :
    beNat (beBytes 16 ((0x02 <<< 120) ||| v)) &&& ((1 <<< 120) - 1) = v := by
  have hvalue : beNat (beBytes 16 ((0x02 <<< 120) ||| v)) = 2 * 2 ^ 120 + v := by
    have hpow : (256 : Nat) ^ 15 = 2 ^ 120 := by decide
    rw [globalAddress_eq h, ← singleton_append, beNat_append, length_beBytes,
      beNat_beBytes_of_lt (n := 15) h, hpow, show beNat [0x02] = 2 from rfl]
  rw [hvalue, Nat.one_shiftLeft, Nat.and_two_pow_sub_one_eq_mod]
  omega

def IsCoap (ruleId : UInt8) : Prop :=
  ruleId = ruleLinkLocalCoap ∨ ruleId = ruleGlobalCoap ∨ ruleId = ruleLinkLocalOscore ∨
    ruleId = ruleGlobalOscore

theorem consumes_readCoapAddresses (h : IsCoap ruleId) :
    Consumes (readCoapAddresses ruleId) fun ints bs =>
      CoapAddresses ruleId (beBytes 16 ints.1) (beBytes 16 ints.2) bs := by
  rw [readCoapAddresses]
  split
  · rename_i hrule
    refine consumes_read.bind fun src _ hsrc => consumes_read.bind fun dst _ hdst => ?_
    have haddresses := CoapAddresses.linkLocal hrule (isLinkLocal64_linkLocalAddress hsrc.1)
      (isLinkLocal64_linkLocalAddress hdst.1)
    rw [iid_linkLocalAddress hsrc.1, iid_linkLocalAddress hdst.1] at haddresses
    apply consumes_pure
    rw [hsrc.2, hdst.2, append_nil]
    exact haddresses
  · rename_i hlocal
    have hrule : ruleId = ruleGlobalCoap ∨ ruleId = ruleGlobalOscore := by
      obtain h | h | h | h := h
      · exact (hlocal (.inl h)).elim
      · exact .inl h
      · exact (hlocal (.inr h)).elim
      · exact .inr h
    rw [if_pos hrule]
    refine consumes_read.bind fun src _ hsrc => consumes_read.bind fun dst _ hdst => ?_
    have hfirst : ∀ v < 2 ^ 120, (beBytes 16 ((0x02 <<< 120) ||| v)).getD 0 0 = 0x02 := by
      intro v hv
      rw [globalAddress_eq hv]
      rfl
    have haddresses := CoapAddresses.global hrule (hfirst src hsrc.1) (hfirst dst hdst.1)
    rw [lsb_globalAddress hsrc.1, lsb_globalAddress hdst.1] at haddresses
    apply consumes_pure
    rw [hsrc.2, hdst.2, append_nil]
    exact haddresses

structure IsCoapPort (port : Nat) : Prop where
  upper : port >>> 4 = coapPort >>> 4
  lt : port < 2 ^ 16

theorem coapPort_or (h : v < 2 ^ 4) :
    IsCoapPort ((coapPort &&& 0xFFF0) ||| v) ∧ ((coapPort &&& 0xFFF0) ||| v) &&& 0xF = v := by
  have hall : ∀ v < 2 ^ 4, (((coapPort &&& 0xFFF0) ||| v) >>> 4 = coapPort >>> 4 ∧
      ((coapPort &&& 0xFFF0) ||| v) < 2 ^ 16) ∧ ((coapPort &&& 0xFFF0) ||| v) &&& 0xF = v := by
    decide
  obtain ⟨⟨hupper, hlt⟩, hlow⟩ := hall v h
  exact ⟨⟨hupper, hlt⟩, hlow⟩

structure CoapFields.Read (ruleId : UInt8) (f : CoapFields) (bs : List Bool) : Prop where
  srcPort : IsCoapPort f.srcPort
  dstPort : IsCoapPort f.dstPort
  type_lt : f.coapType.toNat < 2 ^ 2
  tkl_lt : f.coapTkl.toNat < 2 ^ 4
  mid_lt : f.coapMid < 2 ^ 16
  addresses : ∃ abits, CoapAddresses ruleId (beBytes 16 f.addresses.1) (beBytes 16 f.addresses.2)
      abits ∧
    bs = natBits 8 f.hopLimit.toNat ++ (abits ++ (natBits 4 (f.srcPort &&& 0xF) ++
      (natBits 4 (f.dstPort &&& 0xF) ++ (natBits 2 f.coapType.toNat ++ (natBits 4 f.coapTkl.toNat ++
      (natBits 8 f.coapCode.toNat ++ natBits 16 f.coapMid))))))

theorem toNat_ofNat_of_lt (h : v < 2 ^ n) (hn : n ≤ 8) : (UInt8.ofNat v).toNat = v := by
  have hle : 2 ^ n ≤ 2 ^ 8 := Nat.pow_le_pow_right (by decide) hn
  rw [UInt8.toNat_ofNat', Nat.mod_eq_of_lt (by omega)]

theorem consumes_readCoap (h : IsCoap ruleId) :
    Consumes (readCoap ruleId) (CoapFields.Read ruleId) := by
  refine consumes_readU8.bind fun hopLimit _ hhop => ?_
  refine (consumes_readCoapAddresses h).bind fun ints abits haddresses => ?_
  refine consumes_read.bind fun srcPort _ hsrc => ?_
  refine consumes_read.bind fun dstPort _ hdst => ?_
  refine consumes_read.bind fun coapType _ htype => ?_
  refine consumes_read.bind fun coapTkl _ htkl => ?_
  refine consumes_readU8.bind fun coapCode _ hcode => ?_
  refine consumes_read.bind fun coapMid _ hmid => consumes_pure ?_
  have htypeNat := toNat_ofNat_of_lt htype.1 (by decide)
  have htklNat := toNat_ofNat_of_lt htkl.1 (by decide)
  refine ⟨(coapPort_or hsrc.1).1, (coapPort_or hdst.1).1, by rw [htypeNat]; exact htype.1,
    by rw [htklNat]; exact htkl.1, hmid.1, abits, haddresses, ?_⟩
  simp only [(coapPort_or hsrc.1).2, (coapPort_or hdst.1).2, htypeNat, htklNat]
  rw [hhop, hsrc.2, hdst.2, htype.2, htkl.2, hcode, hmid.2, append_nil]

/-- The addresses of Rule 7 and their bits, with the bit for the mode. -/
inductive MqttAddresses (src dst : Bytes) : List Bool → Prop
  | linkLocal (hsrc : isLinkLocal64 src) (hdst : isLinkLocal64 dst) :
      MqttAddresses src dst (natBits 1 0 ++ (natBits 64 (iid src) ++ natBits 64 (iid dst)))
  | full (hsrc : src.length = 16) (hdst : dst.length = 16)
      (h : ¬(isLinkLocal64 src ∧ isLinkLocal64 dst)) :
      MqttAddresses src dst (natBits 1 1 ++ (natBits 128 (beNat src) ++ natBits 128 (beNat dst)))

theorem MqttAddresses.length (h : MqttAddresses src dst abits) :
    src.length = 16 ∧ dst.length = 16 := by
  cases h with
  | linkLocal hsrc hdst => exact ⟨(of_decide_eq_true hsrc).1, (of_decide_eq_true hdst).1⟩
  | full hsrc hdst => exact ⟨hsrc, hdst⟩

structure MqttFields.Read (f : MqttFields) (bs : List Bool) : Prop where
  policy : validateAddressPolicy f.addresses.1 f.addresses.2 = .ok ()
  direction_lt : f.direction < 2 ^ 1
  otherPort_lt : f.otherPort < 2 ^ 16
  canonical : ¬(f.direction = 1 ∧ f.otherPort = portMqttSn)
  addresses : ∃ abits, MqttAddresses f.addresses.1 f.addresses.2 abits ∧
    bs = natBits 8 f.hopLimit.toNat ++ (abits ++ (natBits 1 f.direction ++ natBits 16 f.otherPort))

theorem consumes_readMqttAddresses (h : mode < 2 ^ 1) :
    Consumes (readMqttAddresses mode) fun addresses bs =>
      ¬(mode = 1 ∧ isLinkLocal64 addresses.1 ∧ isLinkLocal64 addresses.2) →
        MqttAddresses addresses.1 addresses.2 (natBits 1 mode ++ bs) := by
  obtain rfl | rfl : mode = 0 ∨ mode = 1 := by omega
  · refine consumes_read.bind fun src _ hsrc => consumes_read.bind fun dst _ hdst => ?_
    have haddresses := MqttAddresses.linkLocal (isLinkLocal64_linkLocalAddress hsrc.1)
      (isLinkLocal64_linkLocalAddress hdst.1)
    rw [iid_linkLocalAddress hsrc.1, iid_linkLocalAddress hdst.1] at haddresses
    refine consumes_pure fun _ => ?_
    rw [hsrc.2, hdst.2, append_nil]
    exact haddresses
  · refine consumes_read.bind fun src _ hsrc => consumes_read.bind fun dst _ hdst => ?_
    refine consumes_pure fun hfull => ?_
    have haddresses := MqttAddresses.full (length_beBytes 16 src) (length_beBytes 16 dst)
      fun hboth => hfull ⟨rfl, hboth⟩
    rw [beNat_beBytes_of_lt (n := 16) hsrc.1, beNat_beBytes_of_lt (n := 16) hdst.1] at haddresses
    rw [hsrc.2, hdst.2, append_nil]
    exact haddresses

theorem consumes_readMqttSn : Consumes readMqttSn MqttFields.Read := by
  refine consumes_readU8.bind fun hopLimit _ hhop => ?_
  refine consumes_read.bind fun mode _ hmode => ?_
  refine (consumes_readMqttAddresses hmode.1).bind fun addresses abits haddresses => ?_
  refine consumes_ofExcept.bind fun _ _ hpolicy => ?_
  refine consumes_check.bind fun _ _ hfull => ?_
  refine consumes_read.bind fun direction _ hdirection => ?_
  refine consumes_read.bind fun otherPort _ hother => ?_
  refine consumes_check.bind fun _ _ hcanonical => consumes_pure ?_
  refine ⟨hpolicy.1, hdirection.1, hother.1, hcanonical.1, _, haddresses hfull.1, ?_⟩
  rw [hhop, hmode.2, hpolicy.2, hfull.2, hdirection.2, hother.2, hcanonical.2, append_nil,
    append_nil, nil_append, nil_append, append_assoc]

end Reading

theorem length_ipv6Header (hsrc : src.length = 16) (hdst : dst.length = 16)
    (payloadLen : Nat) (nextHeader hopLimit : UInt8) :
    (ipv6Header payloadLen nextHeader hopLimit src dst).length = 40 := by
  simp [ipv6Header, versionWord, hsrc, hdst]

theorem length_udpHeader (srcPort dstPort udpLen checksum : Nat) :
    (udpHeader srcPort dstPort udpLen checksum).length = 8 := by
  simp [udpHeader]

theorem length_linkLocalAddress (iid : Nat) : (linkLocalAddress iid).length = 16 :=
  length_beBytes _ _

theorem holding_header (hsrc : src.length = 16) (hdst : dst.length = 16) (hroom : 40 ≤ room.length)
    (hrest : ∀ out, Holding out (ipv6Header payloadLen nextHeader hopLimit src dst) room.length →
      Returns q out s) :
    Returns (store 0 (ipv6Header payloadLen nextHeader hopLimit src dst) >>= fun _ => q) room s :=
  holding_nil.store rfl (by rw [length_ipv6Header hsrc hdst]; omega) hrest

theorem returns_iff_of_stores (hstores : n ≤ room.length → Returns q room packet)
    (hlength : packet.length = n) :
    n ≤ room.length ∧ Returns q room p ↔ p.length ≤ room.length ∧ p = packet := by
  subst hlength
  constructor
  · rintro ⟨hroom, h⟩
    cases h.unique (hstores hroom)
    exact ⟨hroom, rfl⟩
  · rintro ⟨hroom, rfl⟩
    exact ⟨hroom, hstores hroom⟩

/-- A plaintext rule is refused for an OSCORE message, and the other way round. -/
def AcceptsCoap (ruleId : UInt8) (hasOscore : Bool) : Prop :=
  ¬((ruleId = ruleLinkLocalOscore ∨ ruleId = ruleGlobalOscore) ∧ ¬hasOscore) ∧
    ¬((ruleId = ruleLinkLocalCoap ∨ ruleId = ruleGlobalCoap) ∧ hasOscore)

section

variable (f : CoapFields)

def CoapFields.packet (tail : Bytes) (checksum : Nat) : Bytes :=
  ipv6Header (8 + (4 + tail.length)) 17 f.hopLimit (beBytes 16 f.addresses.1)
      (beBytes 16 f.addresses.2) ++
    (udpHeader f.srcPort f.dstPort (8 + (4 + tail.length)) checksum ++ (f.head ++ tail))

theorem CoapFields.length_head : f.head.length = 4 := by simp [CoapFields.head]

theorem CoapFields.length_packet (tail : Bytes) (checksum : Nat) :
    (f.packet tail checksum).length = 40 + 8 + (4 + tail.length) := by
  rw [CoapFields.packet, length_append, length_append, length_append,
    length_ipv6Header (length_beBytes _ _) (length_beBytes _ _), length_udpHeader, f.length_head]
  omega

end

theorem returns_decompressCoap : Returns (decompressCoap s ruleId) room p ↔ ∃ f tail checksum,
      readResidue genericPadding (readCoap ruleId) s = .ok (f, tail) ∧
      AcceptsCoap ruleId (hasOscoreOptionParts f.head tail) ∧
      udpChecksumParts (beBytes 16 f.addresses.1) (beBytes 16 f.addresses.2) f.srcPort f.dstPort
        [f.head, tail] = .ok checksum ∧
      8 + (4 + tail.length) ≤ 0xFFFF ∧ p.length ≤ room.length ∧ p = f.packet tail checksum := by
  have hmove : ∀ {L R O P C Q : Prop},
      L ∧ R ∧ O ∧ P ∧ C ∧ Q ↔ (O ∧ P) ∧ C ∧ L ∧ R ∧ Q := by tauto
  rw [decompressCoap, returns_ofExcept, Prod.exists]
  refine exists_congr fun f => exists_congr fun tail => ?_
  simp only [returns_check, returns_checkRoom, returns_ofExcept, ← exists_and_left, not_lt]
  refine exists_congr fun checksum => and_congr_right fun _ => hmove.trans ?_
  refine and_congr_right fun _ => and_congr_right fun _ => and_congr_right fun _ => ?_
  refine returns_iff_of_stores (fun hroom => ?_) (f.length_packet tail checksum)
  have hheader := length_ipv6Header (length_beBytes 16 f.addresses.1)
    (length_beBytes 16 f.addresses.2) (8 + (4 + tail.length)) 17 f.hopLimit
  have hhead := f.length_head
  refine holding_header (length_beBytes _ _) (length_beBytes _ _) (by omega) fun out₁ h₁ => ?_
  refine h₁.store hheader (by rw [length_udpHeader]; omega) fun out₂ h₂ => ?_
  refine h₂.store (by rw [length_append, hheader, length_udpHeader]) (by omega)
    fun out₃ h₃ => ?_
  refine h₃.last ?_ (by omega) (by omega) ?_
  · rw [length_append, length_append, hheader, length_udpHeader, hhead]
  · rw [CoapFields.packet, append_assoc, append_assoc]

/-- An ICMPv6 packet between link-local addresses, with the checksum that is computed for it. -/
def icmpv6Packet (hopLimit icmpType code : UInt8) (src dst body : Bytes) : Bytes :=
  ipv6Header ((4 + body.length) % 2 ^ 16) 58 hopLimit src dst ++ ([icmpType, code] ++
    (beBytes 2 (icmpv6ChecksumParts src dst [icmpType :: code :: 0 :: 0 :: body]) ++ body))

theorem length_icmpv6Packet (hsrc : src.length = 16) (hdst : dst.length = 16)
    (hopLimit icmpType code : UInt8) (body : Bytes) :
    (icmpv6Packet hopLimit icmpType code src dst body).length = 44 + body.length := by
  simp only [icmpv6Packet, length_append, length_ipv6Header hsrc hdst, length_beBytes,
    length_cons, length_nil]
  omega

theorem icmpv6ChecksumParts_flatten (src dst : Bytes) (parts : List Bytes) :
    icmpv6ChecksumParts src dst parts = icmpv6ChecksumParts src dst [parts.flatten] := by
  simp only [icmpv6ChecksumParts, checksumBytesParts_eq, length_flatten, map_cons,
    map_nil, sum_singleton, flatten_singleton]

section

variable (f : EchoFields)

def EchoFields.body (tail : Bytes) : Bytes :=
  beBytes 2 f.icmpId ++ (beBytes 2 f.icmpSeq ++ tail)

def EchoFields.packet (tail : Bytes) : Bytes :=
  icmpv6Packet f.hopLimit f.icmpType 0 (linkLocalAddress f.srcIid) (linkLocalAddress f.dstIid)
    (f.body tail)

theorem EchoFields.length_body (tail : Bytes) : (f.body tail).length = 4 + tail.length := by
  simp only [EchoFields.body, length_append, length_beBytes]
  omega

end

theorem returns_decompressIcmpv6Echo : Returns (decompressIcmpv6Echo s) room p ↔ ∃ f tail,
      readResidue genericPadding readIcmpv6Echo s = .ok (f, tail) ∧
      p.length ≤ room.length ∧ p = f.packet tail := by
  rw [decompressIcmpv6Echo, returns_ofExcept, Prod.exists]
  refine exists_congr fun f => exists_congr fun tail => and_congr_right fun _ => ?_
  rw [returns_checkRoom]
  refine returns_iff_of_stores (fun hroom => ?_) ?_
  · have hheader := length_ipv6Header (length_linkLocalAddress f.srcIid)
      (length_linkLocalAddress f.dstIid) ((8 + tail.length) % 2 ^ 16) 58 f.hopLimit
    refine holding_header (length_linkLocalAddress _) (length_linkLocalAddress _) (by omega)
      fun out₁ h₁ => ?_
    refine h₁.store hheader (by simp; omega) fun out₂ h₂ => ?_
    refine h₂.last (by rw [length_append, hheader]; simp) (by omega) (by omega) ?_
    rw [icmpv6ChecksumParts_flatten, EchoFields.packet, icmpv6Packet, f.length_body,
      show 4 + (4 + tail.length) = 8 + tail.length by omega]
    simp [EchoFields.body]
  · rw [EchoFields.packet, length_icmpv6Packet (length_linkLocalAddress _)
      (length_linkLocalAddress _), f.length_body]
    omega

theorem returns_storeRpl (hsrc : src.length = 16) (hdst : dst.length = 16) :
    Returns (storeRpl hopLimit src dst ([icmpType, code, 0, 0] ++ base) tail) room p ↔
      p.length ≤ room.length ∧ p = icmpv6Packet hopLimit icmpType code src dst (base ++ tail) := by
  have hlength : ([icmpType, code, 0, 0] ++ base).length + tail.length =
      4 + (base ++ tail).length := by
    simp only [length_append, length_cons, length_nil]
    omega
  have hheader := length_ipv6Header hsrc hdst ((4 + (base ++ tail).length) % 2 ^ 16) 58 hopLimit
  have hpacket := length_icmpv6Packet hsrc hdst hopLimit icmpType code (base ++ tail)
  simp only [storeRpl, hlength, returns_checkRoom]
  refine returns_iff_of_stores (fun hroom => ?_) (by rw [hpacket]; omega)
  refine holding_header hsrc hdst (by omega) fun out₁ h₁ => ?_
  refine h₁.store hheader (by omega) fun out₂ h₂ => ?_
  refine h₂.store (by rw [length_append, hheader]) (by omega) fun out₃ h₃ => ?_
  -- the checksum replaces the zeros behind type and code
  have hsplit : ∀ header : Bytes, header ++ ([icmpType, code, 0, 0] ++ base) ++ tail =
      (header ++ [icmpType, code]) ++ ([0, 0] ++ (base ++ tail)) := by
    intro header
    simp
  rw [hsplit] at h₃
  refine h₃.replace (by rw [length_append, hheader]; rfl) (length_beBytes 2 _)
    fun out₄ h₄ => ?_
  have hparts : List.flatten [[icmpType, code, 0, 0] ++ base, tail] =
      icmpType :: code :: 0 :: 0 :: (base ++ tail) := by
    simp
  rw [icmpv6ChecksumParts_flatten, hparts, append_assoc] at h₄
  exact h₄.pure (by rw [← icmpv6Packet, hpacket]; omega)

def DioFields.base (f : DioFields) : Bytes :=
  [f.instanceId, f.version] ++ (beBytes 2 f.rank ++ ([f.gmop, f.dtsn, 0, 0] ++
    beBytes 16 f.dodagid))

def DioFields.packet (f : DioFields) (tail : Bytes) : Bytes :=
  icmpv6Packet f.hopLimit 155 1 (linkLocalAddress f.srcIid) (linkLocalAddress f.dstIid)
    (f.base ++ tail)

theorem returns_decompressRplDio : Returns (decompressRplDio s) room p ↔ ∃ f tail,
      readResidue genericPadding readRplDio s = .ok (f, tail) ∧
      p.length ≤ room.length ∧ p = f.packet tail := by
  rw [decompressRplDio, returns_ofExcept, Prod.exists]
  exact exists_congr fun f => exists_congr fun tail => and_congr_right fun _ =>
    returns_storeRpl (length_linkLocalAddress _) (length_linkLocalAddress _)

def DaoFields.base (f : DaoFields) : Bytes :=
  [f.instanceId, f.kdFlags, 0, f.seq] ++ beBytes 16 f.dodagid

def DaoFields.packet (f : DaoFields) (tail : Bytes) : Bytes :=
  icmpv6Packet f.hopLimit 155 2 (linkLocalAddress f.srcIid) (linkLocalAddress f.dstIid)
    (f.base ++ tail)

theorem returns_decompressRplDao : Returns (decompressRplDao s) room p ↔ ∃ f tail,
      readResidue genericPadding readRplDao s = .ok (f, tail) ∧
      p.length ≤ room.length ∧ p = f.packet tail := by
  rw [decompressRplDao, returns_ofExcept, Prod.exists]
  exact exists_congr fun f => exists_congr fun tail => and_congr_right fun _ =>
    returns_storeRpl (length_linkLocalAddress _) (length_linkLocalAddress _)

section

variable (f : MqttFields)

def MqttFields.srcPort : Nat := if f.direction = 0 then portMqttSn else f.otherPort

def MqttFields.dstPort : Nat := if f.direction = 0 then f.otherPort else portMqttSn

def MqttFields.packet (tail : Bytes) (checksum : Nat) : Bytes :=
  ipv6Header (8 + tail.length) 17 f.hopLimit f.addresses.1 f.addresses.2 ++
    (udpHeader f.srcPort f.dstPort (8 + tail.length) checksum ++ tail)

end

theorem MqttFields.length_packet {f : MqttFields} (hsrc : f.addresses.1.length = 16)
    (hdst : f.addresses.2.length = 16) (tail : Bytes) (checksum : Nat) :
    (f.packet tail checksum).length = 40 + 8 + tail.length := by
  rw [packet, length_append, length_append, length_ipv6Header hsrc hdst, length_udpHeader]
  omega

theorem read_of_readResidue (hfields : Consumes fields E)
    (h : readResidue reason fields s = .ok (a, tail)) (hs : s ≠ []) : ∃ bs, E a bs := by
  cases s with
  | nil => exact absurd rfl hs
  | cons =>
    obtain ⟨bs, _, hE, -⟩ := readResidue_ok hfields h
    exact ⟨bs, hE⟩

theorem returns_decompressMqttSn :
    Returns (decompressMqttSn s ruleMqttSn) room p ↔ s.head? = some ruleMqttSn ∧ ∃ f tail checksum,
        readResidue "nonzero Rule 7 residue padding" readMqttSn s = .ok (f, tail) ∧
        udpChecksum f.addresses.1 f.addresses.2 f.srcPort f.dstPort tail = .ok checksum ∧
        8 + tail.length ≤ 0xFFFF ∧ p.length ≤ room.length ∧ p = f.packet tail checksum := by
  rw [decompressMqttSn, returns_check, returns_ofExcept, not_not, Prod.exists]
  refine and_congr_right fun hhead => exists_congr fun f => exists_congr fun tail => ?_
  simp only [returns_check, returns_checkRoom, returns_ofExcept, ← exists_and_left, not_lt]
  refine exists_congr fun checksum => and_congr_right fun hread => and_left_comm.trans ?_
  have hs : s ≠ [] := by
    rintro rfl
    cases hhead
  obtain ⟨_, hfields⟩ := read_of_readResidue consumes_readMqttSn hread hs
  obtain ⟨_, haddresses, -⟩ := hfields.addresses
  obtain ⟨hsrc, hdst⟩ := haddresses.length
  have hheader := length_ipv6Header hsrc hdst (8 + tail.length) 17 f.hopLimit
  refine and_congr_right fun _ => and_congr_right fun _ => ?_
  refine returns_iff_of_stores (fun hroom => ?_) (length_packet hsrc hdst tail checksum)
  refine holding_header hsrc hdst (by omega) fun out₁ h₁ => ?_
  refine h₁.store hheader (by rw [length_udpHeader]; omega) fun out₂ h₂ => ?_
  refine h₂.last ?_ (by omega) (by omega) ?_
  · rw [length_append, hheader, length_udpHeader]
  · rw [packet, append_assoc]
    rfl

theorem returns_decodeRule255 (h : Returns (decodeRule255 s usizeMax) room p) :
    s = ruleUncompressed :: p ∧ validateFullIpv6Structure p = .ok () := by
  rw [decodeRule255, returns_check, returns_check, returns_ofExcept, not_not] at h
  obtain ⟨hhead, -, ⟨⟩, hvalid, h⟩ := h
  rw [returns_checkRoom] at h
  obtain ⟨hroom, h⟩ := h
  have hp := h.unique (holding_nil.last rfl (by simp) hroom rfl)
  rw [nil_append] at hp
  cases s with
  | nil => cases hhead
  | cons =>
    cases hhead
    subst hp
    exact ⟨rfl, hvalid⟩

end Lichen.Schc
