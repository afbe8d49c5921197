import Lichen.Schc.WellFormed

namespace Lichen.Schc

open Lichen.Lib BitWriter List

variable {p s out room src tail : Bytes} {bs : List Bool} {ruleId : UInt8}

def Emits (rule : Codec Nat) (ruleId : UInt8) (bs : List Bool) (tail : Bytes) : Prop :=
  ∀ out s, Wire s ruleId bs tail → s.length ≤ out.length → s.length ≤ maxPacketSize →
    Returns rule out s

section Icmpv6

section

variable (h : Icmpv6Packet p hopLimit icmpType code (linkLocalAddress srcIid)
  (linkLocalAddress dstIid) body)

include h

theorem Icmpv6Packet.iids (hsrc : srcIid < 2 ^ 64) (hdst : dstIid < 2 ^ 64) :
    iid (sourceAddress p) = srcIid ∧ iid (destinationAddress p) = dstIid := by
  rw [h.ipv6.sourceAddress_eq, h.ipv6.destinationAddress_eq, iid_linkLocalAddress hsrc,
    iid_linkLocalAddress hdst]
  exact ⟨rfl, rfl⟩

theorem Icmpv6Packet.linkLocal (hsrc : srcIid < 2 ^ 64) (hdst : dstIid < 2 ^ 64) :
    isLinkLocal64 (sourceAddress p) = true ∧ isLinkLocal64 (destinationAddress p) = true := by
  rw [h.ipv6.sourceAddress_eq, h.ipv6.destinationAddress_eq]
  exact ⟨isLinkLocal64_linkLocalAddress hsrc, isLinkLocal64_linkLocalAddress hdst⟩

end

theorem echo_wire {f : EchoFields} (hread : f.Read bs)
    (h : Icmpv6Packet p f.hopLimit f.icmpType 0 (linkLocalAddress f.srcIid)
      (linkLocalAddress f.dstIid) (f.body tail)) : echoBits p = bs ∧ p.drop 48 = tail := by
  obtain ⟨hsrc, hdst⟩ := h.iids hread.src_lt hread.dst_lt
  have hbody := h.drop_eq
  have hid : u16At p 44 = f.icmpId := by
    rw [← Nat.add_zero 44, ← u16At_drop, hbody, EchoFields.body]
    exact u16At_field [] _ hread.id_lt
  have hseq : u16At p 46 = f.icmpSeq := by
    rw [show 46 = 44 + 2 from rfl, ← u16At_drop, hbody, EchoFields.body]
    exact u16At_field (beBytes 2 f.icmpId) _ hread.seq_lt
  have htail : p.drop 48 = tail := by
    rw [show 48 = 44 + 4 from rfl, ← drop_drop, hbody]
    rfl
  rw [echoBits, hsrc, hdst, h.ipv6.hopLimit_eq, h.type_eq, hid, hseq, hread.bits_eq]
  exact ⟨rfl, htail⟩

theorem dio_wire {f : DioFields} (hread : f.Read bs)
    (h : Icmpv6Packet p f.hopLimit 155 1 (linkLocalAddress f.srcIid) (linkLocalAddress f.dstIid)
      (f.base ++ tail)) : dioBits p = bs ∧ p.drop 68 = tail := by
  obtain ⟨hsrc, hdst⟩ := h.iids hread.src_lt hread.dst_lt
  have hbody := h.drop_eq
  have hrank : u16At p 46 = f.rank := by
    rw [show 46 = 44 + 2 from rfl, ← u16At_drop, hbody, DioFields.base, append_assoc,
      append_assoc]
    exact u16At_field [f.instanceId, f.version] _ hread.rank_lt
  have hdodagid : beNat (p.extract 52 68) = f.dodagid := by
    have hsplit : f.base ++ tail = ([f.instanceId, f.version] ++ (beBytes 2 f.rank ++
        [f.gmop, f.dtsn, 0, 0])) ++ (beBytes 16 f.dodagid ++ tail) := by
      simp only [DioFields.base, append_assoc, cons_append, nil_append]
    rw [show 52 = 44 + 8 from rfl, show 68 = 44 + 24 from rfl, ← extract_drop, hbody, hsplit]
    exact beNat_field (n := 16) _ tail hread.dodagid_lt
  have htail : p.drop 68 = tail := by
    rw [show 68 = 44 + 24 from rfl, ← drop_drop, hbody, drop_left' f.length_base]
  rw [dioBits, hsrc, hdst, h.ipv6.hopLimit_eq, h.getD_eq 0, h.getD_eq 1, hrank, h.getD_eq 4,
    h.getD_eq 5, hdodagid, hread.bits_eq]
  exact ⟨rfl, htail⟩

theorem dao_wire {f : DaoFields} (hread : f.Read bs)
    (h : Icmpv6Packet p f.hopLimit 155 2 (linkLocalAddress f.srcIid) (linkLocalAddress f.dstIid)
      (f.base ++ tail)) : daoBits p = bs ∧ p.drop 64 = tail := by
  obtain ⟨hsrc, hdst⟩ := h.iids hread.src_lt hread.dst_lt
  have hbody := h.drop_eq
  have hdodagid : beNat (p.extract 48 64) = f.dodagid := by
    rw [show 48 = 44 + 4 from rfl, show 64 = 44 + 20 from rfl, ← extract_drop, hbody,
      DaoFields.base, append_assoc]
    exact beNat_field (n := 16) [f.instanceId, f.kdFlags, 0, f.seq] tail hread.dodagid_lt
  have htail : p.drop 64 = tail := by
    rw [show 64 = 44 + 20 from rfl, ← drop_drop, hbody, drop_left' f.length_base]
  rw [daoBits, hsrc, hdst, h.ipv6.hopLimit_eq, h.getD_eq 0, h.getD_eq 1, h.getD_eq 3, hdodagid,
    hread.bits_eq]
  exact ⟨rfl, htail⟩

end Icmpv6

section Coap

variable {abits : List Bool}

theorem CoapAddresses.rule_eq (h : CoapAddresses ruleId src dst abits)
    (haccepts : AcceptsCoap ruleId isOscore) :
    (if isLinkLocal64 src ∧ isLinkLocal64 dst then
      if isOscore then ruleLinkLocalOscore else ruleLinkLocalCoap
    else if isOscore then ruleGlobalOscore else ruleGlobalCoap) = ruleId := by
  obtain ⟨hoscore, hplain⟩ := haccepts
  cases h with
  | linkLocal hrule hsrc hdst =>
    rw [if_pos ⟨hsrc, hdst⟩]
    rcases hrule with rfl | rfl
    · exact if_neg fun h => hplain ⟨.inl rfl, h⟩
    · exact if_pos (not_not.mp fun h => hoscore ⟨.inl rfl, h⟩)
  | global hrule hsrc =>
    rw [if_neg fun hlocal => not_isLinkLocal64_of_first hsrc hlocal.1]
    rcases hrule with rfl | rfl
    · exact if_neg fun h => hplain ⟨.inr rfl, h⟩
    · exact if_pos (not_not.mp fun h => hoscore ⟨.inr rfl, h⟩)

def coapFirst (coapType coapTkl : UInt8) : UInt8 :=
  ((1 : UInt8) <<< 6) ||| ((coapType &&& 0x3) <<< 4) ||| (coapTkl &&& 0x0F)

theorem coapFirst_fields (htype : coapType.toNat < 2 ^ 2) (htkl : coapTkl.toNat < 2 ^ 4) :
    coapFirst coapType coapTkl >>> 6 = 1 ∧ (coapFirst coapType coapTkl >>> 4) &&& 0x3 = coapType ∧
      coapFirst coapType coapTkl &&& 0x0F = coapTkl := by
  have hall : ∀ t < 2 ^ 2, ∀ k < 2 ^ 4, coapFirst (UInt8.ofNat t) (UInt8.ofNat k) >>> 6 = 1 ∧
      (coapFirst (UInt8.ofNat t) (UInt8.ofNat k) >>> 4) &&& 0x3 = UInt8.ofNat t ∧
      coapFirst (UInt8.ofNat t) (UInt8.ofNat k) &&& 0x0F = UInt8.ofNat k := by
    decide +kernel
  have h := hall _ htype _ htkl
  rwa [UInt8.ofNat_toNat, UInt8.ofNat_toNat] at h

structure CoapPacket (p : Bytes) (ruleId : UInt8) (bs : List Bool) (tail : Bytes) : Prop where
  rule_eq : coapRule p = ruleId
  bits_eq : coapBits p = bs
  drop_eq : p.drop 52 = tail
  length_le : 52 ≤ p.length
  version_eq : p.getD 48 0 >>> 6 = 1
  ports : IsCoapPort (u16At p 40) ∧ IsCoapPort (u16At p 42)
  addresses : ∃ abits, CoapAddresses ruleId (sourceAddress p) (destinationAddress p) abits

theorem coap_packet {f : CoapFields} (hread : f.Read ruleId bs)
    (haccepts : AcceptsCoap ruleId (hasOscoreOptionParts f.head tail))
    (h : UdpPacket p f.hopLimit (beBytes 16 f.addresses.1) (beBytes 16 f.addresses.2) f.srcPort
      f.dstPort checksum (f.head ++ tail)) : CoapPacket p ruleId bs tail := by
  obtain ⟨hsrcPort, hdstPort⟩ := h.ports
  obtain ⟨abits, haddresses, hbits⟩ := hread.addresses
  obtain ⟨hversion, htype, htkl⟩ := coapFirst_fields hread.type_lt hread.tkl_lt
  have hbody := h.drop_eq
  have hlength := h.length
  have hsrc := h.ipv6.sourceAddress_eq
  have hdst := h.ipv6.destinationAddress_eq
  have hbyte : ∀ i, p.getD (48 + i) 0 = (f.head ++ tail).getD i 0 := by
    intro i
    rw [← getD_drop, hbody]
  have hfirst : p.getD 48 0 = coapFirst f.coapType f.coapTkl := hbyte 0
  have hcode : p.getD 49 0 = f.coapCode := hbyte 1
  have hmid : u16At p 50 = f.coapMid := by
    rw [show 50 = 48 + 2 from rfl, ← u16At_drop, hbody, CoapFields.head, append_assoc]
    exact u16At_field [_, f.coapCode] tail hread.mid_lt
  rw [← hsrc, ← hdst] at haddresses
  refine ⟨?_, ?_, ?_, ?_, by rw [hfirst, hversion], ?_, abits, haddresses⟩
  · rw [← hasOscoreOption_append f.length_head, ← hbody] at haccepts
    exact haddresses.rule_eq haccepts
  · rw [coapBits, haddresses.bits_eq, h.ipv6.hopLimit_eq, hsrcPort, hdstPort, hfirst, htype, htkl,
      hcode, hmid, hbits]
  · rw [show 52 = 48 + 4 from rfl, ← drop_drop, hbody, drop_left' f.length_head]
  · rw [hlength, length_append, f.length_head]
    omega
  · rw [hsrcPort, hdstPort]
    exact ⟨hread.srcPort, hread.dstPort⟩

theorem CoapPacket.message (h : CoapPacket p ruleId bs tail) (htoken : TokenComplete (p.drop 48)) :
    IsCoapMessage p := ⟨h.length_le, h.version_eq, htoken, h.ports.1.upper, h.ports.2.upper⟩

end Coap

theorem MqttAddresses.bits_eq (h : MqttAddresses src dst abits) :
    mqttAddressBits src dst = abits := by
  cases h with
  | linkLocal hsrc hdst => exact if_pos (Bool.and_eq_true_iff.mpr ⟨hsrc, hdst⟩)
  | full _ _ hnot => exact if_neg fun h => hnot (Bool.and_eq_true_iff.mp h)

theorem MqttFields.Read.mqttPorts_eq {f : MqttFields} (h : f.Read bs)
    (hsrc : u16At p 40 = f.srcPort) (hdst : u16At p 42 = f.dstPort) :
    (u16At p 40 = portMqttSn ∨ u16At p 42 = portMqttSn) ∧
      mqttPorts p = (f.direction, f.otherPort) := by
  have hdirection := h.direction_lt
  rw [mqttPorts, hsrc, hdst, MqttFields.srcPort, MqttFields.dstPort]
  obtain hzero | hone : f.direction = 0 ∨ f.direction = 1 := by omega
  · rw [hzero]
    exact ⟨.inl rfl, rfl⟩
  · rw [hone]
    exact ⟨.inr rfl, if_neg fun hother => h.canonical ⟨hone, hother⟩⟩

theorem mqttSn_wire {f : MqttFields} (hread : f.Read bs)
    (h : UdpPacket p f.hopLimit f.addresses.1 f.addresses.2 f.srcPort f.dstPort checksum tail) :
    mqttBits p = bs := by
  obtain ⟨_, haddresses, hbits⟩ := hread.addresses
  obtain ⟨-, hports⟩ := hread.mqttPorts_eq h.ports.1 h.ports.2
  rw [mqttBits, h.ipv6.hopLimit_eq, h.ipv6.sourceAddress_eq, h.ipv6.destinationAddress_eq, hports,
    haddresses.bits_eq, hbits]

theorem validateAddressPolicy_of_first
    (hsrc : src.length = 16) (hdst : dst.length = 16) (hfirst : src.head? = some first)
    (hfirst' : dst.head? = some first') (h : first ≠ 0 ∧ first ≠ 0xff)
    (h' : first' ≠ 0 ∧ first' ≠ 0xff) : validateAddressPolicy src dst = .ok () := by
  have hclass : ∀ {address : Bytes} {first : UInt8}, address.head? = some first → first ≠ 0 →
      isUnspecifiedAddress address = false ∧ isLoopbackAddress address = false ∧
        isIpv4MappedAddress address = false := by
    intro address first hhead hne
    cases address with
    | nil => cases hhead
    | cons =>
      cases hhead
      simp [isUnspecifiedAddress, isLoopbackAddress, isIpv4MappedAddress, hne]
  obtain ⟨hunspecified, hloopback, hmapped⟩ := hclass hfirst h.1
  obtain ⟨hunspecified', hloopback', hmapped'⟩ := hclass hfirst' h'.1
  simp [validateAddressPolicy, hsrc, hdst, hfirst, hfirst', hunspecified, hloopback, hmapped,
    hunspecified', hloopback', hmapped', h.2, h'.2]

theorem head_of_linkLocal (h : isLinkLocal64 src) : src.head? = some 0xFE := by
  obtain ⟨-, hfixed⟩ := of_decide_eq_true h
  cases src with
  | nil => cases hfixed
  | cons => rw [List.head?_cons, (List.cons.inj hfixed).1]

theorem head_of_getD (hlength : src.length = 16) (h : src.getD 0 0 = first) :
    src.head? = some first := by
  cases src with
  | nil => cases hlength
  | cons => rw [List.head?_cons, ← h, getD_cons_zero]

theorem CoapAddresses.policy (hsrc : src.length = 16) (hdst : dst.length = 16)
    (h : CoapAddresses ruleId src dst abits) : validateAddressPolicy src dst = .ok () := by
  cases h with
  | linkLocal _ hlocal hlocal' =>
    exact validateAddressPolicy_of_first hsrc hdst (head_of_linkLocal hlocal)
      (head_of_linkLocal hlocal') (by decide) (by decide)
  | global _ hfirst hfirst' =>
    exact validateAddressPolicy_of_first hsrc hdst (head_of_getD hsrc hfirst)
      (head_of_getD hdst hfirst') (by decide) (by decide)

theorem validateFullIpv6_eq (hvalid : validateFullIpv6Structure p = .ok ())
    (hpolicy : validateAddressPolicy (sourceAddress p) (destinationAddress p) = .ok ()) :
    validateFullIpv6 p = .ok () := by
  rw [validateFullIpv6, hvalid]
  exact hpolicy

theorem Icmpv6Packet.matches (hsrc : srcIid < 2 ^ 64) (hdst : dstIid < 2 ^ 64)
    (h : Icmpv6Packet p hopLimit icmpType code (linkLocalAddress srcIid) (linkLocalAddress dstIid)
      body) (hbody : IsEcho p ∨ IsDio p ∨ IsDao p) :
    MatchesRule p ∧ validateAddressPolicy (sourceAddress p) (destinationAddress p) = .ok () := by
  obtain ⟨hlocal, hlocal'⟩ := h.linkLocal hsrc hdst
  refine ⟨.inl ⟨h.ipv6.version, h.ipv6.nextHeader_eq, hlocal, hlocal', h.checksumValid, hbody⟩, ?_⟩
  exact validateAddressPolicy_of_first (of_decide_eq_true hlocal).1 (of_decide_eq_true hlocal').1
    (head_of_linkLocal hlocal) (head_of_linkLocal hlocal') (by decide) (by decide)

theorem CoapPacket.ports_ne (h : CoapPacket p ruleId bs tail) :
    ¬(u16At p 40 = portMqttSn ∨ u16At p 42 = portMqttSn) := by
  have hne : ∀ {port : Nat}, IsCoapPort port → port ≠ portMqttSn := by
    rintro port hcoap rfl
    exact absurd hcoap.upper (by decide)
  exact not_or.mpr ⟨hne h.ports.1, hne h.ports.2⟩

section Token

def tokenOffset (ruleId : UInt8) : Nat := if ruleId = ruleLinkLocalCoap then 19 else 33

def residueTkl (s : Bytes) : UInt8 := (s.getD (tokenOffset (s.getD 0 0)) 0 >>> 2) &&& 0x0F

/-- Under a plaintext CoAP rule, a defined token length and a tail that holds the token. -/
def TokenFits (s : Bytes) : Prop :=
  s.getD 0 0 = ruleLinkLocalCoap ∨ s.getD 0 0 = ruleGlobalCoap →
    residueTkl s ≤ 8 ∧ tokenOffset (s.getD 0 0) + 4 + (residueTkl s).toNat ≤ s.length

instance : Decidable (TokenFits s) := inferInstanceAs (Decidable (_ → _))

theorem nibble_of_bits (hk : k < 2 ^ 4)
    (h : byteBits byte ++ more = natBits 2 t ++ (natBits 4 k ++ rest)) :
    ((byte >>> 2) &&& 0x0F).toNat = k := by
  have hall : ∀ byte : UInt8,
      natBits 4 ((byte >>> 2) &&& 0x0F).toNat = ((byteBits byte).drop 2).take 4 ∧
        ((byte >>> 2) &&& 0x0F).toNat < 2 ^ 4 := by
    decide +kernel
  obtain ⟨hbits, hlt⟩ := hall byte
  have hdrop := congrArg (fun l : List Bool => (l.drop 2).take 4) h
  rw [drop_left' (length_natBits 2 t), take_left' (length_natBits 4 k),
    drop_append_of_le_length (by rw [length_byteBits]; decide),
    take_append_of_le_length (by rw [length_drop, length_byteBits]; decide), ← hbits]
    at hdrop
  rw [← bitsNat_natBits_of_lt hlt, hdrop, bitsNat_natBits_of_lt hk]

theorem nibble_of_residue
    (hresidue : Residue residue (front ++ (natBits 2 t ++ (natBits 4 k ++ rest))))
    (hfront : front.length = 8 * n) (hk : k < 2 ^ 4) :
    n < residue.length ∧ ((residue.getD n 0 >>> 2) &&& 0x0F).toNat = k := by
  have hlength := hresidue.length_eq
  simp only [length_append, length_natBits, hfront] at hlength
  have hn : n < residue.length := by omega
  refine ⟨hn, ?_⟩
  have hbits := bits_drop residue n
  rw [drop_eq_getD_cons hn 0, bits_cons, hresidue.bits_eq, append_assoc,
    drop_left' hfront, append_assoc, append_assoc] at hbits
  exact nibble_of_bits hk hbits

theorem CoapPacket.residueTkl_eq (h : CoapPacket p ruleId bs tail) (hwire : Wire s ruleId bs tail)
    (hplain : ruleId = ruleLinkLocalCoap ∨ ruleId = ruleGlobalCoap) :
    (residueTkl s).toNat = (p.getD 48 0 &&& 0x0F).toNat ∧
      s.length = tokenOffset ruleId + 4 + tail.length := by
  obtain ⟨abits, haddresses⟩ := h.addresses
  have hlength := hwire.length_eq
  obtain ⟨_, hresidue, rfl⟩ := hwire
  have hoffset : abits.length + 24 = 8 * tokenOffset ruleId := by
    cases haddresses with
    | linkLocal hrule =>
      obtain rfl : ruleId = ruleLinkLocalCoap := by
        rcases hplain with rfl | rfl
        · rfl
        · exact absurd hrule (by decide)
      simp [tokenOffset]
    | global hrule =>
      obtain rfl : ruleId = ruleGlobalCoap := by
        rcases hplain with rfl | rfl
        · exact absurd hrule (by decide)
        · rfl
      simp [tokenOffset, ruleGlobalCoap, ruleLinkLocalCoap]
  have hbits := h.bits_eq
  rw [coapBits, haddresses.bits_eq] at hbits
  rw [← append_assoc, ← append_assoc, ← append_assoc] at hbits
  rw [← hbits] at hresidue hlength
  obtain ⟨n, hn⟩ : ∃ n, tokenOffset ruleId = n + 1 := ⟨tokenOffset ruleId - 1, by omega⟩
  obtain ⟨hlt, hnibble⟩ := nibble_of_residue (n := n) hresidue
    (by simp only [length_append, length_natBits]; omega) (coapTkl_lt _)
  refine ⟨?_, ?_⟩
  · rw [residueTkl, getD_cons_zero, hn, getD_cons_succ, getD_append _ _ _ _ hlt,
      hnibble]
  · rw [hlength]
    simp only [length_append, length_natBits]
    omega

theorem CoapPacket.tokenFits_iff (h : CoapPacket p ruleId bs tail) (hwire : Wire s ruleId bs tail)
    (hplain : ruleId = ruleLinkLocalCoap ∨ ruleId = ruleGlobalCoap) :
    TokenFits s ↔ TokenComplete (p.drop 48) := by
  obtain ⟨htkl, hlength⟩ := h.residueTkl_eq hwire hplain
  have hhead : s.getD 0 0 = ruleId := by
    obtain ⟨_, -, rfl⟩ := hwire
    rfl
  have htail : (p.drop 48).length = 4 + tail.length := by
    have hle := h.length_le
    rw [← h.drop_eq, length_drop, length_drop]
    omega
  have hbyte : (p.drop 48).getD 0 0 = p.getD 48 0 := getD_drop p 48 0 0
  rw [TokenFits, TokenComplete, hhead, hbyte, htail, UInt8.toNat_inj.mp htkl, hlength]
  exact ⟨fun hfits => ⟨(hfits hplain).1, by have := (hfits hplain).2; omega⟩,
    fun hcomplete _ => ⟨hcomplete.1, by have := hcomplete.2; omega⟩⟩

theorem tokenComplete_of_oscore (h : hasOscoreOption coap = true) : TokenComplete coap := by
  rw [hasOscoreOption] at h
  split at h
  · cases h
  · next hlength =>
    simp only [hasOscoreOptionParts, take_append_drop] at h
    split at h
    · cases h
    · next hundefined =>
      split at h
      · cases h
      · next hshort =>
        have hhead : (coap.take 4).length = 4 := by
          rw [length_take]
          omega
        rw [hhead] at hshort
        refine ⟨?_, by omega⟩
        rw [UInt8.le_iff_toNat_le]
        exact Nat.not_lt.mp hundefined

end Token

theorem Decoded.encoding_eq (h : Decoded p ruleId bs tail) : encoding p = (ruleId, bs, tail) := by
  cases h with
  | coap checksum hrule hread haccepts hp =>
    have hcoap := coap_packet hread haccepts hp
    rw [encoding, if_pos hp.ipv6.nextHeader_eq, if_neg hcoap.ports_ne, hcoap.rule_eq, hcoap.bits_eq,
      hcoap.drop_eq]
  | echo hread hp =>
    obtain ⟨hbits, htail⟩ := echo_wire hread hp
    have htype : p.getD 40 0 ≠ 155 := by
      rw [hp.type_eq]
      rcases hread.isEcho with h | h <;> rw [h] <;> decide
    rw [encoding, if_neg (by rw [hp.ipv6.nextHeader_eq]; decide), if_neg htype, hbits, htail]
  | dio hread hp =>
    obtain ⟨hbits, htail⟩ := dio_wire hread hp
    rw [encoding, if_neg (by rw [hp.ipv6.nextHeader_eq]; decide), if_pos hp.type_eq,
      if_pos hp.code_eq, hbits, htail]
  | dao hread hp =>
    obtain ⟨hbits, htail⟩ := dao_wire hread hp
    rw [encoding, if_neg (by rw [hp.ipv6.nextHeader_eq]; decide), if_pos hp.type_eq,
      if_neg (by rw [hp.code_eq]; decide), hbits, htail]
  | mqttSn checksum hread hp =>
    rw [encoding, if_pos hp.ipv6.nextHeader_eq, if_pos (hread.mqttPorts_eq hp.ports.1 hp.ports.2).1,
      mqttSn_wire hread hp, hp.drop_eq]

theorem UdpPacket.match (hlimit : p.length ≤ maxPacketSize)
    (h : UdpPacket p hopLimit src dst srcPort dstPort checksum body) : UdpMatch p :=
  ⟨validateFullIpv6Structure_ok h.validate, h.ipv6.version, hlimit, h.ipv6.nextHeader_eq⟩

theorem Decoded.matches (h : Decoded p ruleId bs tail)
    (htoken : IsCoap ruleId → TokenComplete (p.drop 48)) :
    MatchesRule p ∧ validateAddressPolicy (sourceAddress p) (destinationAddress p) = .ok () := by
  cases h with
  | coap checksum hrule hread haccepts hp =>
    have hcoap := coap_packet hread haccepts hp
    have hfields := validateFullIpv6Structure_ok hp.validate
    obtain ⟨abits, haddresses⟩ := hcoap.addresses
    refine ⟨.inr ⟨hp.ipv6.version, hp.ipv6.nextHeader_eq, .inr ⟨hcoap.message (htoken hrule), abits,
      hcoap.rule_eq.symm ▸ haddresses⟩⟩, ?_⟩
    exact haddresses.policy (length_sourceAddress hfields) (length_destinationAddress hfields)
  | echo hread hp =>
    have htype := hread.isEcho
    rw [← hp.type_eq] at htype
    refine hp.matches hread.src_lt hread.dst_lt (.inl ⟨htype, hp.code_eq, ?_⟩)
    rw [hp.length, EchoFields.length_body]
    omega
  | dio hread hp =>
    refine hp.matches hread.src_lt hread.dst_lt (.inr (.inl ⟨hp.type_eq, hp.code_eq, ?_, ?_⟩))
    · rw [hp.length, length_append, DioFields.length_base]
      omega
    · exact ⟨hp.getD_eq 6, hp.getD_eq 7⟩
  | dao hread hp =>
    refine hp.matches hread.src_lt hread.dst_lt (.inr (.inr ⟨hp.type_eq, hp.code_eq, ?_, ?_⟩))
    · rw [hp.length, length_append, DaoFields.length_base]
      omega
    · rw [hp.getD_eq 1]
      exact ⟨hread.flags, hp.getD_eq 2⟩
  | mqttSn checksum hread hp =>
    refine ⟨.inr ⟨hp.ipv6.version, hp.ipv6.nextHeader_eq,
      .inl (hread.mqttPorts_eq hp.ports.1 hp.ports.2).1⟩, ?_⟩
    rw [hp.ipv6.sourceAddress_eq, hp.ipv6.destinationAddress_eq]
    exact hread.policy

theorem Decoded.emits (h : Decoded p ruleId bs tail) (hlimit : p.length ≤ maxPacketSize)
    (htoken : IsCoap ruleId → TokenComplete (p.drop 48)) : Emits (compress p) ruleId bs tail := by
  obtain ⟨hmatches, hpolicy⟩ := h.matches htoken
  obtain ⟨-, hcompresses⟩ | ⟨hnot, -⟩ :=
    compress_cases hlimit (validateFullIpv6_eq h.validate hpolicy)
  · rw [Compresses, h.encoding_eq] at hcompresses
    exact fun out s hwire hroom hs => hcompresses.emits trivial hwire hroom hs
  · exact absurd hmatches hnot

theorem CoapPacket.tokenComplete (hcoap : CoapPacket p ruleId bs tail) (hmatch : UdpMatch p)
    (hs : s ≠ ruleUncompressed :: p) (h : Returns (compress p) out s) :
    TokenComplete (p.drop 48) := by
  have hchecked := h
  rw [compress, returns_check, returns_ofExcept] at hchecked
  obtain ⟨-, ⟨⟩, hvalid, -⟩ := hchecked
  obtain ⟨⟨-, hnext, -⟩ | ⟨-, -, hrule⟩, -⟩ | ⟨-, hraw⟩ := compress_cases hmatch.limit hvalid
  · rw [hmatch.nextHeader] at hnext
    exact absurd hnext (by decide)
  · exact (hrule.resolve_left hcoap.ports_ne).1.2.2.1
  · rw [hraw] at h
    exact absurd (encodeRule255_returns h).2.2 hs

theorem Decoded.unique (h : Decoded p ruleId bs tail) (h' : Decoded p ruleId' bs' tail') :
    ruleId = ruleId' ∧ bs = bs' ∧ tail = tail' := by
  have heq := h.encoding_eq
  rw [h'.encoding_eq] at heq
  cases heq
  exact ⟨rfl, rfl, rfl⟩

theorem decoded_of_rule (hrule : s.getD 0 0 ≤ 7) (h : Returns (decompress s) room p) :
    s.length ≤ maxPacketSize ∧ ∃ ruleId bs tail, Wire s ruleId bs tail ∧ Decoded p ruleId bs tail
      := by
  obtain ⟨hlimit, ⟨rfl, -⟩ | hdecoded⟩ := decompress_decoded h
  · exact absurd hrule (by rw [getD_cons_zero]; decide)
  · exact ⟨hlimit, hdecoded⟩

theorem Decoded.tokenFits_iff (h : Decoded p ruleId bs tail) (hwire : Wire s ruleId bs tail)
    (hlimit : p.length ≤ maxPacketSize) (hs : s.length ≤ maxPacketSize) :
    (∀ out, s.length ≤ out.length → Returns (compress p) out s) ↔ TokenFits s := by
  have hhead : s.getD 0 0 = ruleId := by
    obtain ⟨_, -, rfl⟩ := hwire
    rfl
  by_cases hplain : ruleId = ruleLinkLocalCoap ∨ ruleId = ruleGlobalCoap
  · obtain ⟨hcoap, hmatch⟩ : CoapPacket p ruleId bs tail ∧ UdpMatch p := by
      cases h with
      | coap checksum hrule hread haccepts hp =>
        exact ⟨coap_packet hread haccepts hp, hp.match hlimit⟩
      | _ => exact absurd hplain (by decide)
    rw [hcoap.tokenFits_iff hwire hplain]
    constructor
    · intro hall
      refine hcoap.tokenComplete hmatch ?_ (hall s le_rfl)
      rintro rfl
      rw [getD_cons_zero] at hhead
      rw [← hhead] at hplain
      exact absurd hplain (by decide)
    · intro htoken out hroom
      exact h.emits hlimit (fun _ => htoken) out s hwire hroom hs
  · refine iff_of_true (fun out hroom => ?_) fun hrule => (hplain (by rwa [hhead] at hrule)).elim
    refine h.emits hlimit (fun hrule => ?_) out s hwire hroom hs
    cases h with
    | coap checksum _ hread haccepts hp =>
      apply tokenComplete_of_oscore
      rw [hp.drop_eq, hasOscoreOption_append (CoapFields.length_head _)]
      refine not_not.mp fun hoscore => haccepts.1 ⟨?_, hoscore⟩
      obtain hrule | hrule | hrule | hrule := hrule
      · exact absurd (.inl hrule) hplain
      · exact absurd (.inr hrule) hplain
      · exact .inl hrule
      · exact .inr hrule
    | _ => exact absurd hrule (by rw [IsCoap]; decide)

/-- A packet has one compressed form that is accepted, and it is compressed to that form exactly
where the token of a plaintext CoAP message is complete. -/
theorem compress_decompress_iff (hrule : s.getD 0 0 ≤ 7) (h : Returns (decompress s) room p)
    (hlimit : p.length ≤ maxPacketSize) :
    (∀ s' room', s'.getD 0 0 ≤ 7 → Returns (decompress s') room' p → s' = s) ∧
      ((∀ out, s.length ≤ out.length → Returns (compress p) out s) ↔ TokenFits s) := by
  obtain ⟨hs, _, _, _, hwire, hdecoded⟩ := decoded_of_rule hrule h
  refine ⟨?_, hdecoded.tokenFits_iff hwire hlimit hs⟩
  intro s' room' hrule' h'
  obtain ⟨-, _, _, _, hwire', hdecoded'⟩ := decoded_of_rule hrule' h'
  obtain ⟨rfl, rfl, rfl⟩ := hdecoded.unique hdecoded'
  exact hwire'.unique hwire

def coapResidue (tkl : UInt8) : Bytes :=
  [0, 64, 0, 0, 0, 0, 0, 0, 0, 1, 0, 0, 0, 0, 0, 0, 0, 2, 0x33, tkl <<< 2, 4, 0, 4]

def coapGet (checksum : Bytes) (tkl : UInt8) : Bytes :=
  [0x60, 0, 0, 0, 0, 12, 17, 64] ++ (linkLocalPrefix ++ [0, 0, 0, 0, 0, 0, 0, 1]) ++
    (linkLocalPrefix ++ [0, 0, 0, 0, 0, 0, 0, 2]) ++ [0x16, 0x33, 0x16, 0x33, 0, 12] ++ checksum ++
    [0x40 ||| tkl, 1, 0, 1]

theorem compress_decompress_coapGet :
    TokenFits (coapResidue 0) ∧
    (∀ s' room', s'.getD 0 0 ≤ 7 → Returns (decompress s') room' (coapGet [0x96, 0x69] 0) →
      s' = coapResidue 0) ∧
    ((∀ out, (coapResidue 0).length ≤ out.length →
      Returns (compress (coapGet [0x96, 0x69] 0)) out (coapResidue 0)) ↔ TokenFits (coapResidue 0))
        := by
  have h : Returns (decompress (coapResidue 0)) (List.replicate 52 0) (coapGet [0x96, 0x69] 0) := by
    decide +kernel
  exact ⟨by decide +kernel, compress_decompress_iff (by decide) h (by decide)⟩

/-- A reserved token length is decompressed, but such a packet is only compressed to Rule 255. -/
theorem reserved_token_length_accepted :
    Returns (decompress (coapResidue 9)) (List.replicate 52 0) (coapGet [0x8D, 0x69] 9) ∧
    Returns (compress (coapGet [0x8D, 0x69] 9)) (List.replicate 53 0)
      (ruleUncompressed :: coapGet [0x8D, 0x69] 9) ∧
    ¬Returns (compress (coapGet [0x8D, 0x69] 9)) (List.replicate 53 0) (coapResidue 9) := by
  decide +kernel

end Lichen.Schc
