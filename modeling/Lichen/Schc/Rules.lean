import Lichen.Schc.Decoded

namespace Lichen.Schc

open Lichen.Lib BitWriter BitReader

variable {packet out room s tail : Bytes} {ruleId : UInt8}

/-- A SCHC packet from which the rule's decoder reads these fields in front of this tail. -/
structure Carries (s : Bytes) (ruleId : UInt8) (fields : Reader α) (a : α) (tail : Bytes) :
    Prop where
  head_eq : s.head? = some ruleId
  length_le : s.length ≤ maxPacketSize
  read_eq : ∀ reason, readResidue reason fields s = .ok (a, tail)

theorem Wire.carries (h : Wire s ruleId bs tail) (hlimit : s.length ≤ maxPacketSize)
    (hreads : Reads fields bs a) : Carries s ruleId fields a tail := by
  obtain ⟨_, hresidue, rfl⟩ := h
  exact ⟨rfl, hlimit, fun reason => readResidue_eq hreads hresidue⟩

theorem reads_readU8 (byte : UInt8) : Reads readU8 (natBits 8 byte.toNat) byte := by
  refine (reads_read byte.toNat_lt).last ?_
  rw [UInt8.ofNat_toNat]
  exact reads_pure

theorem reads_u16At (packet : Bytes) (offset : Nat) :
    Reads (read 16) (natBits 16 (u16At packet offset)) (u16At packet offset) :=
  reads_read u16At_lt

theorem reads_iid (h : address.length = 16) :
    Reads (read 64) (natBits 64 (iid address)) (iid address) :=
  reads_read (iid_lt h)

theorem reads_echo (hfields : Ipv6Fields packet)
    (htype : packet.getD 40 0 = 128 ∨ packet.getD 40 0 = 129) :
    Reads readIcmpv6Echo (echoBits packet) ⟨packet.getD 7 0, iid (sourceAddress packet),
      iid (destinationAddress packet), packet.getD 40 0, u16At packet 44, u16At packet 46⟩ :=
  (reads_readU8 _).bind <| (reads_iid (length_sourceAddress hfields)).bind <|
    (reads_iid (length_destinationAddress hfields)).bind <| (reads_readU8 _).bind <|
    (reads_u16At _ _).bind <| (reads_u16At _ _).last <|
    (reads_check (by rw [not_and_or, not_not, not_not]; exact htype)).bind reads_pure

theorem reads_dodagid (h : offset + 16 ≤ packet.length) :
    Reads (read 128) (natBits 128 (beNat (packet.extract offset (offset + 16))))
      (beNat (packet.extract offset (offset + 16))) := by
  refine reads_read (beNat_lt_of_address ?_)
  rw [length_extract_of_le h]
  omega

theorem beBytes_dodagid (h : offset + 16 ≤ packet.length) :
    beBytes 16 (beNat (packet.extract offset (offset + 16))) ++ packet.drop (offset + 16) =
      packet.drop offset := by
  have hlength : (packet.extract offset (offset + 16)).length = 16 := by
    rw [length_extract_of_le h]
    omega
  rw [beBytes_address hlength, ← drop_eq_extract_append packet (by omega)]

theorem reads_dio (hfields : Ipv6Fields packet) (hlength : 68 ≤ packet.length) :
    Reads readRplDio (dioBits packet) ⟨packet.getD 7 0, iid (sourceAddress packet),
      iid (destinationAddress packet), packet.getD 44 0, packet.getD 45 0, u16At packet 46,
      packet.getD 48 0, packet.getD 49 0, beNat (packet.extract 52 68)⟩ :=
  (reads_readU8 _).bind <| (reads_iid (length_sourceAddress hfields)).bind <|
    (reads_iid (length_destinationAddress hfields)).bind <| (reads_readU8 _).bind <|
    (reads_readU8 _).bind <| (reads_u16At _ _).bind <| (reads_readU8 _).bind <|
    (reads_readU8 _).bind <| (reads_dodagid (by omega)).last reads_pure

theorem reads_dao (hfields : Ipv6Fields packet) (hlength : 64 ≤ packet.length)
    (hflags : packet.getD 45 0 &&& 0x40 ≠ 0) :
    Reads readRplDao (daoBits packet) ⟨packet.getD 7 0, iid (sourceAddress packet),
      iid (destinationAddress packet), packet.getD 44 0, packet.getD 45 0, packet.getD 47 0,
      beNat (packet.extract 48 64)⟩ :=
  (reads_readU8 _).bind <| (reads_iid (length_sourceAddress hfields)).bind <|
    (reads_iid (length_destinationAddress hfields)).bind <| (reads_readU8 _).bind <|
    (reads_readU8 _).bind <| (reads_readU8 _).bind <| (reads_dodagid (by omega)).last <|
    (reads_check hflags).bind reads_pure

theorem CoapAddresses.reads (hsrc : src.length = 16) (hdst : dst.length = 16)
    (h : CoapAddresses ruleId src dst abits) :
    ∃ ints, Reads (readCoapAddresses ruleId) abits ints ∧ beBytes 16 ints.1 = src ∧
      beBytes 16 ints.2 = dst := by
  cases h with
  | linkLocal hrule hlocal hlocal' =>
    refine ⟨(linkLocalInt (iid src), linkLocalInt (iid dst)), ?_, linkLocalAddress_iid hlocal,
      linkLocalAddress_iid hlocal'⟩
    rw [readCoapAddresses, if_pos hrule]
    exact (reads_iid hsrc).bind ((reads_iid hdst).last reads_pure)
  | global hrule hfirst hfirst' =>
    have hlocal : ¬(ruleId = ruleLinkLocalCoap ∨ ruleId = ruleLinkLocalOscore) := by
      rcases hrule with rfl | rfl <;> decide
    have hlt : ∀ n : Nat, n &&& ((1 <<< 120) - 1) < 2 ^ 120 := fun n => by
      rw [Nat.one_shiftLeft]
      exact Nat.and_lt_two_pow n (by decide)
    refine ⟨((0x02 <<< 120) ||| (beNat src &&& ((1 <<< 120) - 1)),
      (0x02 <<< 120) ||| (beNat dst &&& ((1 <<< 120) - 1))), ?_, globalAddress_lsb hsrc hfirst,
      globalAddress_lsb hdst hfirst'⟩
    rw [readCoapAddresses, if_neg hlocal, if_pos hrule]
    exact (reads_read (hlt _)).bind
      ((reads_read (hlt _)).last reads_pure)

theorem coapPort_lsb (h : port >>> 4 = coapPort >>> 4) :
    (coapPort &&& 0xFFF0) ||| (port &&& 0xF) = port := by
  have hlow : port &&& 0xF = port % 2 ^ 4 := Nat.and_two_pow_sub_one_eq_mod port 4
  have hupper : coapPort &&& 0xFFF0 = 355 <<< 4 := rfl
  have hdiv : port / 2 ^ 4 = 355 := by rwa [Nat.shiftRight_eq_div_pow] at h
  rw [hlow, hupper, ← Nat.shiftLeft_add_eq_or_of_lt (Nat.mod_lt _ (by decide)), Nat.shiftLeft_eq]
  omega

theorem coap_first (b : UInt8) (h : b >>> 6 = 1) :
    ((1 : UInt8) <<< 6) ||| ((((b >>> 4) &&& 0x3) &&& 0x3) <<< 4) ||| ((b &&& 0x0F) &&& 0x0F) = b
      := by
  revert b
  decide +kernel

theorem coapType_lt (b : UInt8) : ((b >>> 4) &&& 0x3).toNat < 2 ^ 2 := by
  revert b
  decide +kernel

theorem coapTkl_lt (b : UInt8) : (b &&& 0x0F).toNat < 2 ^ 4 := by
  revert b
  decide +kernel

structure CoapMatch (packet : Bytes) (f : CoapFields) : Prop where
  hopLimit_eq : f.hopLimit = packet.getD 7 0
  src_eq : beBytes 16 f.addresses.1 = sourceAddress packet
  dst_eq : beBytes 16 f.addresses.2 = destinationAddress packet
  srcPort_eq : f.srcPort = u16At packet 40
  dstPort_eq : f.dstPort = u16At packet 42
  head_eq : f.head ++ packet.drop 52 = packet.drop 48
  length_le : 52 ≤ packet.length

theorem reads_coap (hfields : Ipv6Fields packet) (h : IsCoapMessage packet)
    (haddresses : CoapAddresses ruleId (sourceAddress packet) (destinationAddress packet) abits) :
    ∃ f, CoapMatch packet f ∧ Reads (readCoap ruleId) (coapBits packet) f := by
  obtain ⟨hlength, hfirst, -, hsrcPort, hdstPort⟩ := h
  obtain ⟨ints, hreads, hsrc, hdst⟩ := haddresses.reads (length_sourceAddress hfields)
    (length_destinationAddress hfields)
  refine ⟨⟨packet.getD 7 0, ints, u16At packet 40, u16At packet 42,
    (packet.getD 48 0 >>> 4) &&& 0x3, packet.getD 48 0 &&& 0x0F, packet.getD 49 0,
    u16At packet 50⟩, ⟨rfl, hsrc, hdst, rfl, rfl, ?_, hlength⟩, ?_⟩
  · rw [CoapFields.head, coap_first _ hfirst, List.append_assoc, beBytes_u16At (by omega)]
    exact (drop_eq_pair_append (by omega) 0).symm
  · have hlow : ∀ port : Nat, port &&& 0xF < 2 ^ 4 := fun port =>
      Nat.and_lt_two_pow port (by decide)
    rw [coapBits, haddresses.bits_eq]
    refine (reads_readU8 _).bind <| hreads.bind <|
      (reads_read (hlow _)).bind <|
      (reads_read (hlow _)).bind <|
      (reads_read (coapType_lt _)).bind <|
      (reads_read (coapTkl_lt _)).bind <| (reads_readU8 _).bind <|
      (reads_u16At _ _).last ?_
    rw [coapPort_lsb hsrcPort, coapPort_lsb hdstPort, UInt8.ofNat_toNat, UInt8.ofNat_toNat]
    exact reads_pure

theorem mqttPorts_canonical : (mqttPorts packet).1 < 2 ^ 1 ∧ (mqttPorts packet).2 < 2 ^ 16 ∧
      ¬((mqttPorts packet).1 = 1 ∧ (mqttPorts packet).2 = portMqttSn) := by
  rw [mqttPorts]
  split
  · exact ⟨Nat.zero_lt_two, u16At_lt, fun h => absurd h.1 Nat.zero_ne_one⟩
  · next hport => exact ⟨Nat.one_lt_two, u16At_lt, fun h => hport h.2⟩

theorem reads_mqttAddresses_local (hsrc : isLinkLocal64 src) (hdst : isLinkLocal64 dst) :
    Reads (readMqttAddresses 0) (natBits 64 (iid src) ++ natBits 64 (iid dst)) (src, dst) := by
  rw [readMqttAddresses, if_pos rfl]
  refine (reads_iid (of_decide_eq_true hsrc).1).bind ((reads_iid (of_decide_eq_true hdst).1).last
    ?_)
  rw [linkLocalAddress_iid hsrc, linkLocalAddress_iid hdst]
  exact reads_pure

theorem reads_mqttAddresses_full (hsrc : src.length = 16) (hdst : dst.length = 16) :
    Reads (readMqttAddresses 1) (natBits 128 (beNat src) ++ natBits 128 (beNat dst)) (src, dst) :=
      by
  rw [readMqttAddresses, if_neg Nat.one_ne_zero]
  refine (reads_read (beNat_lt_of_address hsrc)).bind
    ((reads_read (beNat_lt_of_address hdst)).last ?_)
  rw [beBytes_address hsrc, beBytes_address hdst]
  exact reads_pure

theorem reads_mqttSn (hfields : Ipv6Fields packet) (hpolicy : validateAddressPolicy
    (sourceAddress packet) (destinationAddress packet) = .ok ()) :
    Reads readMqttSn (mqttBits packet) ⟨packet.getD 7 0, (sourceAddress packet,
      destinationAddress packet), (mqttPorts packet).1, (mqttPorts packet).2⟩ := by
  obtain ⟨hdirection, hother, hcanonical⟩ := mqttPorts_canonical
  have hreads : ∀ {mode bs}, mode < 2 ^ 1 → Reads (readMqttAddresses mode) bs
      (sourceAddress packet, destinationAddress packet) →
      ¬(mode = 1 ∧ isLinkLocal64 (sourceAddress packet) ∧ isLinkLocal64 (destinationAddress packet)) →
      Reads readMqttSn (natBits 8 (packet.getD 7 0).toNat ++ ((natBits 1 mode ++ bs) ++
        (natBits 1 (mqttPorts packet).1 ++ natBits 16 (mqttPorts packet).2))) ⟨packet.getD 7 0,
          (sourceAddress packet, destinationAddress packet), (mqttPorts packet).1,
          (mqttPorts packet).2⟩ := by
    intro mode bs hmode haddresses hfull
    rw [List.append_assoc]
    exact (reads_readU8 _).bind <| (reads_read hmode).bind <|
      haddresses.bind <| (reads_ofExcept hpolicy).bind <| (reads_check hfull).bind <|
      (reads_read hdirection).bind <|
      (reads_read hother).last <|
      (reads_check hcanonical).bind reads_pure
  rw [mqttBits, mqttAddressBits]
  split
  · rename_i hlocal
    have hboth := Bool.and_eq_true_iff.mp hlocal
    exact hreads (by decide) (reads_mqttAddresses_local hboth.1 hboth.2) fun h => Nat.zero_ne_one h.1
  · rename_i hlocal
    exact hreads (by decide) (reads_mqttAddresses_full (length_sourceAddress hfields)
      (length_destinationAddress hfields)) fun h => hlocal (Bool.and_eq_true_iff.mpr h.2)

end Lichen.Schc
