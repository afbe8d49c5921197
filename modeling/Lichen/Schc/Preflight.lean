import Lichen.Schc.RoundTrip

namespace Lichen.Schc

open Lichen.Lib

variable {p : Codec Nat} {packet out : Bytes}

/-- When the routine fails, the buffer is as it was. -/
def Preflights (p : Codec Nat) : Prop := ∀ out e out', p out = .error e out' → out' = out

theorem preflights_check [Decidable c] (h : Preflights p) :
    Preflights (check c e >>= fun _ => p) := by
  by_cases hc : c
  · intro out e' out' hfail
    rw [check_bind_of hc] at hfail
    cases hfail
    rfl
  · rwa [check_bind_of_not hc]

theorem preflights_checkRoom (h : Preflights p) : Preflights (checkRoom needed >>= fun _ => p) := by
  intro out e out' hfail
  rw [checkRoom_bind] at hfail
  exact preflights_check h out e out' hfail

theorem preflights_ofExcept (h : ∀ a, Preflights (k a)) : Preflights (ofExcept r >>= k) := by
  cases r with
  | ok a => exact h a
  | error e =>
    rintro _ _ _ ⟨⟩
    rfl

theorem preflights_throw : Preflights (throw e) := by
  rintro _ _ _ ⟨⟩
  rfl

theorem preflights_of_ok (h : ∀ out, ∃ n out', p out = .ok n out') : Preflights p := by
  intro out e out' hfail
  obtain ⟨n, _, hok⟩ := h out
  rw [hok] at hfail
  cases hfail

theorem preflights_decompressCoap :
    Preflights (decompressCoap data ruleId) :=
  preflights_ofExcept fun _ => preflights_check <| preflights_checkRoom <| preflights_check <|
    preflights_check <| preflights_ofExcept fun _ => preflights_of_ok fun _ => ⟨_, _, rfl⟩

theorem preflights_storeRpl :
    Preflights (storeRpl hopLimit src dst icmpHead tail) :=
  preflights_checkRoom <| preflights_of_ok fun _ => ⟨_, _, rfl⟩

theorem preflights_decompress : Preflights (decompress data) := by
  refine preflights_check <| preflights_check ?_
  simp only [decompressRule]
  split_ifs
  · exact preflights_decompressCoap
  · exact preflights_decompressCoap
  · exact preflights_ofExcept fun _ => preflights_checkRoom <| preflights_of_ok fun _ => ⟨_, _, rfl⟩
  · exact preflights_ofExcept fun _ => preflights_storeRpl
  · exact preflights_ofExcept fun _ => preflights_storeRpl
  · exact preflights_decompressCoap
  · exact preflights_decompressCoap
  · exact preflights_check <| preflights_ofExcept fun _ => preflights_check <|
      preflights_ofExcept fun _ => preflights_checkRoom <| preflights_of_ok fun _ => ⟨_, _, rfl⟩
  · exact preflights_check <| preflights_check <| preflights_ofExcept fun _ =>
      preflights_checkRoom <| preflights_of_ok fun _ => ⟨_, _, rfl⟩
  · exact preflights_throw

theorem preflights_encodeRule255 : Preflights (encodeRule255 packet usizeMax) :=
  preflights_ofExcept fun _ => preflights_checkRoom <| preflights_check <|
    preflights_of_ok fun _ => ⟨_, _, rfl⟩

theorem preflights_compress : Preflights (compress packet) := by
  by_cases hlimit : maxPacketSize < packet.length
  · rintro out e out' hfail
    rw [compress, check_bind_of hlimit] at hfail
    cases hfail
    rfl
  cases hvalid : validateFullIpv6 packet with
  | error e =>
    rintro out _ out' hfail
    rw [compress, check_bind_of_not hlimit, hvalid] at hfail
    cases hfail
    rfl
  | ok =>
    obtain ⟨-, hcompresses⟩ | ⟨-, hraw⟩ := compress_cases (Nat.not_lt.mp hlimit) hvalid
    · intro out e out' hfail
      have hwritten := hcompresses.matched trivial out
      rw [hfail] at hwritten
      exact hwritten.2.1
    · rw [hraw]
      exact preflights_encodeRule255

theorem failed_writes_nothing (data out : Bytes) (e : SchcError) (out' : Bytes)
    (h : compress data out = .error e out' ∨ decompress data out = .error e out') :
    out' = out :=
  h.elim (preflights_compress out e out') (preflights_decompress out e out')

theorem small_room_writes_nothing : ∃ out',
    decompress (echoResidue [0, 0]) (List.replicate 47 7) = .error (.bufferTooSmall 48 47) out' ∧
      out' = List.replicate 47 7 := by
  have hdecompress : decompress (echoResidue [0, 0]) (List.replicate 47 7) =
      .error (.bufferTooSmall 48 47) (List.replicate 47 7) := by rfl
  exact ⟨_, hdecompress, failed_writes_nothing _ _ _ _ (.inr hdecompress)⟩

theorem MatchesRule.length_le (h : MatchesRule packet) (hfields : Ipv6Fields packet) :
    1 + ((encoding packet).2.1.length + 7) / 8 + (encoding packet).2.2.length ≤
      packet.length + 1 := by
  obtain ⟨-, hnext, -, -, -, hecho | hdio | hdao⟩ | ⟨-, hnext, hrule⟩ := h
  · rw [encoding_echo hnext hecho]
    have := hecho.2.2
    simp [echoBits]
    omega
  · rw [encoding_dio hnext hdio]
    have := hdio.2.2.1
    simp [dioBits]
    omega
  · rw [encoding_dao hnext hdao]
    have := hdao.2.2.1
    simp [daoBits]
    omega
  · have hudp := (hfields.udp hnext).length_le
    rw [List.length_drop] at hudp
    by_cases hport : u16At packet 40 = portMqttSn ∨ u16At packet 42 = portMqttSn
    · rw [encoding_mqttSn hnext hport]
      simp only [mqttBits, mqttAddressBits]
      split <;> simp <;> omega
    · obtain ⟨hmessage, -⟩ := hrule.resolve_left hport
      have := hmessage.1
      rw [encoding_coap hnext hport]
      simp only [coapBits, coapAddressBits]
      split <;> simp <;> omega

theorem valid_packet_transported (packet out : Bytes) (hlength : packet.length ≤ 22553)
    (hvalid : validateFullIpv6 packet = .ok ()) (hroom : packet.length + 1 ≤ out.length) :
    ∃ n out', compress packet out = .ok n out' ∧ n ≤ packet.length + 1 := by
  have hmax : maxPacketSize = 22554 := rfl
  have hfields := validateFullIpv6Structure_ok (validateFullIpv6_ok hvalid).1
  obtain ⟨hmatches, hcompresses⟩ | ⟨-, hraw⟩ := compress_cases (by omega) hvalid
  · have hle := hmatches.length_le hfields
    have hwritten := hcompresses.matched trivial out
    cases hresult : compress packet out with
    | ok =>
      rw [hresult] at hwritten
      obtain ⟨-, -, _, hwire, rfl, -⟩ := hwritten
      exact ⟨_, _, rfl, hwire.length_eq.trans_le hle⟩
    | error =>
      rw [hresult] at hwritten
      have := hwritten.2.2
      omega
  · have hlimit : ¬min usizeMax maxPacketSize < packet.length + 1 := by
      rw [show min usizeMax maxPacketSize = 22554 by decide]
      omega
    rw [hraw, encodeRule255, hvalid, ofExcept, pure_bind, checkRoom_of_le hroom,
      check_bind_of_not hlimit]
    exact ⟨_, _, rfl, le_rfl⟩

theorem echoRequest_transported : ∃ n out', compress (echoRequest [0x82, 0xB7] [0, 0])
    (List.replicate 49 0) = .ok n out' ∧ n ≤ 49 :=
  valid_packet_transported _ _ (by decide) (by decide +kernel) (by decide)

end Lichen.Schc
