import Lichen.Lib.Guard
import Lichen.Link.Frame
import Mathlib.Data.FinEnum

namespace Lichen.Link.LichenFrame

open Lichen.Lib Lichen.Core

variable {data buf : Bytes} {frame : LichenFrame}

def body (frame : LichenFrame) : Bytes :=
  [frame.llsecByte, frame.epoch] ++ (beBytes 2 frame.seqnum.toNat ++
    (frame.dstAddr ++ (frame.signerEui64 ++ (frame.payload ++ frame.mic))))

def wire (frame : LichenFrame) : Bytes := UInt8.ofNat frame.bodyLen :: frame.body

structure Valid (frame : LichenFrame) : Prop where
  plaintext : frame.encryption = .plaintext
  length_dst : frame.dstAddr.length = frame.addrMode.addrLen
  length_mic : frame.mic.length = if frame.signature.isPresent then 48 else 0
  length_signer : frame.signerEui64.length = if frame.signature.isPresent then 8 else 0
  bodyLen_le : frame.bodyLen ≤ maxFrameBody

theorem length_body (frame : LichenFrame) : frame.body.length = frame.bodyLen := by
  simp only [body, bodyLen, List.length_append, List.length_cons, List.length_nil, length_beBytes]
  omega

theorem length_wire (frame : LichenFrame) : frame.wire.length = 1 + frame.bodyLen := by
  rw [wire, List.length_cons, length_body, Nat.add_comm]

theorem writeFields_eq (h : frame.wire.length ≤ buf.length) :
    (frame.writeFields buf).1 = frame.wire.length ∧
      (frame.writeFields buf).2.take frame.wire.length = frame.wire := by
  have hlength := frame.length_wire
  have hpieces : [[UInt8.ofNat frame.bodyLen, frame.llsecByte, frame.epoch] ++
      beBytes 2 frame.seqnum.toNat, frame.dstAddr, frame.signerEui64, frame.payload,
      frame.mic].flatten = frame.wire := by
    simp [wire, body]
  refine ⟨?_, ?_⟩
  · rw [hlength, bodyLen, writeFields]
    omega
  · have htake := take_overwriteAll buf 0 (by rwa [hpieces, Nat.zero_add])
    rwa [hpieces, Nat.zero_add, List.take_zero, List.nil_append] at htake

theorem writeTo_eq_ok : frame.writeTo buf = .ok result ↔
      frame.Valid ∧ frame.wire.length ≤ buf.length ∧ frame.writeFields buf = result := by
  have hsigner : ¬(!if frame.signature.isPresent then decide (frame.signerEui64.length = 8)
      else frame.signerEui64.isEmpty) = true ↔
      frame.signerEui64.length = if frame.signature.isPresent then 8 else 0 := by
    split <;> simp
  have hplaintext : ¬frame.encryption.isEncrypted = true ↔ frame.encryption = .plaintext := by
    cases frame.encryption <;> simp [Encryption.isEncrypted]
  simp only [writeTo, guard_eq_ok, pure_eq_ok, hsigner, hplaintext, not_not, Nat.not_lt]
  rw [frame.length_wire]
  constructor
  · rintro ⟨hplain, hdst, hmic, hsigner, hbody, hroom, h⟩
    exact ⟨⟨hplain, hdst.symm, hmic, hsigner, hbody⟩, hroom, h⟩
  · rintro ⟨hvalid, hroom, h⟩
    exact ⟨hvalid.plaintext, hvalid.length_dst.symm, hvalid.length_mic, hvalid.length_signer,
      hvalid.bodyLen_le, hroom, h⟩

theorem llsecByte_fields (h : frame.encryption = .plaintext) :
    frame.llsecByte &&& encryptedBit = 0 ∧ addrModeOf frame.llsecByte = frame.addrMode ∧
      MicLength.fromU8 ((frame.llsecByte >>> micLenShift) &&& micLenMask) = some frame.micLength ∧
      decide (frame.llsecByte &&& signatureBit ≠ 0) = frame.signature.isPresent ∧
      decide (frame.llsecByte &&& signerEui64Bit ≠ 0) = frame.signature.isPresent := by
  rw [llsecByte, h]
  cases frame.addrMode <;> cases frame.micLength <;> cases frame.signature <;> decide

theorem body_extract (frame : LichenFrame) : frame.body.extract 2 4 = beBytes 2 frame.seqnum.toNat ∧
    frame.body.extract 4 (4 + frame.dstAddr.length) = frame.dstAddr ∧
    frame.body.extract (4 + frame.dstAddr.length)
      (4 + frame.dstAddr.length + frame.signerEui64.length) = frame.signerEui64 ∧
    frame.body.extract (4 + frame.dstAddr.length + frame.signerEui64.length)
      (frame.bodyLen - frame.mic.length) = frame.payload ∧
    frame.body.drop (frame.bodyLen - frame.mic.length) = frame.mic := by
  have hbody : frame.body = [[frame.llsecByte, frame.epoch], beBytes 2 frame.seqnum.toNat,
      frame.dstAddr, frame.signerEui64, frame.payload, frame.mic].flatten := by
    simp [body]
  have hend : frame.bodyLen - frame.mic.length =
      4 + frame.dstAddr.length + frame.signerEui64.length + frame.payload.length := by
    rw [bodyLen]
    omega
  rw [hend, hbody]
  refine ⟨extract_piece 1 rfl ?_ ?_, extract_piece 2 rfl ?_ ?_, extract_piece 3 rfl ?_ ?_,
    extract_piece 4 rfl ?_ ?_, (drop_pieces 5 ?_).trans (List.append_nil _)⟩
  all_goals simp
  all_goals omega

theorem fromBytes_wire (h : frame.Valid) : fromBytes frame.wire = .ok frame := by
  have hlength := frame.length_wire
  have hle : frame.bodyLen ≤ 254 := h.bodyLen_le
  have hbodyLen : frame.bodyLen = 4 + frame.addrMode.addrLen +
      (if frame.signature.isPresent then 8 else 0) + frame.payload.length +
      (if frame.signature.isPresent then 48 else 0) := by
    rw [bodyLen, h.length_dst, h.length_signer, h.length_mic]
  obtain ⟨hencrypted, haddr, hmic, hsig, hsigner⟩ := llsecByte_fields h.plaintext
  obtain ⟨hseqnum, hdst, hsignerBytes, hpayload, hmicBytes⟩ := frame.body_extract
  rw [h.length_dst] at hdst hsignerBytes hpayload
  rw [h.length_signer] at hsignerBytes hpayload
  rw [h.length_mic] at hpayload hmicBytes
  have hfirst : (frame.wire.getD 0 0).toNat = frame.bodyLen := by
    rw [wire, List.getD_cons_zero, UInt8.toNat_ofNat', Nat.mod_eq_of_lt (by omega)]
  have hbody : frame.wire.extract 1 (1 + frame.bodyLen) = frame.body := by
    rw [wire, ← frame.length_body]
    exact extract_tail _ _
  have hllsec : frame.body.getD 0 0 = frame.llsecByte := rfl
  have hepoch : frame.body.getD 1 0 = frame.epoch := rfl
  have hseq : UInt16.ofNat (beNat (frame.body.extract 2 4)) = frame.seqnum := by
    rw [hseqnum, beNat_beBytes_of_lt (n := 2) frame.seqnum.toNat_lt, UInt16.ofNat_toNat]
  have hsignature : (if frame.signature.isPresent then Signature.present else .absent) =
      frame.signature := by
    cases frame.signature <;> rfl
  simp only [fromBytes, guard_eq_ok, hfirst, hbody, hllsec, hepoch, haddr, hmic, hsig, hsigner,
    frame.length_body, hmicBytes, hsignature, pure_eq_ok]
  refine ⟨by simp [wire], ?_, ?_, by omega, by omega, by omega, by rw [hencrypted]; simp, by simp,
    by omega, ?_⟩
  · change ¬255 < _
    omega
  · change ¬254 < _
    omega
  · rw [hfirst, hbody, hseq, hdst, hsignerBytes, hpayload, ← h.plaintext]

theorem llsecByte_eq (hencrypted : llsec &&& encryptedBit = 0)
    (haddr : frame.addrMode = addrModeOf llsec)
    (hmic : MicLength.fromU8 ((llsec >>> micLenShift) &&& micLenMask) = some frame.micLength)
    (hsig : frame.signature.isPresent = decide (llsec &&& signatureBit ≠ 0))
    (hsigner : decide (llsec &&& signatureBit ≠ 0) = decide (llsec &&& signerEui64Bit ≠ 0))
    (hplaintext : frame.encryption = .plaintext) : frame.llsecByte = llsec := by
  rw [llsecByte, haddr, hsig, hplaintext]
  clear haddr hsig
  generalize frame.micLength = micLength at hmic ⊢
  cases micLength <;> (revert llsec; decide +kernel)

theorem beBytes_seqnum (h : bytes.length = 2) :
    beBytes 2 (UInt16.ofNat (beNat bytes)).toNat = bytes := by
  have hlt : beNat bytes < 2 ^ 16 := by
    have hlt := beNat_lt bytes
    rwa [h] at hlt
  rw [UInt16.toNat_ofNat', Nat.mod_eq_of_lt hlt, ← h, beBytes_beNat]

theorem split_body {body : Bytes} (h : 4 + addrLen + signerLen + micLen ≤ body.length) :
    [body.getD 0 0, body.getD 1 0] ++ (body.extract 2 4 ++ (body.extract 4 (4 + addrLen) ++
      (body.extract (4 + addrLen) (4 + addrLen + signerLen) ++
      (body.extract (4 + addrLen + signerLen) (body.length - micLen) ++
      body.drop (body.length - micLen))))) = body := by
  rw [← drop_eq_extract_append body (by omega), ← drop_eq_extract_append body (by omega),
    ← drop_eq_extract_append body (by omega), ← drop_eq_extract_append body (by omega),
    ← drop_eq_pair_append (by omega), List.drop_zero]

theorem wire_of_fromBytes (h : fromBytes data = .ok frame) : frame.Valid ∧ frame.wire = data := by
  cases data with
  | nil => cases h
  | cons first body =>
    simp only [fromBytes, guard_eq_ok, List.length_cons] at h
    obtain ⟨-, hmax, hbodyMax, htrailing, hshort, hmin, h⟩ := h
    have hlen : ((first :: body).getD 0 0).toNat = body.length := by omega
    rw [hlen, extract_tail] at h
    obtain ⟨hencrypted, h⟩ := h
    split at h
    · next micLength hmic =>
      simp only [guard_eq_ok, pure_eq_ok, not_not] at h hencrypted
      obtain ⟨hsigner, hminBody, h⟩ := h
      have hpresent : ∀ c : Bool, (if c then Signature.present else .absent).isPresent = c := by
        decide
      rw [Nat.not_lt] at hminBody
      have hllsec : frame.llsecByte = body.getD 0 0 := by
        subst h
        exact llsecByte_eq hencrypted rfl hmic (hpresent _) hsigner rfl
      have hseqnum : (body.extract 2 4).length = 2 := length_extract_of_le (by omega)
      have hbody : frame.body = body := by
        rw [LichenFrame.body, hllsec, ← h, beBytes_seqnum hseqnum]
        exact split_body hminBody
      refine ⟨⟨?_, ?_, ?_, ?_, ?_⟩, ?_⟩
      · rw [← h]
      · rw [← h]
        exact (length_extract_of_le (by omega)).trans (Nat.add_sub_cancel_left ..)
      · rw [← h, hpresent]
        simp only [List.length_drop]
        omega
      · rw [← h, hpresent, hsigner]
        exact (length_extract_of_le (by omega)).trans (Nat.add_sub_cancel_left ..)
      · rw [← frame.length_body, hbody]
        omega
      · rw [wire, ← frame.length_body, hbody, ← hlen, UInt8.ofNat_toNat, List.getD_cons_zero]
    · cases h

theorem fromBytes_eq_ok : fromBytes data = .ok frame ↔ frame.Valid ∧ frame.wire = data := by
  constructor
  · exact wire_of_fromBytes
  · rintro ⟨hvalid, rfl⟩
    exact fromBytes_wire hvalid

/-- A frame that was parsed is serialized to the bytes it was parsed from, in every buffer they fit
in, and what is serialized is parsed to the same frame. -/
theorem parsed_iff_serialized :
    (∀ data frame, fromBytes data = .ok frame → ∀ buf, data.length ≤ buf.length →
      ∃ buf', frame.writeTo buf = .ok (data.length, buf') ∧ buf'.take data.length = data) ∧
    ∀ frame buf n buf', writeTo frame buf = .ok (n, buf') → fromBytes (buf'.take n) = .ok frame := by
  constructor
  · intro data frame h buf hroom
    obtain ⟨hvalid, rfl⟩ := fromBytes_eq_ok.mp h
    obtain ⟨hlength, htake⟩ := writeFields_eq hroom
    refine ⟨(frame.writeFields buf).2, writeTo_eq_ok.mpr ⟨hvalid, hroom, ?_⟩, htake⟩
    rw [← hlength]
  · intro frame buf n buf' h
    obtain ⟨hvalid, hroom, heq⟩ := writeTo_eq_ok.mp h
    obtain ⟨rfl, htake⟩ : n = frame.wire.length ∧ buf'.take frame.wire.length = frame.wire := by
      have hfields := writeFields_eq hroom
      rwa [heq] at hfields
    rw [htake]
    exact fromBytes_wire hvalid

def broadcast : LichenFrame :=
  ⟨1, 2, [], [], [0x61, 0x62, 0x63], [], .none, .bits32, .absent, .plaintext⟩

theorem broadcast_parsed_and_serialized :
    (∃ buf', broadcast.writeTo (List.replicate 8 0) = .ok (8, buf') ∧
      buf'.take 8 = [7, 0, 1, 0, 2, 0x61, 0x62, 0x63]) ∧
    fromBytes ((broadcast.writeFields (List.replicate 9 0)).2.take 8) = .ok broadcast :=
  ⟨parsed_iff_serialized.1 [7, 0, 1, 0, 2, 0x61, 0x62, 0x63] broadcast (by decide +kernel)
      (List.replicate 8 0) (by decide),
    parsed_iff_serialized.2 broadcast (List.replicate 9 0) 8 _ (by decide +kernel)⟩

end Lichen.Link.LichenFrame
