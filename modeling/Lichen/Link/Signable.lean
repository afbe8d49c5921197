import Lichen.Link.FrameWire
import Lichen.Link.LinkLayer

namespace Lichen.Link

open Lichen.Lib Lichen.Core

variable {data data' : Bytes} {frame frame' : LichenFrame}

namespace LichenFrame

theorem Valid.addrLen_le (h : frame.Valid) : frame.dstAddr.length ≤ 8 := by
  rw [h.length_dst]
  cases frame.addrMode <;> decide

theorem Valid.length_signer_of_present (h : frame.Valid) (hsigned : frame.signature = .present) :
    frame.signerEui64.length = 8 := by
  rw [h.length_signer, hsigned]
  rfl

theorem Valid.covers_signer (h : frame.Valid) (hsigned : frame.signature = .present) :
    frame.llsecByte &&& llsecSiBit ≠ 0 := by
  obtain ⟨-, -, -, -, hsigner⟩ := llsecByte_fields h.plaintext
  rw [hsigned] at hsigner
  exact of_decide_eq_true hsigner

end LichenFrame

theorem buildSignable_injective (hdst : dstAddr.length < 256) (hdst' : dstAddr'.length < 256)
    (hsigner : signer.length = signer'.length) (hcovers : llsec &&& llsecSiBit ≠ 0)
    (h : buildSignable length llsec epoch seqnum dstAddr signer payload =
      buildSignable length' llsec' epoch' seqnum' dstAddr' signer' payload') :
    length = length' ∧ llsec = llsec' ∧ epoch = epoch' ∧ seqnum = seqnum' ∧ dstAddr = dstAddr' ∧
      signer = signer' ∧ payload = payload' := by
  simp only [buildSignable, List.append_assoc, List.cons_append, List.nil_append] at h
  have h := List.append_cancel_left h
  injection h with hlength h
  injection h with hllsec h
  injection h with hepoch h
  subst hllsec
  obtain ⟨hseqnum, h⟩ := List.append_inj h (by rw [length_beBytes, length_beBytes])
  injection h with hdstLen h
  have hdstLength : dstAddr.length = dstAddr'.length := by
    have hnat := congrArg UInt8.toNat hdstLen
    rwa [UInt8.toNat_ofNat', UInt8.toNat_ofNat', Nat.mod_eq_of_lt hdst, Nat.mod_eq_of_lt hdst'] at hnat
  obtain ⟨hdstAddr, h⟩ := List.append_inj h hdstLength
  rw [if_pos hcovers, if_pos hcovers] at h
  obtain ⟨hsignerBytes, hpayload⟩ := List.append_inj h hsigner
  exact ⟨hlength, rfl, hepoch,
    UInt16.toNat_inj.mp (beBytes_inj seqnum.toNat_lt seqnum'.toNat_lt hseqnum), hdstAddr,
    hsignerBytes, hpayload⟩

/-- Two signed frames with one transcript agree in all that the transcript covers. -/
theorem signature_covers_frame (h : LichenFrame.fromBytes data = .ok frame)
    (h' : LichenFrame.fromBytes data' = .ok frame') (hsigned : frame.signature = .present)
    (hsigned' : frame'.signature = .present)
    (hsame : buildSignable (data.getD 0 0) frame.llsecByte frame.epoch frame.seqnum frame.dstAddr
        frame.signerEui64 frame.payload =
      buildSignable (data'.getD 0 0) frame'.llsecByte frame'.epoch frame'.seqnum frame'.dstAddr
        frame'.signerEui64 frame'.payload) :
    data.getD 0 0 = data'.getD 0 0 ∧ frame.llsecByte = frame'.llsecByte ∧
      frame.epoch = frame'.epoch ∧ frame.seqnum = frame'.seqnum ∧ frame.addrMode = frame'.addrMode ∧
      frame.dstAddr = frame'.dstAddr ∧ frame.signerEui64 = frame'.signerEui64 ∧
      frame.payload = frame'.payload := by
  obtain ⟨hvalid, -⟩ := LichenFrame.fromBytes_eq_ok.mp h
  obtain ⟨hvalid', -⟩ := LichenFrame.fromBytes_eq_ok.mp h'
  have hsigner : frame.signerEui64.length = frame'.signerEui64.length := by
    rw [hvalid.length_signer_of_present hsigned, hvalid'.length_signer_of_present hsigned']
  have hdst := hvalid.addrLen_le
  have hdst' := hvalid'.addrLen_le
  obtain ⟨hlength, hllsec, hepoch, hseqnum, hdstAddr, hsignerEui64, hpayload⟩ :=
    buildSignable_injective (by omega) (by omega) hsigner (hvalid.covers_signer hsigned) hsame
  have hmode : frame.addrMode = frame'.addrMode := by
    rw [← (LichenFrame.llsecByte_fields hvalid.plaintext).2.1, hllsec,
      (LichenFrame.llsecByte_fields hvalid'.plaintext).2.1]
  exact ⟨hlength, hllsec, hepoch, hseqnum, hmode, hdstAddr, hsignerEui64, hpayload⟩

def signedBroadcast (mic : UInt8) : LichenFrame :=
  ⟨1, 2, [], [1, 2, 3, 4, 5, 6, 7, 8], [0x61], List.replicate 48 mic, .none, .bits32, .present,
    .plaintext⟩

theorem signature_covers_signedBroadcast :
    (signedBroadcast 0).mic ≠ (signedBroadcast 1).mic ∧
    (signedBroadcast 0).llsecByte = (signedBroadcast 1).llsecByte ∧
    (signedBroadcast 0).payload = (signedBroadcast 1).payload := by
  have h : LichenFrame.fromBytes (signedBroadcast 0).wire = .ok (signedBroadcast 0) := by
    decide +kernel
  have h' : LichenFrame.fromBytes (signedBroadcast 1).wire = .ok (signedBroadcast 1) := by
    decide +kernel
  obtain ⟨-, hllsec, -, -, -, -, -, hpayload⟩ :=
    signature_covers_frame h h' rfl rfl (by decide +kernel)
  exact ⟨by decide, hllsec, hpayload⟩

end Lichen.Link
