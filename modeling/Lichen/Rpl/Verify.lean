import Lichen.Core.Types
import Lichen.Lib.Guard
import Lichen.Rpl.Message

namespace Lichen.Rpl

open Lichen.Lib Lichen.Core

def daoOriginDomain : Bytes := "LICHEN-DAO-ORIGIN-v1".toUTF8.toList

inductive DaoMalformed where
  | missingSignature
  | duplicateSignature
  | nonTerminalSignature
  | invalidOptionLength
  | unknownOption (optType : UInt8)
  | invalidDao

inductive DaoVerifyError where
  | malformed (reason : DaoMalformed)
  | unknownKey
  | wrongInstance
  | wrongDodag
  | iidMismatch
  | badSignature

def mapEnvelopeError : DaoEnvelopeError → DaoVerifyError
  | .missingSignature => .malformed .missingSignature
  | .duplicateSignature => .malformed .duplicateSignature
  | .nonTerminalSignature => .malformed .nonTerminalSignature
  | .invalidOptionLength => .malformed .invalidOptionLength
  | .unknownOption optType => .malformed (.unknownOption optType)
  | .rpl _ => .malformed .invalidDao

def daoOriginDigest (crypto : Crypto) (origin dodagId : Ipv6Addr) (originSequence : Nat)
    (unsignedDao : Bytes) : List.Vector UInt8 64 :=
  crypto.sha512 (daoOriginDomain ++ origin.toList ++ dodagId.toList ++ beBytes 8 originSequence ++
    unsignedDao)

structure SignatureVerifiedDao where
  envelope : SignedDaoEnvelope
  origin : Ipv6Addr
  publicKey : PublicKey
  signedDaoSha256 : List.Vector UInt8 32

def zeroAddr : Ipv6Addr := List.Vector.replicate 16 0

def SignatureVerifiedDao.verifySignature (crypto : Crypto) (wire : Bytes) (origin : Ipv6Addr)
    (rplInstanceId : UInt8) (activeDodagId : Ipv6Addr) (pinnedKey : Option PublicKey) :
    Except DaoVerifyError SignatureVerifiedDao := do
  let dao ← (Dao.fromBytes wire).mapError fun _ => .malformed .invalidDao
  if dao.flags ≠ 0 ∨ wire.getD 2 0 ≠ 0 then throw (.malformed .invalidDao)
  if dao.rplInstanceId ≠ rplInstanceId then throw .wrongInstance
  if dao.dodagId.any fun id => id ≠ zeroAddr && id ≠ activeDodagId then throw .wrongDodag
  let envelope ← (SignedDaoEnvelope.fromBytes wire).mapError mapEnvelopeError
  let some pinnedKey := pinnedKey | throw .unknownKey
  if origin ≠ yggAddrFromPubkey pinnedKey then throw .iidMismatch
  let effectiveDodagId := (envelope.dao.dodagId.filter (· ≠ zeroAddr)).getD activeDodagId
  let digest := daoOriginDigest crypto origin effectiveDodagId envelope.origin.originSequence
    envelope.unsignedBytes
  if !crypto.verify pinnedKey digest.toList envelope.origin.signature then throw .badSignature
  return ⟨envelope, origin, pinnedKey, crypto.sha256 wire⟩

theorem verifySignature_ok (h : SignatureVerifiedDao.verifySignature crypto wire origin rplInstanceId
      activeDodagId pinnedKey = .ok verified) :
    SignedDaoEnvelope.fromBytes wire = .ok verified.envelope ∧ verified.origin = origin ∧
      verified.origin = yggAddrFromPubkey verified.publicKey := by
  simp only [SignatureVerifiedDao.verifySignature, bind_eq_ok, guard_eq_ok, mapError_eq_ok] at h
  obtain ⟨_, -, -, -, -, envelope, henvelope, h⟩ := h
  cases pinnedKey with
  | none => cases h
  | some =>
    simp only [guard_eq_ok, pure_eq_ok] at h
    obtain ⟨horigin, -, rfl⟩ := h
    exact ⟨henvelope, rfl, not_not.mp horigin⟩

end Lichen.Rpl
