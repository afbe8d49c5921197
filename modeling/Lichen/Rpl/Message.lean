import Lichen.Core.Types

namespace Lichen.Rpl

open Lichen.Lib Lichen.Core

inductive RplError where
  | tooShort (error : TooShort)
  | optionOverrun
  | badOptionType (optType : UInt8)
  | badRoutingType (routingType : UInt8)
  | bufferTooSmall (error : BufferTooSmall)
  | invalidOption
  | localInstanceId (id : UInt8)

def optPad1 : UInt8 := 0
def optRplTarget : UInt8 := 5
def optTransitInfo : UInt8 := 6
def optRplTargetDescriptor : UInt8 := 9
def optDaoOriginSignature : UInt8 := 0x12
def daoOriginSignatureDataLen : Nat := 56

/-- DAO base object. The D flag (bit 6 of byte 1) says whether the DODAGID is present. -/
structure Dao where
  rplInstanceId : UInt8
  ackRequested : Bool
  flags : UInt8
  daoSequence : UInt8
  dodagId : Option Ipv6Addr

namespace Dao

def baseLen (kd : UInt8) : Nat := if (kd >>> 6) &&& 1 = 1 then 20 else 4

def fromBytes (data : Bytes) : Except RplError Dao :=
  if data.length < 4 then .error (.tooShort ⟨4, data.length⟩)
  else
    let rplInstanceId := data.getD 0 0
    if rplInstanceId ≥ 0xC0 then .error (.localInstanceId rplInstanceId)
    else
      let kd := data.getD 1 0
      if data.length < baseLen kd then .error (.tooShort ⟨baseLen kd, data.length⟩)
      else
        let dodagId := if (kd >>> 6) &&& 1 = 1 then some (toArray 16 (data.extract 4 20)) else none
        .ok ⟨rplInstanceId, (kd >>> 7) &&& 1 = 1, kd &&& 0x3F, data.getD 3 0, dodagId⟩

def optionsTail (data : Bytes) : Bytes :=
  if data.length < 4 then [] else data.drop (baseLen (data.getD 1 0))

end Dao

structure Dio where
  rplInstanceId : UInt8
  version : UInt8
  rank : UInt16
  grounded : Bool
  modeOfOperation : UInt8
  preference : UInt8
  dtsn : UInt8
  flags : UInt8
  dodagId : Ipv6Addr

structure DaoOriginSignature where
  originSequence : Nat
  signature : List.Vector UInt8 48

def DaoOriginSignature.fromBytes (data : Bytes) : Except RplError DaoOriginSignature :=
  if data.length ≠ daoOriginSignatureDataLen then .error .invalidOption
  else .ok ⟨beNat (data.take 8), toArray 48 (data.drop 8)⟩

structure TransitInfo where
  external : Bool
  pathControl : UInt8
  pathSequence : UInt8
  pathLifetime : UInt8
  parentAddress : Ipv6Addr
  deriving DecidableEq

def TransitInfo.dataLen : Nat := 20

def TransitInfo.fromBytes (data : Bytes) : Except RplError TransitInfo :=
  if data.length ≠ dataLen ∨ data.getD 0 0 &&& 0x7f ≠ 0 then .error .invalidOption
  else .ok ⟨data.getD 0 0 &&& 0x80 ≠ 0, data.getD 1 0, data.getD 2 0, data.getD 3 0,
    toArray 16 (data.extract 4 20)⟩

structure RawOption where
  optType : UInt8
  data : Bytes

/-- The options an iterator over `data` yields from `pos` on, with the error that stops it. -/
def OptionIter.collect (data : Bytes) : Nat → Nat → List RawOption × Option RplError
  | 0, _ => ([], none)
  | fuel + 1, pos =>
    if pos ≥ data.length then ([], none)
    else if data.getD pos 0 = optPad1 then collect data fuel (pos + 1)
    else if pos + 2 > data.length then ([], some (.tooShort ⟨pos + 2, data.length⟩))
    else
      let length := (data.getD (pos + 1) 0).toNat
      if pos + 2 + length > data.length then ([], some .optionOverrun)
      else
        let (options, error) := collect data fuel (pos + 2 + length)
        (⟨data.getD pos 0, data.extract (pos + 2) (pos + 2 + length)⟩ :: options, error)

def optionIter (data : Bytes) : List RawOption × Option RplError :=
  OptionIter.collect data data.length 0

inductive DaoEnvelopeError where
  | rpl (error : RplError)
  | missingSignature
  | duplicateSignature
  | nonTerminalSignature
  | invalidOptionLength
  | unknownOption (optType : UInt8)

structure SignedDaoEnvelope where
  dao : Dao
  signedBytes : Bytes
  unsignedBytes : Bytes
  origin : DaoOriginSignature

def isGeneralizedTargetBody (body : Bytes) : Bool :=
  body.length ≥ 2 && body.getD 0 0 = 0 && body.getD 1 0 ≤ 128 &&
    body.length - 2 ≥ ((body.getD 1 0).toNat + 7) / 8

namespace SignedDaoEnvelope

def checkOption (optType : UInt8) (body : Bytes) : Except DaoEnvelopeError Unit :=
  if optType = optPad1 then .ok ()
  else if optType = optRplTarget then
    if isGeneralizedTargetBody body then .ok () else .error .invalidOptionLength
  else if optType = optTransitInfo then
    if body.length = TransitInfo.dataLen then .ok () else .error .invalidOptionLength
  else if optType = optRplTargetDescriptor then
    if body.length = 4 then .ok () else .error .invalidOptionLength
  else .error (.unknownOption optType)

/-- The loop of `from_bytes`: where the signature option stands and what it holds. -/
def scan (data : Bytes) : Nat → Nat → Option (Nat × DaoOriginSignature) →
    Except DaoEnvelopeError (Option (Nat × DaoOriginSignature))
  | 0, _, found => .ok found
  | fuel + 1, pos, found =>
    if pos ≥ data.length then .ok found
    else if data.getD pos 0 = optPad1 then
      if found.isSome then .error .nonTerminalSignature else scan data fuel (pos + 1) found
    else if pos + 2 > data.length then .error .invalidOptionLength
    else
      let stop := pos + 2 + (data.getD (pos + 1) 0).toNat
      let body := data.extract (pos + 2) stop
      if stop > data.length then .error .invalidOptionLength
      else if data.getD pos 0 = optDaoOriginSignature then
        if found.isSome then .error .duplicateSignature
        else
          match DaoOriginSignature.fromBytes body with
          | .error _ => .error .invalidOptionLength
          | .ok origin =>
            if origin.originSequence = 0 then .error .invalidOptionLength
            else scan data fuel stop (some (pos, origin))
      else if found.isSome then .error .nonTerminalSignature
      else
        match checkOption (data.getD pos 0) body with
        | .error error => .error error
        | .ok () => scan data fuel stop found

/-- Require one origin signature option, with exact length, as the final option. -/
def fromBytes (data : Bytes) : Except DaoEnvelopeError SignedDaoEnvelope :=
  match Dao.fromBytes data with
  | .error error => .error (.rpl error)
  | .ok dao =>
    if dao.flags ≠ 0 ∨ data.getD 2 0 ≠ 0 then .error (.rpl .invalidOption)
    else
      let base := data.length - (Dao.optionsTail data).length
      match scan data data.length base none with
      | .error error => .error error
      | .ok none => .error .missingSignature
      | .ok (some (unsignedLen, origin)) => .ok ⟨dao, data, data.take unsignedLen, origin⟩

def ValidSequence (sequence : Nat) : Prop := sequence ≠ 0 ∧ sequence < 2 ^ 64

theorem originSequence_lt (h : DaoOriginSignature.fromBytes data = .ok signature) :
    signature.originSequence < 2 ^ 64 := by
  rw [DaoOriginSignature.fromBytes] at h
  split at h
  · cases h
  · cases h
    have hlen : (data.take 8).length ≤ 8 := by simp
    exact lt_of_lt_of_le (beNat_lt _) (Nat.pow_le_pow_right (n := 256) (by decide) hlen)

theorem scan_valid (hfound : ∀ p, found = some p → ValidSequence p.2.originSequence)
    (h : scan data fuel pos found = .ok (some result)) : ValidSequence result.2.originSequence := by
  induction fuel generalizing pos found with
  | zero =>
    cases h
    exact hfound _ rfl
  | succ fuel ih =>
    simp only [scan] at h
    split at h
    · cases h
      exact hfound _ rfl
    split at h
    · split at h
      · cases h
      · exact ih hfound h
    split at h
    · cases h
    split at h
    · cases h
    split at h
    · split at h
      · cases h
      split at h
      · cases h
      rename_i horigin
      split at h
      · cases h
      rename_i hzero
      refine ih (fun p hp => ?_) h
      cases hp
      exact ⟨hzero, originSequence_lt horigin⟩
    split at h
    · cases h
    split at h
    · cases h
    · exact ih hfound h

theorem fromBytes_valid (h : SignedDaoEnvelope.fromBytes data = .ok envelope) :
    ValidSequence envelope.origin.originSequence := by
  simp only [SignedDaoEnvelope.fromBytes] at h
  split at h
  · cases h
  split at h
  · cases h
  split at h
  · cases h
  · cases h
  · rename_i unsignedLen origin hscan
    cases h
    exact scan_valid (by simp) hscan

end SignedDaoEnvelope

end Lichen.Rpl
