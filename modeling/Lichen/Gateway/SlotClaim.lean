import Lichen.Gateway.SlotAllocator
import Lichen.Gateway.TunnelWire
import Lichen.Lib.Readers

namespace Lichen.Gateway

open Lichen.Lib Lichen.Core Reader

structure SlotClaimPayload where
  slots : List UInt32
  superframeEpoch : UInt64
  mode : AllocationMode
  expiry : UInt64
  gatewayIid : Iid
  claimSeq : UInt32
  ordinal : Option UInt64

def AllocationMode.code : AllocationMode → UInt64
  | interleaved => 0
  | contiguous => 1

def cborUint (value : Nat) : Bytes := cborHead 0 value

def cborBstr (bytes : Bytes) : Bytes := cborHead 2 bytes.length ++ bytes

namespace SlotClaimPayload

def canonical (claim : SlotClaimPayload) : Bytes :=
  cborHead 5 (if claim.ordinal.isSome then 7 else 6) ++
    (cborUint 1 ++ cborHead 4 claim.slots.length ++ claim.slots.flatMap (cborUint ·.toNat)) ++
    (cborUint 2 ++ cborUint claim.superframeEpoch.toNat) ++
    (cborUint 3 ++ cborUint claim.mode.code.toNat) ++
    (cborUint 4 ++ cborUint claim.expiry.toNat) ++
    (cborUint 5 ++ cborBstr claim.gatewayIid.toList) ++
    (cborUint 6 ++ cborUint claim.claimSeq.toNat) ++
    claim.ordinal.elim [] fun ordinal => cborUint 7 ++ cborUint ordinal.toNat

def encodeCanonical (claim : SlotClaimPayload) : Except SlotError Bytes :=
  if 9 * claim.slots.length + 64 < claim.canonical.length then .error .malformedClaim
  else .ok claim.canonical

end SlotClaimPayload

/-- The digest that is signed, of a structure written to a buffer of `payload + 32` bytes. -/
def coseSigDigest (crypto : Crypto) (payload : Bytes) : Except SlotError (List.Vector UInt8 32) :=
  let input := [0x84] ++ cborHead 3 signatureContext.length ++ signatureContext ++
    cborBstr protectedHeader ++ cborBstr [] ++ cborBstr payload
  if payload.length + 32 < input.length then .error .malformedClaim else .ok (crypto.sha256 input)

def SlotClaimPayload.coseSigDigest (crypto : Crypto) (claim : SlotClaimPayload) :
    Except SlotError (List.Vector UInt8 32) := do
  Gateway.coseSigDigest crypto (← claim.encodeCanonical)

inductive ClaimSigForm where
  | domainTranscript
  | coseSign1

structure RawSlotClaim where
  gatewayIid : Iid
  slots : List UInt32
  superframeId : UInt64
  claimSequence : UInt32
  mode : AllocationMode
  expiry : UInt64
  ordinal : Option UInt64
  signature : Signature
  sigForm : ClaimSigForm
  cosePayload : Option Bytes

def validateClaimSlots (slots : List UInt32) (slotsPerSuperframe : Nat) : Except SlotError Unit :=
  let windows := slots.zip slots.tail
  if slotsPerSuperframe = 0 ∨ maxSlotsPerSuperframe < slotsPerSuperframe then
    .error .invalidDimensions
  else if slotsPerSuperframe < slots.length then .error .tooManySlots
  else if slots.any (slotsPerSuperframe ≤ ·.toNat) then .error .invalidSlot
  else if windows.any fun pair => pair.1 = pair.2 then .error .duplicateSlot
  else if windows.any fun pair => pair.2 < pair.1 then .error .nonCanonicalSlots
  else .ok ()

abbrev ClaimReader := ByteReader SlotError

def malformed (reader : Reader α) : ClaimReader α :=
  ByteReader.mapError (fun _ => .malformedClaim) reader

structure ClaimEntries where
  slots : Option (List UInt32)
  superframeEpoch : Option UInt64
  mode : Option UInt64
  expiry : Option UInt64
  claimSeq : Option UInt32
  ordinal : Option UInt64
  seen : UInt8
  lastKey : UInt64

def ClaimEntries.none : ClaimEntries :=
  ⟨Option.none, Option.none, Option.none, Option.none, Option.none, Option.none, 0, 0⟩

def readUInt32 : ClaimReader UInt32 := do
  let value ← malformed uint
  if value.toNat < 2 ^ 32 then return value.toUInt32 else throw .malformedClaim

def readSlots : Nat → ClaimReader (List UInt32)
  | 0 => return []
  | count + 1 => do
    let slot ← readUInt32
    return slot :: (← readSlots count)

def readEntry (gatewayIid : Iid) (key : UInt64) (entries : ClaimEntries) :
    ClaimReader ClaimEntries := do
  if key = 1 then
    let count ← malformed (head 4)
    if maxSlotsPerSuperframe < count.toNat then throw .tooManySlots
    return { entries with slots := some (← readSlots count.toNat) }
  else if key = 2 then return { entries with superframeEpoch := some (← malformed uint) }
  else if key = 3 then return { entries with mode := some (← malformed uint) }
  else if key = 4 then return { entries with expiry := some (← malformed uint) }
  else if key = 5 then
    let iid ← malformed bstr
    if iid ≠ gatewayIid.toList then throw .identityMismatch
    return entries
  else if key = 6 then return { entries with claimSeq := some (← readUInt32) }
  else return { entries with ordinal := some (← malformed uint) }

def readPairs (gatewayIid : Iid) : Nat → ClaimEntries → ClaimReader ClaimEntries
  | 0, entries => return entries
  | pairs + 1, entries => do
    let key ← malformed uint
    if key = 0 ∨ 7 < key ∨ key ≤ entries.lastKey ∨ entries.seen &&& (1 <<< key.toUInt8) ≠ 0 then
      throw .malformedClaim
    let entries ← readEntry gatewayIid key
      { entries with lastKey := key, seen := entries.seen ||| (1 <<< key.toUInt8) }
    readPairs gatewayIid pairs entries

def readClaimEntries (gatewayIid : Iid) : ClaimReader ClaimEntries := do
  let pairs ← malformed (head 5)
  if pairs ≠ 7 then throw .malformedClaim
  let entries ← readPairs gatewayIid pairs.toNat .none
  if ¬(← malformed finished) then throw .malformedClaim
  return entries

def readClaimEnvelope : ClaimReader (Iid × Bytes × Signature) := do
  malformed (exact 0x84)
  let header ← malformed bstr
  if header ≠ protectedHeader then
    throw (if [0xA1, 0x01].isPrefixOf header then .unsupportedAlgorithm else .malformedClaim)
  malformed (exact 0xA1)
  malformed (uintExact 4)
  let gatewayIid ← malformed (array 8 .malformedCbor)
  let payload ← malformed bstr
  let signature ← malformed (array signatureLen .malformedCbor)
  if ¬(← malformed finished) then throw .malformedClaim
  return (gatewayIid, payload, signature)

namespace RawSlotClaim

def fromCose (envelope : Bytes) (slotsPerSuperframe : Nat) : Except SlotError RawSlotClaim := do
  let (gatewayIid, payload, signature) ← readClaimEnvelope.run' envelope
  let entries ← (readClaimEntries gatewayIid).run' payload
  if entries.seen &&& 0xFE ≠ 0xFE then throw .malformedClaim
  if entries.ordinal.all (maxCoordinatingGateways ≤ ·.toNat) then throw .invalidOrdinal
  let mode ← match entries.mode with
    | some 0 => pure .interleaved
    | some 1 => pure .contiguous
    | _ => throw .malformedClaim
  let some slots := entries.slots | throw .malformedClaim
  validateClaimSlots slots slotsPerSuperframe
  let some superframeId := entries.superframeEpoch | throw .malformedClaim
  let some claimSequence := entries.claimSeq | throw .malformedClaim
  let some expiry := entries.expiry | throw .malformedClaim
  return {
    gatewayIid, slots, superframeId, claimSequence, mode, expiry, ordinal := entries.ordinal
    signature, sigForm := .coseSign1, cosePayload := some payload }

def coseSigDigest (crypto : Crypto) (claim : RawSlotClaim) : Except SlotError (List.Vector UInt8 32) :=
  match claim.cosePayload with
  | none => .error .malformedClaim
  | some payload => Gateway.coseSigDigest crypto payload

def payload (claim : RawSlotClaim) : SlotClaimPayload :=
  ⟨claim.slots, claim.superframeId, claim.mode, claim.expiry, claim.gatewayIid, claim.claimSequence,
    claim.ordinal⟩

end RawSlotClaim

def encodeCose (gatewayIid : Iid) (payload : Bytes) (signature : Signature) : Bytes :=
  [0x84] ++ cborBstr protectedHeader ++ [0xA1] ++ [0x04] ++ cborBstr gatewayIid.toList ++
    cborBstr payload ++ cborBstr signature.toList

end Lichen.Gateway
