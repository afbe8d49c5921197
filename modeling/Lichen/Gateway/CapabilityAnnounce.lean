import Lichen.Core.Types
import Lichen.Lib.HashMap
import Lichen.Client.Senml
import Lichen.Gateway.TunnelWire

namespace Lichen.Gateway

open Lichen.Client Lichen.Core Lichen.Lib

def capabilityTableCapacity : Nat := 256

def capabilityReserved : Nat := capabilityTableCapacity / 4

def capabilityEgressBit : UInt32 := 1

structure CapabilityEntry where
  iid : Iid
  capabilities : UInt32
  prefixBytes : List.Vector UInt8 16
  prefixLen : UInt8
  expiryUnix : UInt32
  seq : Nat

def CapabilityEntry.isEgress (entry : CapabilityEntry) : Bool :=
  entry.capabilities &&& capabilityEgressBit ≠ 0

structure CapabilitySlot where
  entry : CapabilityEntry
  tick : Nat

structure CapabilityTable where
  slots : HashMap Iid CapabilitySlot
  seqFloors : HashMap Iid Nat
  tick : Nat

namespace CapabilityTable

def new : CapabilityTable := ⟨.new, .new, 0⟩

def raiseSeqFloor (table : CapabilityTable) (iid : Iid) (seq : Nat) : CapabilityTable :=
  let floor := (table.seqFloors.get iid).getD seq
  { table with seqFloors := table.seqFloors.insert iid (if floor < seq then seq else floor) }

def staleFloor (table : CapabilityTable) (o : HashOrder) : Option Iid :=
  let stale := (table.seqFloors.iter o).filter fun floor => !table.slots.containsKey floor.1
  (stale.argmin fun floor => beNat floor.1.toList).map Prod.fst

/-- Each turn of the loop drops one floor, so it ends within as many turns as there are floors. -/
def dropStale (o : HashOrder) : Nat → CapabilityTable → CapabilityTable
  | 0, table => table
  | fuel + 1, table =>
    if table.seqFloors.len > capabilityTableCapacity then
      match table.staleFloor o with
      | some iid => dropStale o fuel { table with seqFloors := table.seqFloors.remove iid }
      | none => table
    else table

section

variable (table : CapabilityTable)

def boundSeqFloors (o : HashOrder) : CapabilityTable :=
  dropStale o table.seqFloors.len table

def regularCount : Nat :=
  table.slots.toPairs.countP fun slot => !slot.2.entry.isEgress

def evictLru (o : HashOrder) (allowEgress : Bool) :
    Option CapabilityTable :=
  let eligible := (table.slots.iter o).filter fun slot => allowEgress || !slot.2.entry.isEgress
  match eligible.argmin fun slot => slot.2.tick with
  | some (iid, slot) =>
    let table := (table.raiseSeqFloor iid slot.entry.seq).boundSeqFloors o
    some { table with slots := table.slots.remove iid }
  | none => none

def makeRoom (o : HashOrder) (egress : Bool) : Option CapabilityTable :=
  if table.slots.len ≥ capabilityTableCapacity then table.evictLru o egress
  else if !egress ∧ table.regularCount ≥ capabilityTableCapacity - capabilityReserved then
    table.evictLru o false
  else some table

def insert (o : HashOrder) (entry : CapabilityEntry) :
    Bool × CapabilityTable :=
  let table := { table with tick := table.tick + 1 }
  match table.slots.get entry.iid with
  | some slot =>
    if slot.entry.isEgress ∧ !entry.isEgress ∧
        table.regularCount ≥ capabilityTableCapacity - capabilityReserved then (false, table)
    else
      let slots := table.slots.insert entry.iid ⟨entry, table.tick⟩
      (true, { table with slots }.raiseSeqFloor entry.iid entry.seq)
  | none =>
    match table.makeRoom o entry.isEgress with
    | none => (false, table)
    | some room =>
      let bounded := (room.raiseSeqFloor entry.iid entry.seq).boundSeqFloors o
      (true, { bounded with slots := bounded.slots.insert entry.iid ⟨entry, table.tick⟩ })

def cachedSeq (iid : Iid) : Option Nat :=
  match (table.slots.get iid).map (·.entry.seq), table.seqFloors.get iid with
  | some entry, some floor => some (max entry floor)
  | some entry, none => some entry
  | none, some floor => some floor
  | none, none => none

end

end CapabilityTable

def reservedBitsMask : UInt32 := 0xFC

structure CapabilityPayload where
  capabilities : UInt32
  prefixBytes : Bytes
  prefixLen : UInt8
  expiry : Nat
  seq : Nat
  announcerIid : Iid

structure CapabilityAnnouncement where
  protectedHeader : Bytes
  payload : CapabilityPayload
  payloadBytes : Bytes
  signature : Signature

inductive AnnounceError
  | malformed
  | algorithmInvalid
  | kidMismatch
  | reservedBitsSet
  | iidMismatch
  | signatureInvalid
  | expired
  | replayDetected

section Decode

variable {F : Type}

def asBytes : Value F → Option Bytes
  | .bytes b => some b
  | _ => none

def asInt : Value F → Option Int
  | .integer i => some i
  | _ => none

def asUint (bound : Nat) (value : Value F) : Except AnnounceError Nat :=
  match asInt value with
  | some i => if 0 ≤ i ∧ i < bound then .ok i.toNat else .error .malformed
  | none => .error .malformed

def asArray (n : Nat) (bytes : Bytes) : Option (List.Vector UInt8 n) :=
  if h : bytes.length = n then some ⟨bytes, h⟩ else none

def malformedUnless : Option α → Except AnnounceError α
  | some a => .ok a
  | none => .error .malformed

def unprotectedKid : Value F → Option Iid
  | .map pairs => do
    let kid ← pairs.find? fun entry => asInt entry.1 = some 4
    asArray 8 (← asBytes kid.2)
  | _ => none

structure PayloadFields where
  capabilities : Option Nat := none
  prefixBytes : Option Bytes := none
  prefixLen : Option Nat := none
  expiry : Option Nat := none
  seq : Option Nat := none
  announcerIid : Option Iid := none

def PayloadFields.take (fields : PayloadFields) (entry : Value F × Value F) :
    Except AnnounceError PayloadFields :=
  let value := entry.2
  match asInt entry.1 with
  | some 1 => do return { fields with capabilities := some (← asUint (2 ^ 32) value) }
  | some 2 => do return { fields with prefixBytes := some (← malformedUnless (asBytes value)) }
  | some 3 => do return { fields with prefixLen := some (← asUint (2 ^ 8) value) }
  | some 4 => do return { fields with expiry := some (← asUint (2 ^ 64) value) }
  | some 5 => do return { fields with seq := some (← asUint (2 ^ 64) value) }
  | some 6 => do
    let bytes ← malformedUnless (asBytes value)
    return { fields with announcerIid := some (← malformedUnless (asArray 8 bytes)) }
  | _ => .ok fields

def PayloadFields.payload (fields : PayloadFields) : Except AnnounceError CapabilityPayload := do
  let capabilities ← malformedUnless fields.capabilities
  let prefixBytes ← malformedUnless fields.prefixBytes
  let prefixLen ← malformedUnless fields.prefixLen
  let expiry ← malformedUnless fields.expiry
  let seq ← malformedUnless fields.seq
  let announcerIid ← malformedUnless fields.announcerIid
  return ⟨UInt32.ofNat capabilities, prefixBytes, UInt8.ofNat prefixLen, expiry, seq, announcerIid⟩

section

variable (ciborium : Ciborium F)

def readValue (data : Bytes) : Except AnnounceError (Value F) :=
  match ciborium.fromReader data with
  | .ok (value, _) => .ok value
  | .error _ => .error .malformed

def readCapabilityPayload (payloadBytes : Bytes) :
    Except AnnounceError CapabilityPayload := do
  match ← readValue ciborium payloadBytes with
  | .map pairs =>
    let fields ← pairs.foldlM PayloadFields.take {}
    let payload ← fields.payload
    if payload.prefixLen > 128 then throw .malformed
    if payload.prefixBytes.length ≠ (payload.prefixLen.toNat + 7) / 8 then throw .malformed
    return payload
  | _ => throw .malformed

def checkAlgorithm (protectedBytes : Bytes) :
    Except AnnounceError Unit := do
  let alg := match ← readValue ciborium protectedBytes with
    | .map pairs => pairs.findSome? fun entry =>
      if asInt entry.1 = some 1 then asInt entry.2 else none
    | _ => none
  if alg ≠ some (-65537) then throw .algorithmInvalid

end

def coseParts : Value F → Except AnnounceError (Value F × Value F × Value F × Value F)
  | .tag _ (.array [a, b, c, d]) | .array [a, b, c, d] => .ok (a, b, c, d)
  | _ => .error .malformed

def fromCoseSign1 (ciborium : Ciborium F) (data : Bytes) :
    Except AnnounceError CapabilityAnnouncement := do
  let cose ← readValue ciborium data
  let (protectedPart, unprotected, payloadPart, signaturePart) ← coseParts cose
  let protectedBytes ← malformedUnless (asBytes protectedPart)
  let payloadBytes ← malformedUnless (asBytes payloadPart)
  let signatureBytes ← malformedUnless (asBytes signaturePart)
  let signature ← malformedUnless (asArray signatureLen signatureBytes)
  checkAlgorithm ciborium protectedBytes
  let payload ← readCapabilityPayload ciborium payloadBytes
  match unprotectedKid unprotected with
  | none => throw .kidMismatch
  | some kid =>
    if kid ≠ payload.announcerIid then throw .kidMismatch
    return ⟨protectedBytes, payload, payloadBytes, signature⟩

end Decode

def CapabilityAnnouncement.intoEntry (announcement : CapabilityAnnouncement) : CapabilityEntry :=
  let payload := announcement.payload
  { iid := payload.announcerIid
    capabilities := payload.capabilities
    prefixBytes := toArray 16 payload.prefixBytes
    prefixLen := payload.prefixLen
    expiryUnix := UInt32.ofNat (min payload.expiry (2 ^ 32 - 1))
    seq := payload.seq }

def sigStructureDigest (crypto : Crypto) (ciborium : Ciborium F)
    (protectedBytes payload : Bytes) : List.Vector UInt8 32 :=
  crypto.sha256 (ciborium.intoWriter
    (.array [.text "Signature1", .bytes protectedBytes, .bytes [], .bytes payload]))

def verifyAnnouncement (crypto : Crypto) (ciborium : Ciborium F)
    (announcement : CapabilityAnnouncement) (pubkey : PublicKey) (now : Nat)
    (cachedSeq : Option Nat) : Except AnnounceError Unit := do
  let payload := announcement.payload
  if payload.capabilities &&& reservedBitsMask ≠ 0 then throw .reservedBitsSet
  if payload.announcerIid ≠ iidFromPubkeyBytes crypto pubkey then throw .iidMismatch
  let digest := sigStructureDigest crypto ciborium announcement.protectedHeader
    announcement.payloadBytes
  if !crypto.verify pubkey digest.toList announcement.signature then throw .signatureInvalid
  if payload.expiry ≤ now then throw .expired
  if cachedSeq.any (payload.seq ≤ ·) then throw .replayDetected

inductive CapabilityResponse
  | unauthorized
  | forbidden
  | changed
  | serviceUnavailable
  deriving DecidableEq, Repr

/-- A POST to the resource with what the request layer knows of its peer, the clock (`none` is a
clock before the epoch) and the order in which the tables list their entries. -/
structure AnnouncePost where
  payload : Bytes
  oscoreVerified : Bool
  peerPubkey : Option PublicKey
  clock : Option Nat
  order : HashOrder

def handlePostCapabilityAnnounce (crypto : Crypto) (ciborium : Ciborium F)
    (table : CapabilityTable) (post : AnnouncePost) : CapabilityResponse × CapabilityTable :=
  if !post.oscoreVerified then (.unauthorized, table)
  else
    match post.peerPubkey with
    | none => (.unauthorized, table)
    | some pubkey =>
      match fromCoseSign1 ciborium post.payload with
      | .error _ => (.forbidden, table)
      | .ok announcement =>
        let now := post.clock.getD (2 ^ 64 - 1)
        let cachedSeq := table.cachedSeq announcement.payload.announcerIid
        match verifyAnnouncement crypto ciborium announcement pubkey now cachedSeq with
        | .error _ => (.forbidden, table)
        | .ok () =>
          match table.insert post.order announcement.intoEntry with
          | (true, table) => (.changed, table)
          | (false, table) => (.serviceUnavailable, table)

end Lichen.Gateway
