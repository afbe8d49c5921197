import Lichen.Hal.Storage
import Lichen.Lib.HashMap
import Lichen.Rpl.Message
import Mathlib.Data.List.Sort

namespace Lichen.Rpl

open Lichen.Lib Lichen.Core Lichen.Hal

def daoTxKeys : SlotKeys := ⟨"rpl.tx.a", "rpl.tx.b", by decide⟩
def daoTxMagic : Magic := ⟨[0x44, 0x54, 0x58, 0x32], rfl⟩
def slotOverhead : Nat := 24
def daoTxHeaderLen : Nat := 75
def maxSignedDaoLen : Nat := 255
def daoTxPayloadLen : Nat := daoTxHeaderLen + maxSignedDaoLen
def daoRxKeys : SlotKeys := ⟨"rpl.rx.a", "rpl.rx.b", by decide⟩
def daoRxMagic : Magic := ⟨[0x44, 0x52, 0x58, 0x32], rfl⟩
def maxDaoOrigins : Nat := 256
def highWaterEntryLen : Nat := 72
def highWaterScopeLen : Nat := 33
def highWaterHeaderLen : Nat := highWaterScopeLen + 2
def highWaterPayloadLen : Nat := highWaterHeaderLen + maxDaoOrigins * highWaterEntryLen

inductive DaoPersistentOpenError (E : Type) where
  | missing
  | corrupt
  | alreadyProvisioned
  | storage (error : E)
  | keyMismatch
  | scopeMismatch

inductive DaoProvisionError (E : Type) where
  | open (error : DaoPersistentOpenError E)
  | storage (error : E)

inductive DaoTxError (E : Type) where
  | persistence (error : E)
  | stale
  | corrupt
  | exhausted
  | oversized
  | invalidState
  | keyMismatch
  | notJoined
  | invalidOrigin
  | encoding

def mapTxUpdateError : RedundantUpdateError E → DaoTxError E
  | .storage error => .persistence error
  | .stale => .stale
  | .exhausted => .exhausted
  | .corrupt => .corrupt

def mapOpenError : RedundantOpenError E → DaoPersistentOpenError E
  | .missing => .missing
  | .corrupt => .corrupt
  | .bufferTooSmall => .corrupt
  | .storage error => .storage error

structure DaoTxScope where
  publicKey : PublicKey
  localOrigin : Ipv6Addr
  rplInstanceId : UInt8
  dodagId : Ipv6Addr

structure DaoTxState extends DaoTxScope where
  current : RedundantValue
  lastReserved : Nat
  lastSignedDao : Bytes

def encodeTxState (scope : DaoTxScope) (sequence : Nat) (signedDao : Bytes) : Option Bytes :=
  if signedDao.length > maxSignedDaoLen then none
  else some (scope.publicKey.toList ++ scope.localOrigin.toList ++ [scope.rplInstanceId] ++
    scope.dodagId.toList ++ beBytes 8 sequence ++ beBytes 2 signedDao.length ++ signedDao)

namespace DaoTxState

variable {S E : Type} [NonVolatile S E]

def «open» (storage : S) (expected : DaoTxScope) :
    Except (DaoPersistentOpenError E) DaoTxState :=
  let buf := daoTxPayloadLen + slotOverhead
  match openRedundant storage daoTxKeys daoTxMagic buf buf daoTxPayloadLen with
  | .error error => .error (mapOpenError error)
  | .ok (current, payload) =>
    if current.len < daoTxHeaderLen then .error .corrupt
    else if payload.take 32 ≠ expected.publicKey.toList then .error .keyMismatch
    else if payload.extract 32 48 ≠ expected.localOrigin.toList ∨
        payload.extract 48 49 ≠ [expected.rplInstanceId] ∨
        payload.extract 49 65 ≠ expected.dodagId.toList then .error .scopeMismatch
    else
      let signedLen := beNat (payload.extract 73 75)
      if signedLen > maxSignedDaoLen ∨ current.len ≠ daoTxHeaderLen + signedLen then
        .error .corrupt
      else .ok { expected with
        current
        lastReserved := beNat (payload.extract 65 73)
        lastSignedDao := payload.extract daoTxHeaderLen current.len }

def provision (storage : S) (expected : DaoTxScope) :
    Option (Except (DaoProvisionError E) DaoTxState) × S :=
  match DaoTxState.open storage expected with
  | .ok _ => (some (.error (.open .alreadyProvisioned)), storage)
  | .error (.storage error) => (some (.error (.storage error)), storage)
  | .error .missing =>
    match encodeTxState expected 0 [] with
    | none => (none, storage)
    | some payload =>
      let (provisioned, storage) := provisionRedundant storage daoTxKeys daoTxMagic payload
        (daoTxHeaderLen + slotOverhead)
      match provisioned with
      | none => (none, storage)
      | some (.error .exists) => (some (.error (.open .corrupt)), storage)
      | some (.error (.storage error)) => (some (.error (.storage error)), storage)
      | some (.ok ()) => (some ((DaoTxState.open storage expected).mapError .open), storage)
  | .error error => (some (.error (.open error)), storage)

/-- The step the three writers share: store the new record, then take it over in memory and
return `value`. `none` is the panic of a record buffer too small for the payload. -/
def commit (tx : DaoTxState) (storage : S) (sequence : Nat) (signedDao : Bytes) (value : α) :
    Option (Except (DaoTxError E) α) × DaoTxState × S :=
  match encodeTxState tx.toDaoTxScope sequence signedDao with
  | none => (some (.error .oversized), tx, storage)
  | some payload =>
    let (updated, storage) := updateRedundant storage daoTxKeys daoTxMagic tx.current payload
      (daoTxPayloadLen + slotOverhead)
    match updated with
    | none => (none, tx, storage)
    | some (.error error) => (some (.error (mapTxUpdateError error)), tx, storage)
    | some (.ok current) => (some (.ok value),
        { tx with current, lastReserved := sequence, lastSignedDao := signedDao }, storage)

def reserveNext (tx : DaoTxState) (storage : S) :
    Option (Except (DaoTxError E) Nat) × DaoTxState × S :=
  if tx.lastReserved + 1 ≥ 2 ^ 64 then (some (.error .exhausted), tx, storage)
  else
    let next := tx.lastReserved + 1
    tx.commit storage next tx.lastSignedDao next

/-- Persist exact signed bytes for `sequence` before they may be transmitted. -/
def finalizeSigned (tx : DaoTxState) (storage : S) (sequence : Nat) (signedDao : Bytes) :
    Option (Except (DaoTxError E) Unit) × DaoTxState × S :=
  if sequence ≠ tx.lastReserved then (some (.error .invalidState), tx, storage)
  else if signedDao.length > maxSignedDaoLen then (some (.error .oversized), tx, storage)
  else
    match SignedDaoEnvelope.fromBytes signedDao with
    | .error _ => (some (.error .encoding), tx, storage)
    | .ok envelope =>
      if envelope.origin.originSequence ≠ sequence then (some (.error .invalidState), tx, storage)
      else if (SignedDaoEnvelope.fromBytes tx.lastSignedDao).toOption.any
          (·.origin.originSequence = sequence) then
        (some (.error .invalidState), tx, storage)
      else tx.commit storage sequence signedDao ()

def clearTransmitted (tx : DaoTxState) (storage : S) :
    Option (Except (DaoTxError E) Unit) × DaoTxState × S :=
  if tx.lastSignedDao.isEmpty then (some (.error .invalidState), tx, storage)
  else tx.commit storage tx.lastReserved [] ()

end DaoTxState

structure DaoRxState where
  current : RedundantValue

structure DaoRxScope where
  nodeAddress : Ipv6Addr
  rplInstanceId : UInt8
  dodagId : Ipv6Addr

structure DaoAdmissionState extends DaoRxScope where
  current : RedundantValue
  admitted : HashSet PublicKey

def DaoAdmissionState.contains (state : DaoAdmissionState) (key : PublicKey) : Bool :=
  HashSet.contains state.admitted key

abbrev HighWaterMap := HashMap PublicKey (List.Vector UInt8 32 × Nat)

def encodeHighWaterEntry (e : PublicKey × List.Vector UInt8 32 × Nat) : Bytes :=
  e.1.toList ++ beBytes 8 e.2.2 ++ e.2.1.toList

def encodeHighWater (scope : DaoRxScope) (map : HighWaterMap) (out : Nat) : Option Bytes :=
  if map.len > maxDaoOrigins then none
  else if out < highWaterHeaderLen + map.len * highWaterEntryLen then none
  else
    -- The sort makes the order in which the table lists its entries irrelevant.
    let entries := map.toPairs.insertionSort fun a b => a.1.toList ≤ b.1.toList
    some (scope.nodeAddress.toList ++ [scope.rplInstanceId] ++ scope.dodagId.toList ++
      beBytes 2 map.len ++ entries.flatMap encodeHighWaterEntry)

def decodeHighWaterEntry (data : Bytes) (map : HighWaterMap) (index : Nat) :
    Option HighWaterMap :=
  let offset := highWaterHeaderLen + index * highWaterEntryLen
  let key : PublicKey := toArray 32 (data.extract offset (offset + 32))
  let sequence := beNat (data.extract (offset + 32) (offset + 40))
  let hash : List.Vector UInt8 32 := toArray 32 (data.extract (offset + 40) (offset + 72))
  if sequence = 0 ∨ map.containsKey key then none else some (map.insert key (hash, sequence))

def decodeHighWater (data : Bytes) : Option HighWaterMap :=
  if data.length < highWaterHeaderLen then none
  else
    let count := beNat (data.extract highWaterScopeLen highWaterHeaderLen)
    if count > maxDaoOrigins ∨ data.length ≠ highWaterHeaderLen + count * highWaterEntryLen then none
    else (List.range count).foldlM (decodeHighWaterEntry data) HashMap.new

end Lichen.Rpl
