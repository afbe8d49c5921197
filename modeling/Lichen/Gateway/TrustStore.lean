import Lichen.Core.Types
import Lichen.Lib.HashMap
import Lichen.Lib.Readers
import Mathlib.Data.List.Sort

namespace Lichen.Gateway

open Lichen.Core Lichen.Lib

def maxTrustedGateways : Nat := 4096

-- "LCHNTRS1"
def trustStoreMagic : Bytes := [0x4C, 0x43, 0x48, 0x4E, 0x54, 0x52, 0x53, 0x31]

def trustStoreVersionLegacy : Nat := 1

def trustStoreVersion : Nat := 2

inductive TrustLevel
  | tofu
  | brProvisioned
  | dane
  | pkix

namespace TrustLevel

def asU8 : TrustLevel → UInt8
  | tofu => 1
  | brProvisioned => 2
  | dane => 3
  | pkix => 4

def fromU8 : UInt8 → Option TrustLevel
  | 1 => some tofu
  | 2 => some brProvisioned
  | 3 => some dane
  | 4 => some pkix
  | _ => none

instance : LT TrustLevel := ⟨fun a b => a.asU8 < b.asU8⟩

instance (a b : TrustLevel) : Decidable (a < b) := inferInstanceAs (Decidable (a.asU8 < b.asU8))

end TrustLevel

inductive TrustError
  | invalidRotationSignature
  | invalidRotationSequence (current presented : UInt64)
  | unchangedRotationKey
  | unknownGateway
  | keyConflict (pinnedPubkey presentedPubkey : PublicKey)
  | invalidCapacity
  | capacityMismatch (stored configured : Nat)
  | storeFull (capacity : Nat)
  | missingStore
  | corruptStore
  | integrityFailure
  | rollbackDetected (stored minimum : UInt64)
  | generationExhausted
  | storageIo (message : String)

inductive TofuResult
  | pinAndAccept
  | acceptKnown
  | acceptRotation (oldPubkey newPubkey : PublicKey)

structure VerifiedGatewayIdentity (crypto : Crypto) where
  pubkey : PublicKey
  iid : Iid
  bound : iidFromPubkeyBytes crypto pubkey = iid

def buildRotationMessage (crypto : Crypto) (oldPubkey newPubkey : PublicKey)
    (rotationSequence : UInt64) : Bytes :=
  -- "LICHEN-KEY-ROTATION-v1"
  let domain : Bytes := [0x4C, 0x49, 0x43, 0x48, 0x45, 0x4E, 0x2D, 0x4B, 0x45, 0x59, 0x2D, 0x52,
    0x4F, 0x54, 0x41, 0x54, 0x49, 0x4F, 0x4E, 0x2D, 0x76, 0x31]
  domain ++ [0] ++ oldPubkey.toList ++ (iidFromPubkeyBytes crypto oldPubkey).toList ++
    newPubkey.toList ++ beBytes 8 rotationSequence.toNat

def verifyKeyRotation (crypto : Crypto) (oldPubkey newPubkey : PublicKey)
    (rotationSequence : UInt64) (signature : Signature) : Bool :=
  crypto.verify oldPubkey (buildRotationMessage crypto oldPubkey newPubkey rotationSequence)
    signature

abbrev SystemTime := Int

structure PinnedGateway where
  pubkey : PublicKey
  trustLevel : TrustLevel
  firstSeen : SystemTime
  lastVerified : SystemTime
  verifyCount : UInt64
  rotationSequence : UInt64

structure TrustStore where
  entries : HashMap Iid PinnedGateway
  maxEntries : Nat
  generation : UInt64

def validateStoreCapacity (capacity : Nat) : Except TrustError Unit :=
  if capacity = 0 ∨ capacity > maxTrustedGateways ∨ capacity > 2 ^ 32 - 1 then
    .error .invalidCapacity
  else .ok ()

def saturatingIncrement (n : UInt64) : UInt64 := if n = UInt64.ofNat (2 ^ 64 - 1) then n else n + 1

namespace TrustStore

def newEphemeral (maxEntries : Nat) : Except TrustError TrustStore := do
  validateStoreCapacity maxEntries
  return ⟨.new, maxEntries, 1⟩

def get (store : TrustStore) (iid : Iid) : Option PinnedGateway := store.entries.get iid

def bumpGeneration (store : TrustStore) : Except TrustError TrustStore :=
  if store.generation = UInt64.ofNat (2 ^ 64 - 1) then .error .generationExhausted
  else .ok { store with generation := store.generation + 1 }

def pin (store : TrustStore) (iid : Iid) (entry : PinnedGateway) : TrustStore :=
  { store with entries := store.entries.insert iid entry }

variable (crypto : Crypto)

def provisionConfiguredPeer (store : TrustStore) (pubkey : PublicKey) (now : SystemTime) :
    Except TrustError (Bool × TrustStore) :=
  let iid := iidFromPubkeyBytes crypto pubkey
  match store.entries.get iid with
  | some existing =>
    if existing.pubkey ≠ pubkey then .error (.keyConflict existing.pubkey pubkey)
    else if ¬existing.trustLevel < .brProvisioned then .ok (false, store)
    else do
      let store ← store.bumpGeneration
      return (true, store.pin iid { existing with
        trustLevel := .brProvisioned
        lastVerified := now
        verifyCount := saturatingIncrement existing.verifyCount })
  | none =>
    if store.entries.len ≥ store.maxEntries then .error (.storeFull store.maxEntries)
    else do
      let store ← store.bumpGeneration
      return (true, store.pin iid ⟨pubkey, .brProvisioned, now, now, 1, 0⟩)

variable {crypto} in
def verifyTofu (store : TrustStore) (identity : VerifiedGatewayIdentity crypto)
    (now : SystemTime) : Except TrustError (TofuResult × TrustStore) :=
  match store.entries.get identity.iid with
  | some entry =>
    if entry.pubkey = identity.pubkey then do
      let store ← store.bumpGeneration
      return (.acceptKnown, store.pin identity.iid { entry with
        lastVerified := now
        verifyCount := saturatingIncrement entry.verifyCount })
    else .error (.keyConflict entry.pubkey identity.pubkey)
  | none =>
    if store.entries.len ≥ store.maxEntries then .error (.storeFull store.maxEntries)
    else do
      let store ← store.bumpGeneration
      return (.pinAndAccept, store.pin identity.iid ⟨identity.pubkey, .tofu, now, now, 1, 0⟩)

def rotationConflict (store : TrustStore) (oldIid newIid : Iid) (newPubkey : PublicKey) :
    Except TrustError Unit :=
  match store.entries.get newIid with
  | some existing =>
    if newIid ≠ oldIid then .error (.keyConflict existing.pubkey newPubkey) else .ok ()
  | none => .ok ()

def processKeyRotation (store : TrustStore) (oldIid : Iid) (newPubkey : PublicKey)
    (rotationSequence : UInt64) (rotationSignature : Signature) (now : SystemTime) :
    Except TrustError (TofuResult × TrustStore) :=
  match store.entries.get oldIid with
  | none => .error .unknownGateway
  | some oldEntry =>
    if newPubkey = oldEntry.pubkey then .error .unchangedRotationKey
    else if rotationSequence = 0 ∨ rotationSequence ≤ oldEntry.rotationSequence then
      .error (.invalidRotationSequence oldEntry.rotationSequence rotationSequence)
    else if !verifyKeyRotation crypto oldEntry.pubkey newPubkey rotationSequence
        rotationSignature then .error .invalidRotationSignature
    else do
      let newIid := iidFromPubkeyBytes crypto newPubkey
      store.rotationConflict oldIid newIid newPubkey
      let store ← store.bumpGeneration
      let entries := store.entries.remove oldIid
      let entry : PinnedGateway :=
        ⟨newPubkey, oldEntry.trustLevel, now, now, 1, rotationSequence⟩
      return (.acceptRotation oldEntry.pubkey newPubkey, { store with entries }.pin newIid entry)

def upgradeTrust (store : TrustStore) (iid : Iid) (newLevel : TrustLevel) :
    Except TrustError (Bool × TrustStore) :=
  match store.entries.get iid with
  | some entry =>
    if entry.trustLevel < newLevel then do
      let store ← store.bumpGeneration
      return (true, store.pin iid { entry with trustLevel := newLevel })
    else .ok (false, store)
  | none => .ok (false, store)

end TrustStore

section File

def systemTimeSecs (time : SystemTime) : Except TrustError UInt64 :=
  if time < 0 then .error .corruptStore else .ok (UInt64.ofNat (time / 1000000000).toNat)

def systemTimeFromSecs (seconds : UInt64) : Except TrustError SystemTime :=
  if seconds.toNat < 2 ^ 63 then .ok (seconds.toNat * 1000000000) else .error .corruptStore

def encodeEntry (pinned : Iid × PinnedGateway) : Except TrustError Bytes := do
  let entry := pinned.2
  let firstSeen ← systemTimeSecs entry.firstSeen
  let lastVerified ← systemTimeSecs entry.lastVerified
  return pinned.1.toList ++ (entry.pubkey.toList ++ (entry.trustLevel.asU8 ::
    (beBytes 8 firstSeen.toNat ++ (beBytes 8 lastVerified.toNat ++
      (beBytes 8 entry.verifyCount.toNat ++ beBytes 8 entry.rotationSequence.toNat)))))

def TrustStore.sortedEntries (store : TrustStore) : List (Iid × PinnedGateway) :=
  store.entries.toPairs.mergeSort fun a b => beNat a.1.toList ≤ beNat b.1.toList

def TrustStore.encodePayload (store : TrustStore) : Except TrustError Bytes := do
  let entries ← store.sortedEntries.mapM encodeEntry
  return trustStoreMagic ++ (beBytes 2 trustStoreVersion ++ (beBytes 8 store.generation.toNat ++
    (beBytes 4 store.maxEntries ++ (beBytes 4 store.entries.len ++ entries.flatten))))

structure StoreSeal where
  sign : Bytes → Signature
  verify : Bytes → Signature → Bool

/-- How a write ends: complete, with the old file still in place, or with the new file in place
but not synced. -/
inductive SaveFate
  | written
  | failed (message : String)
  | unsynced (message : String)

def TrustStore.saveAtomic (store : TrustStore) (storeSeal : StoreSeal) (fate : SaveFate)
    (file : Option Bytes) : Except TrustError Unit × Option Bytes :=
  match store.encodePayload with
  | .error error => (.error error, file)
  | .ok payload =>
    let bytes := payload ++ (storeSeal.sign payload).toList
    match fate with
    | .written => (.ok (), some bytes)
    | .failed message => (.error (.storageIo message), file)
    | .unsynced message => (.error (.storageIo message), some bytes)

abbrev StoreCursor := ByteReader TrustError

namespace StoreCursor

def take (len : Nat) : StoreCursor Bytes := fun bytes =>
  if bytes.length < len then .error .corruptStore else .ok (bytes.take len, bytes.drop len)

def array (n : Nat) : StoreCursor (List.Vector UInt8 n) := do
  return toArray n (← take n)

def uint (n : Nat) : StoreCursor Nat := do
  return beNat (← take n)

def u64 : StoreCursor UInt64 := do
  return UInt64.ofNat (← uint 8)

def trustLevel : StoreCursor TrustLevel := do
  match TrustLevel.fromU8 (UInt8.ofNat (← uint 1)) with
  | some level => return level
  | none => throw .corruptStore

def systemTime : StoreCursor SystemTime := do
  let seconds ← u64
  systemTimeFromSecs seconds

end StoreCursor

variable (crypto : Crypto)

def readPinned (version : Nat) : StoreCursor (Iid × PinnedGateway) := do
  let iid ← StoreCursor.array 8
  let pubkey ← StoreCursor.array 32
  if iidFromPubkeyBytes crypto pubkey ≠ iid then throw .corruptStore
  let trustLevel ← StoreCursor.trustLevel
  let firstSeen ← StoreCursor.systemTime
  let lastVerified ← StoreCursor.systemTime
  let verifyCount ← StoreCursor.u64
  let rotationSequence ← if version ≥ trustStoreVersion then StoreCursor.u64 else pure 0
  return (iid, ⟨pubkey, trustLevel, firstSeen, lastVerified, verifyCount, rotationSequence⟩)

def readPinnedAll (version : Nat) :
    Nat → HashMap Iid PinnedGateway → StoreCursor (HashMap Iid PinnedGateway)
  | 0, entries => pure entries
  | count + 1, entries => do
    let pinned ← readPinned crypto version
    if pinned.2.verifyCount = 0 ∨ entries.containsKey pinned.1 then throw .corruptStore
    readPinnedAll version count (entries.insert pinned.1 pinned.2)

def readStore (minimumGeneration : UInt64) (configuredCapacity : Nat) : StoreCursor TrustStore := do
  let magic ← StoreCursor.take 8
  if magic ≠ trustStoreMagic then throw .corruptStore
  let version ← StoreCursor.uint 2
  if version ≠ trustStoreVersion ∧ version ≠ trustStoreVersionLegacy then throw .corruptStore
  let generation ← StoreCursor.u64
  if generation < minimumGeneration then
    throw (.rollbackDetected generation minimumGeneration)
  let storedCapacity ← StoreCursor.uint 4
  if storedCapacity ≠ configuredCapacity then
    throw (.capacityMismatch storedCapacity configuredCapacity)
  let count ← StoreCursor.uint 4
  if count > storedCapacity then throw .corruptStore
  let entries ← readPinnedAll crypto version count .new
  return ⟨entries, configuredCapacity, generation⟩

def trustStoreEncodedLen (entries : Nat) : Nat :=
  8 + 2 + 8 + 4 + 4 + entries * (8 + 32 + 1 + 8 + 8 + 8 + 8) + signatureLen

def TrustStore.decode (storeSeal : StoreSeal) (minimumGeneration : UInt64)
    (configuredCapacity : Nat) (bytes : Bytes) : Except TrustError TrustStore :=
  if bytes.length > trustStoreEncodedLen configuredCapacity ∨
      bytes.length < 8 + 2 + 8 + 4 + 4 + signatureLen then .error .corruptStore
  else
    let payload := bytes.take (bytes.length - signatureLen)
    let signature := toArray signatureLen (bytes.drop (bytes.length - signatureLen))
    if !storeSeal.verify payload signature then .error .integrityFailure
    else
      match readStore crypto minimumGeneration configuredCapacity payload with
      | .error error => .error error
      | .ok (store, rest) => if rest ≠ [] then .error .corruptStore else .ok store

def TrustStore.load (storeSeal : StoreSeal) (minimumGeneration : UInt64)
    (configuredCapacity : Nat) (io : Option String) (file : Option Bytes) :
    Except TrustError TrustStore := do
  validateStoreCapacity configuredCapacity
  match file, io with
  | none, _ => throw .missingStore
  | some _, some message => throw (.storageIo message)
  | some bytes, none =>
    TrustStore.decode crypto storeSeal minimumGeneration configuredCapacity bytes

end File

end Lichen.Gateway
