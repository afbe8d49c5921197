import Lichen.Core.Types
import Lichen.Hal.FileStorage
import Lichen.Lib.Text
import Lichen.Lib.Run
import Lichen.Lib.Stateful

namespace Lichen.Gateway

open Lichen.Lib Lichen.Hal Lichen.Core

abbrev Seed := List.Vector UInt8 32

/-- The signatures of the crypto crate. What is signed with a derived key verifies. -/
structure Schnorr48 where
  deriveKeypair : Seed → Seed × PublicKey
  sign : Seed → PublicKey → Bytes → Signature
  verify : PublicKey → Bytes → Signature → Bool
  verify_sign : ∀ seed message, verify (deriveKeypair seed).2 message
    (sign (deriveKeypair seed).1 (deriveKeypair seed).2 message) = true

def sumSchnorr : Schnorr48 where
  deriveKeypair seed := (seed, seed)
  sign _ := sumSignature
  verify := sumVerify
  verify_sign := sumVerify_sumSignature

def zeroSeed : Seed := toArray 32 []

/-- The identifier of a directional context, of a fixed size that a `u16` can hold. -/
structure ContextId where
  asBytes : Bytes
  length_lt : asBytes.length < 65536
  deriving DecidableEq

structure RecipientReplayState where
  highest : UInt64
  window : BitVec 32
  initialized : Bool
  deriving DecidableEq

namespace RecipientReplayState

def empty : RecipientReplayState := ⟨0, 0, false⟩

def encoded (state : RecipientReplayState) : Bytes :=
  beBytes 8 state.highest.toNat ++ (beBytes 4 state.window.toNat ++
    [if state.initialized then 1 else 0])

def decoded (bytes : Bytes) : RecipientReplayState where
  highest := UInt64.ofNat (beNat (bytes.extract 0 8))
  window := BitVec.ofNat 32 (beNat (bytes.extract 8 12))
  initialized := bytes.getD 12 0 = 1

def precedes (current floor : RecipientReplayState) : Bool :=
  (!current.initialized && floor.initialized) ||
    (current.initialized == floor.initialized && decide (current.highest < floor.highest)) ||
    (floor.initialized && decide (current.highest = floor.highest) &&
      decide (current.window &&& floor.window ≠ floor.window))

def isReplay (state : RecipientReplayState) (sequence : UInt64) : Bool :=
  if !state.initialized || decide (state.highest < sequence) then false
  else
    let difference := state.highest.toNat - sequence.toNat
    decide (32 ≤ difference) || decide (state.window &&& 1#32 <<< difference ≠ 0)

def next (current : RecipientReplayState) (sequence : UInt64) : RecipientReplayState :=
  if !current.initialized then ⟨sequence, 1#32, true⟩
  else if current.highest < sequence then
    let shift := sequence.toNat - current.highest.toNat
    ⟨sequence, if 32 ≤ shift then 1#32 else current.window <<< shift ||| 1#32, true⟩
  else
    { current with
      window := current.window ||| 1#32 <<< (current.highest.toNat - sequence.toNat) }

end RecipientReplayState

inductive GatewayOscoreStoreError where
  | full
  | io
  | corrupt
  deriving DecidableEq

inductive Stop where
  | error (error : GatewayOscoreStoreError)
  | crash

def Stop.ofFileError : FileError → Stop
  | .io => .error .io
  | .crash => .crash

def maxGcpOscoreContexts : Nat := 64

def recipientDomain (floor : Bool) : Bytes :=
  (if floor then "LICHEN-GCP-OSCORE-RECIPIENT-FLOOR-v1" else
    "LICHEN-GCP-OSCORE-RECIPIENT-STATE-v1").toUTF8.toList ++ [0]

structure GatewayOscoreRecipientStore where
  records : List (ContextId × RecipientReplayState)
  storage : Option FileStorage
  floorStorage : Option FileStorage
  sealingSeed : Option Seed

namespace GatewayOscoreRecipientStore

abbrev StoreM := EStateM Stop GatewayOscoreRecipientStore

def persistent (storage floorStorage : FileStorage) (sealingSeed : Seed) :
    GatewayOscoreRecipientStore :=
  ⟨[], some storage, some floorStorage, some sealingSeed⟩

def key (contextId : ContextId) (floor : Bool) : String :=
  let suffix := if floor then "-floor" else ""
  "recipient-" ++ hexEncode contextId.asBytes ++ suffix

def transcript (domain : Bytes) (contextId : ContextId) (state : Bytes) : Except Stop Bytes :=
  if contextId.asBytes.length < 65536 then
    .ok (domain ++ beBytes 2 contextId.asBytes.length ++ contextId.asBytes ++ state)
  else .error (.error .corrupt)

section

variable (store : GatewayOscoreRecipientStore)

def directory (floor : Bool) : Option FileStorage :=
  if floor then store.floorStorage else store.storage

def withDirectory (floor : Bool) (storage : FileStorage) :
    GatewayOscoreRecipientStore :=
  if floor then { store with floorStorage := some storage }
  else { store with storage := some storage }

end

section

variable (schnorr : Schnorr48)

section

variable (contextId : ContextId)

def read (floor : Bool) : StoreM (Option RecipientReplayState) := do
  let store ← get
  match store.directory floor with
  | none => return none
  | some storage =>
    match NonVolatile.read storage (key contextId floor) (13 + signatureLen) with
    | .error error => throw (.ofFileError error)
    | .ok none => return none
    | .ok (some (length, encoded)) =>
      check (length ≠ 13 + signatureLen ∨ 1 < encoded.getD 12 0) (.error .corrupt)
      let stateBytes := encoded.take 13
      let signature := toArray signatureLen (encoded.drop 13)
      match store.sealingSeed with
      | none => throw (.error .io)
      | some seed =>
        let transcript ← ofExcept (transcript (recipientDomain floor) contextId stateBytes)
        check (schnorr.verify (schnorr.deriveKeypair seed).2 transcript signature = false)
          (.error .corrupt)
        return some (.decoded stateBytes)

def write (floor : Bool) (state : RecipientReplayState) : StoreM Unit := do
  let store ← get
  match store.sealingSeed with
  | none => throw (.error .io)
  | some seed =>
    let keypair := schnorr.deriveKeypair seed
    let transcript ← ofExcept (transcript (recipientDomain floor) contextId state.encoded)
    let signature := schnorr.sign keypair.1 keypair.2 transcript
    match store.directory floor with
    | none => throw (.error .io)
    | some storage =>
      let written := NonVolatile.write storage (key contextId floor)
        (state.encoded ++ signature.toList)
      set (store.withDirectory floor written.2)
      ofExcept (written.1.mapError .ofFileError)

/-- The state that the two records stand for; the floor record follows the state record. -/
def reconcile :
    Option RecipientReplayState → Option RecipientReplayState → StoreM RecipientReplayState
  | none, none => return .empty
  | none, some _ => throw (.error .corrupt)
  | some state, none => do
    write schnorr contextId true state
    return state
  | some state, some floor =>
    if state.precedes floor then throw (.error .corrupt)
    else if state ≠ floor then do
      write schnorr contextId true state
      return state
    else return state

def remember (state : RecipientReplayState) : StoreM Unit :=
  modify fun store =>
    { store with records :=
        (if maxGcpOscoreContexts ≤ store.records.length then store.records.tail
          else store.records) ++ [(contextId, state)] }

def load : StoreM RecipientReplayState := do
  let store ← get
  match store.records.find? fun record => record.1 = contextId with
  | some (_, state) => return state
  | none =>
    if store.storage.isNone then return .empty
    else
      let state ← read schnorr contextId false
      let floor ← read schnorr contextId true
      let state ← reconcile schnorr contextId state floor
      remember contextId state
      return state

def isReplay (sequence : UInt64) : StoreM Bool := do
  let state ← load schnorr contextId
  return state.isReplay sequence

def publish (next : RecipientReplayState) : StoreM Unit := do
  let store ← get
  match store.records.findIdx? fun record => record.1 = contextId with
  | some i => set { store with records := store.records.set i (contextId, next) }
  | none =>
    check (maxGcpOscoreContexts ≤ store.records.length) (.error .full)
    set { store with records := store.records ++ [(contextId, next)] }

def accept (sequence : UInt64) : StoreM Unit := do
  let replay ← isReplay schnorr contextId sequence
  check (replay = true) (.error .corrupt)
  let current ← load schnorr contextId
  let next := current.next sequence
  let store ← get
  if store.storage.isSome then
    write schnorr contextId false next
    write schnorr contextId true next
    publish contextId next
  else publish contextId next

end

end

end GatewayOscoreRecipientStore

end Lichen.Gateway
