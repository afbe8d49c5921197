import Lichen.Core.Types
import Lichen.Lib.Stateful
import Lichen.Schc.Receiver

namespace Lichen.Schc

open Lichen.Lib Lichen.Core

def ruleSetVersion : UInt8 := 3
def inactivityTimeoutMillis : Nat := 60000
def fragmentTombstoneMillis : Nat := 60000

def saturatingAdd (a b : Nat) : Nat := min (a + b) (2 ^ 64 - 1)

def versionsCompatible («local» remote : UInt8) : Bool :=
  «local» = ruleSetVersion && remote = ruleSetVersion

def canonicalFragmentationRule (localSigner remoteSigner : PublicKey) (outbound : Bool) :
    Except FragmentError UInt8 :=
  if localSigner.toList < remoteSigner.toList then
    .ok (if outbound then ruleIdAToB else ruleIdBToA)
  else if remoteSigner.toList < localSigner.toList then
    .ok (if outbound then ruleIdBToA else ruleIdAToB)
  else .error .invalidPeerEvidence

/-- The index of a fragmentation rule in the arrays of a policy entry. -/
inductive RuleIndex where
  | aToB
  | bToA
  deriving DecidableEq

def RuleIndex.ruleId : RuleIndex → UInt8
  | aToB => ruleIdAToB
  | bToA => ruleIdBToA

def ruleIndex (ruleId : UInt8) : Except FragmentError RuleIndex :=
  if ruleId = ruleIdAToB then .ok .aToB
  else if ruleId = ruleIdBToA then .ok .bToA
  else .error .unsupportedRule

inductive Role where
  | sender
  | receiver
  deriving DecidableEq

structure SessionReservation where
  id : Nat
  expiresAtMs : Nat
  highCounter : Nat
  deriving DecidableEq

structure TerminalTombstone where
  untilMs : Nat
  highCounter : Nat
  result : ReceiverResult

structure Slot where
  session : Option SessionReservation
  tombstone : Option TerminalTombstone

def Slot.empty : Slot := ⟨none, none⟩

/-- The policy for one peer. Its four arrays of sessions and tombstones are `slots`. -/
structure FragmentationPolicyEntry where
  signer : PublicKey
  generation : Nat
  keyGeneration : Nat
  durableKeyGeneration : List.Vector UInt8 16
  authenticatedCounter : Nat
  compatible : Bool
  slots : Role → RuleIndex → Slot
  nextSessionId : Nat
  lastNowMs : Nat

structure AuthenticatedPeerSchcContext where
  signerIdentity : PublicKey
  keyGeneration : Nat
  durableKeyGeneration : List.Vector UInt8 16
  authenticatedCounter : Nat
  remoteVersion : UInt8

def AuthenticatedPeerSchcContext.allowsDodagJoin (peer : AuthenticatedPeerSchcContext) : Bool :=
  versionsCompatible ruleSetVersion peer.remoteVersion

structure AuthenticatedFragmentationPermit where
  owner : Nat
  slot : Nat
  generation : Nat
  keyGeneration : Nat
  durableKeyGeneration : List.Vector UInt8 16
  signer : PublicKey
  deriving DecidableEq

def inactivityDeadline (nowMs : Nat) : Except FragmentError Nat :=
  let expiresAt := nowMs + inactivityTimeoutMillis
  if expiresAt ≥ 2 ^ 64 ∨ expiresAt + fragmentTombstoneMillis ≥ 2 ^ 64 then
    .error .invalidPeerEvidence
  else .ok expiresAt

def tombstoneDeadline (nowMs : Nat) : Except FragmentError Nat :=
  if nowMs + fragmentTombstoneMillis ≥ 2 ^ 64 then .error .invalidPeerEvidence
  else .ok (nowMs + fragmentTombstoneMillis)

namespace FragmentationPolicyEntry

def setSlot (entry : FragmentationPolicyEntry) (role : Role) (index : RuleIndex) (slot : Slot) :
    FragmentationPolicyEntry :=
  { entry with slots := fun r i => if r = role ∧ i = index then slot else entry.slots r i }

abbrev Op (α : Type) : Type := EStateM FragmentError FragmentationPolicyEntry α

def observePolicyNow (nowMs : Nat) : Op Unit := do
  let entry ← get
  check (nowMs < entry.lastNowMs) .invalidPeerEvidence
  set { entry with lastNowMs := nowMs }

def takeSessionId : Op Nat := do
  let entry ← get
  check (entry.nextSessionId + 1 ≥ 2 ^ 32) .policyFull
  set { entry with nextSessionId := entry.nextSessionId + 1 }
  return entry.nextSessionId

def expiryResult : Role → RuleIndex → ReceiverResult
  | .sender, _ => .default
  | .receiver, index => { ReceiverResult.default with
      response := some (.receiverAbort index.ruleId), aborted := true }

section

variable (role : Role)

def expireSession (index : RuleIndex) (nowMs : Nat)
    (entry : FragmentationPolicyEntry) : FragmentationPolicyEntry :=
  match (entry.slots role index).session with
  | none => entry
  | some session => entry.setSlot role index ⟨none, some ⟨
      saturatingAdd nowMs fragmentTombstoneMillis, session.highCounter, expiryResult role index⟩⟩

/-- `reserve_sender` and `reserve_receiver`, which differ in the counter that the new session
starts from. -/
def reserve (floor : Option TerminalTombstone → Nat) (index : RuleIndex)
    (now : Nat) : Op (Nat × Nat) := do
  observePolicyNow now
  let entry ← get
  let slot := entry.slots role index
  match slot.session with
  | some session =>
    check (now < session.expiresAtMs) .sessionBusy
    set (entry.setSlot role index ⟨none, some ⟨saturatingAdd now fragmentTombstoneMillis,
      session.highCounter, .default⟩⟩)
    throw .sessionBusy
  | none =>
    check (slot.tombstone.any (now < ·.untilMs)) .sessionBusy
    set (entry.setSlot role index ⟨none, none⟩)
    let expiresAtMs ← ofExcept (inactivityDeadline now)
    let id ← takeSessionId
    modify (·.setSlot role index ⟨some ⟨id, expiresAtMs, floor slot.tombstone⟩, none⟩)
    return (id, floor slot.tombstone)

def liveSession (index : RuleIndex) (sessionId now : Nat) : Op SessionReservation := do
  observePolicyNow now
  let entry ← get
  match (entry.slots role index).session with
  | none => throw .invalidState
  | some session =>
    check (session.id ≠ sessionId) .invalidState
    return session

/-- `release_sender` and `release_receiver`, which differ in the counter and the result that the
tombstone keeps. -/
def release (high : SessionReservation → Nat) (result : ReceiverResult)
    (index : RuleIndex) (sessionId now : Nat) : Op Unit := do
  let session ← liveSession role index sessionId now
  let untilMs ← ofExcept (tombstoneDeadline now)
  modify (·.setSlot role index ⟨none, some ⟨untilMs, high session, result⟩⟩)

/-- `touch_sender` and `touch_receiver`; only the receiver advances the counter. -/
def touch (advance : Nat → Nat) (index : RuleIndex) (sessionId nowMs : Nat) :
    Op Unit := do
  let session ← liveSession role index sessionId nowMs
  if nowMs ≥ session.expiresAtMs then do
    modify (expireSession role index nowMs)
    throw .invalidState
  else do
    let expiresAtMs ← ofExcept (inactivityDeadline nowMs)
    modify fun entry => entry.setSlot role index { entry.slots role index with
      session := some ⟨session.id, expiresAtMs, advance session.highCounter⟩ }

end

def expireReceiver (index : RuleIndex) (sessionId nowMs : Nat) : Op Unit := do
  let session ← liveSession .receiver index sessionId nowMs
  check (nowMs < session.expiresAtMs) .invalidState
  modify (expireSession .receiver index nowMs)

def abandon (role : Role) (result : ReceiverResult) (index : RuleIndex)
    (sessionId highCounter : Nat) (entry : FragmentationPolicyEntry) :
    FragmentationPolicyEntry :=
  match (entry.slots role index).session with
  | none => entry
  | some session =>
    if session.id ≠ sessionId then entry
    else entry.setSlot role index ⟨none, some ⟨
      saturatingAdd entry.lastNowMs fragmentTombstoneMillis,
      max session.highCounter highCounter, result⟩⟩

def isOpener (ruleId : UInt8) (payload : Bytes) : Bool :=
  match Fragment.fromBytes payload tileSize with
  | .error _ => false
  | .ok fragment => fragment.ruleId = ruleId && fragment.window = 0 &&
      fragment.fcn = UInt8.ofNat (windowSize - 1) && !fragment.isAll1

def isTerminalRequest (ruleId : UInt8) (payload : Bytes) : Bool :=
  let ackRequest := payload.length = 2 && payload.getD 0 0 = ruleId && payload.getD 1 0 &&& 0x7f = 0
  let all1 := match Fragment.fromBytes payload tileSize with
    | .error _ => false
    | .ok fragment => fragment.ruleId = ruleId && fragment.isAll1
  ackRequest || all1

def replayReceiverTerminal (index : RuleIndex) (ruleId : UInt8) (counter nowMs : Nat)
    (payload : Bytes) : Op (Option ReceiverResult) := do
  observePolicyNow nowMs
  let entry ← get
  let slot := entry.slots .receiver index
  match slot.tombstone with
  | none => return none
  | some tombstone =>
    check (counter ≤ tombstone.highCounter) .invalidPeerEvidence
    if nowMs ≥ tombstone.untilMs ∧ isOpener ruleId payload then return none
    else do
      set (entry.setSlot .receiver index
        { slot with tombstone := some { tombstone with highCounter := counter } })
      return if nowMs < tombstone.untilMs ∧ isTerminalRequest ruleId payload then
        some tombstone.result else none

def retireTombstones (nowMs : Nat) (entry : FragmentationPolicyEntry) :
    FragmentationPolicyEntry :=
  { entry with slots := fun role index =>
      let slot := entry.slots role index
      if slot.tombstone.any (nowMs ≥ ·.untilMs) then { slot with tombstone := none } else slot }

def visits : List (Role × RuleIndex) :=
  [(.sender, .aToB), (.receiver, .aToB), (.sender, .bToA), (.receiver, .bToA)]

def expireIfDue (nowMs : Nat) (expired : Nat × FragmentationPolicyEntry)
    (visit : Role × RuleIndex) : Nat × FragmentationPolicyEntry :=
  if (expired.2.slots visit.1 visit.2).session.any (nowMs ≥ ·.expiresAtMs) then
    (expired.1 + 1, expired.2.expireSession visit.1 visit.2 nowMs)
  else expired

def expireSessionsAt (nowMs : Nat) (entry : FragmentationPolicyEntry) :
    Nat × FragmentationPolicyEntry :=
  visits.foldl (expireIfDue nowMs) (0, entry.retireTombstones nowMs)

end FragmentationPolicyEntry

/-- The owner of the fragmentation policies; it has as many slots as it may have peers. -/
structure FragmentationPolicy where
  owner : Nat
  localSigner : Option PublicKey
  entries : List (Option FragmentationPolicyEntry)

namespace FragmentationPolicy

def new (owner maxPeers : Nat) : FragmentationPolicy := ⟨owner, none, List.replicate maxPeers none⟩

abbrev Op (α : Type) : Type := EStateM FragmentError FragmentationPolicy α

def entryAt (policy : FragmentationPolicy) (slot : Nat) : Option FragmentationPolicyEntry :=
  (policy.entries[slot]?).join

def setEntry (policy : FragmentationPolicy) (slot : Nat) (entry : FragmentationPolicyEntry) :
    FragmentationPolicy :=
  { policy with entries := policy.entries.set slot (some entry) }

def currentEntry (policy : FragmentationPolicy) (permit : AuthenticatedFragmentationPermit) :
    Option FragmentationPolicyEntry :=
  if permit.owner ≠ policy.owner then none
  else (policy.entryAt permit.slot).filter fun entry =>
    entry.generation = permit.generation ∧ entry.signer = permit.signer ∧
      entry.keyGeneration = permit.keyGeneration ∧
      entry.durableKeyGeneration = permit.durableKeyGeneration

/-- Run an operation on the entry that a permit is current for (`current_entry_mut`). -/
def withEntry (permit : AuthenticatedFragmentationPermit)
    (op : FragmentationPolicyEntry.Op α) : Op α := fun policy =>
  match policy.currentEntry permit with
  | none => .error .invalidPeerEvidence policy
  | some entry =>
    match op entry with
    | .ok a entry => .ok a (policy.setEntry permit.slot entry)
    | .error e entry => .error e (policy.setEntry permit.slot entry)

def bindLocalSigner (signer : PublicKey) : Op Unit := do
  let policy ← get
  check (policy.localSigner.any (· ≠ signer)) .invalidPeerEvidence
  set { policy with localSigner := some signer }

def permitFor (policy : FragmentationPolicy) (slot : Nat) (entry : FragmentationPolicyEntry) :
    AuthenticatedFragmentationPermit :=
  ⟨policy.owner, slot, entry.generation, entry.keyGeneration, entry.durableKeyGeneration,
    entry.signer⟩

/-- Whether new evidence of a peer refreshes its entry instead of replacing it. -/
def refreshes (entry : FragmentationPolicyEntry) (peer : AuthenticatedPeerSchcContext) : Bool :=
  entry.keyGeneration = peer.keyGeneration &&
    entry.durableKeyGeneration = peer.durableKeyGeneration &&
    entry.compatible = peer.allowsDodagJoin

def freshEntry (peer : AuthenticatedPeerSchcContext) (generation nowMs : Nat) :
    FragmentationPolicyEntry :=
  ⟨peer.signerIdentity, generation, peer.keyGeneration, peer.durableKeyGeneration,
    peer.authenticatedCounter, peer.allowsDodagJoin, fun _ _ => .empty, 1, nowMs⟩

def installPeer (peer : AuthenticatedPeerSchcContext) (nowMs : Nat) :
    Op AuthenticatedFragmentationPermit := do
  let policy ← get
  let some localSigner := policy.localSigner | throw .invalidPeerEvidence
  let _ ← ofExcept (canonicalFragmentationRule localSigner peer.signerIdentity true)
  let existing := policy.entries.findIdx? (·.any (·.signer = peer.signerIdentity))
  let some slot := existing.or (policy.entries.findIdx? Option.isNone) | throw .policyFull
  let prior := policy.entryAt slot
  match prior.filter (refreshes · peer) with
  | some entry =>
    check (peer.authenticatedCounter ≤ entry.authenticatedCounter ∨ nowMs < entry.lastNowMs)
      .invalidPeerEvidence
    let refreshed := { entry with
      authenticatedCounter := peer.authenticatedCounter, lastNowMs := nowMs }
    set (policy.setEntry slot refreshed)
    check (!entry.compatible) .versionMismatch
    return policy.permitFor slot refreshed
  | none =>
    match prior.filter (·.generation + 1 ≥ 2 ^ 32) with
    | some entry =>
      set (policy.setEntry slot { entry with compatible := false })
      throw .invalidPeerEvidence
    | none =>
      check (prior.any (nowMs < ·.lastNowMs)) .invalidPeerEvidence
      let generation := match prior with
        | none => 1
        | some entry => entry.generation + 1
      let entry := freshEntry peer generation nowMs
      set (policy.setEntry slot entry)
      check (!peer.allowsDodagJoin) .versionMismatch
      return policy.permitFor slot entry

/-- `accept_peer_with_authority` for evidence that its authority calls current. -/
def acceptPeer (localSigner : PublicKey) (peer : AuthenticatedPeerSchcContext) (nowMs : Nat) :
    Op AuthenticatedFragmentationPermit := do
  bindLocalSigner localSigner
  installPeer peer nowMs

def retirePeer (signer : PublicKey) (policy : FragmentationPolicy) : FragmentationPolicy :=
  { policy with entries := policy.entries.map fun entry =>
      if entry.any (·.signer = signer) then none else entry }

def expireEntry (nowMs : Nat) (entry : FragmentationPolicyEntry) :
    Nat × FragmentationPolicyEntry :=
  { entry with lastNowMs := nowMs }.expireSessionsAt nowMs

def expireDue (nowMs : Nat) : Op Nat := do
  let policy ← get
  check (policy.entries.any (·.any (nowMs < ·.lastNowMs))) .invalidPeerEvidence
  let expired := policy.entries.map (Option.map (expireEntry nowMs))
  set { policy with entries := expired.map (Option.map Prod.snd) }
  return (expired.map fun entry => (entry.map Prod.fst).getD 0).sum

variable (permit : AuthenticatedFragmentationPermit) (ruleId : UInt8)

section

variable (now initialCounter : Nat)

def reserveSender : Op Nat :=
  withEntry permit do
    let index ← ofExcept (ruleIndex ruleId)
    let (id, _) ← FragmentationPolicyEntry.reserve .sender (fun _ => initialCounter) index now
    return id

def reserveReceiver : Op (Nat × Nat) :=
  withEntry permit do
    let index ← ofExcept (ruleIndex ruleId)
    FragmentationPolicyEntry.reserve .receiver (fun tombstone => match tombstone with
      | some tombstone => max tombstone.highCounter initialCounter
      | none => initialCounter) index now

end

section

variable (sessionId now highCounter : Nat)

def releaseSender : Op Unit :=
  withEntry permit do
    let index ← ofExcept (ruleIndex ruleId)
    FragmentationPolicyEntry.release .sender (fun _ => highCounter) .default index sessionId now

def releaseReceiver (result : ReceiverResult) : Op Unit :=
  withEntry permit do
    let index ← ofExcept (ruleIndex ruleId)
    FragmentationPolicyEntry.release .receiver (fun session => max highCounter session.highCounter)
      { result with packetLen := none } index sessionId now

end

def touchSender (sessionId nowMs : Nat) : Op Unit :=
  withEntry permit do
    let index ← ofExcept (ruleIndex ruleId)
    FragmentationPolicyEntry.touch .sender id index sessionId nowMs

def touchReceiver (sessionId nowMs counter : Nat) : Op Unit :=
  withEntry permit do
    let index ← ofExcept (ruleIndex ruleId)
    FragmentationPolicyEntry.touch .receiver (max · counter) index sessionId nowMs

def expireReceiver (sessionId nowMs : Nat) : Op Unit :=
  withEntry permit do
    let index ← ofExcept (ruleIndex ruleId)
    FragmentationPolicyEntry.expireReceiver index sessionId nowMs

/-- A handle that is dropped ends its session; there is nobody to report a failure to. -/
def abandon (role : Role) (result : ReceiverResult) (sessionId highCounter : Nat)
    (policy : FragmentationPolicy) : FragmentationPolicy :=
  match ruleIndex ruleId with
  | .error _ => policy
  | .ok index =>
    match policy.currentEntry permit with
    | none => policy
    | some entry =>
      policy.setEntry permit.slot (entry.abandon role result index sessionId highCounter)

section

variable (sessionId highCounter : Nat)

def abandonSender : FragmentationPolicy → FragmentationPolicy :=
  abandon permit ruleId .sender .default sessionId highCounter

def abandonReceiver : FragmentationPolicy → FragmentationPolicy :=
  abandon permit ruleId .receiver { ReceiverResult.default with aborted := true } sessionId
    highCounter

end

def replayReceiverTerminal (counter nowMs : Nat) (payload : Bytes) :
    Op (Option ReceiverResult) :=
  withEntry permit do
    let index ← ofExcept (ruleIndex ruleId)
    FragmentationPolicyEntry.replayReceiverTerminal index ruleId counter nowMs payload

end FragmentationPolicy

end Lichen.Schc
