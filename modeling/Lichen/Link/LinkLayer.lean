import Lichen.Core.Types
import Lichen.Lib.HashMap
import Lichen.Link.Frame

namespace Lichen.Link

open Lichen.Lib Lichen.Core

/-- The next tick of a `u64` logical clock, which saturates instead of wrapping. -/
def saturatingSucc (n : Nat) : Nat := min (n + 1) (2 ^ 64 - 1)

/-- Highest epoch seen from a peer and the sequence window of that epoch. -/
structure PeerReplayState where
  lastEpoch : UInt8
  window : ReplayWindow
  lastAccess : Nat

def PeerReplayState.new (epoch : UInt8) (lastAccess : Nat) : PeerReplayState :=
  ⟨epoch, ReplayWindow.new, lastAccess⟩

structure ReplayProtector where
  peers : HashMap PublicKey PeerReplayState
  accessCounter : Nat
  maxPeers : Nat

namespace ReplayProtector

def new : ReplayProtector := ⟨HashMap.new, 0, 64⟩

/-- Remove the least recently accessed peer while the table is over its capacity. -/
def evict (order : HashOrder) : Nat → ReplayProtector → ReplayProtector
  | 0, r => r
  | fuel + 1, r =>
    if r.peers.len > r.maxPeers then
      match r.peers.minByKey order (·.lastAccess) with
      | some k => evict order fuel { r with peers := r.peers.remove k }
      | none => r
    else r

section

variable (r : ReplayProtector)

def evictIfNeeded (order : HashOrder) : ReplayProtector :=
  evict order r.peers.len r

def checkAndUpdate (order : HashOrder) (pubkey : PublicKey) (epoch : UInt8)
    (seqnum : LinkSeqNum) : Bool × ReplayProtector :=
  let access := saturatingSucc r.accessCounter
  match r.peers.get pubkey with
  | none =>
    let state := PeerReplayState.new epoch access
    let (accepted, window) := state.window.accept seqnum
    let peers := r.peers.insert pubkey { state with window }
    (accepted, { r with peers, accessCounter := access }.evictIfNeeded order)
  | some state =>
    let update (state : PeerReplayState) : ReplayProtector :=
      { r with peers := r.peers.insert pubkey { state with lastAccess := access },
               accessCounter := access }
    if epoch > state.lastEpoch then
      let (accepted, window) := ReplayWindow.new.accept seqnum
      (accepted, update { state with lastEpoch := epoch, window })
    else if epoch < state.lastEpoch then (false, update state)
    else
      let (accepted, window) := state.window.accept seqnum
      (accepted, update { state with window })

def resetPeer (pubkey : PublicKey) : ReplayProtector :=
  { r with peers := r.peers.remove pubkey }

end

end ReplayProtector

structure PeerIdentity where
  pubkey : PublicKey
  iid : Iid
  deriving DecidableEq

def PeerIdentity.fromPubkey (crypto : Crypto) (pubkey : PublicKey) : PeerIdentity :=
  ⟨pubkey, iidFromPubkeyBytes crypto pubkey⟩

abbrev DurablePeerKeyGeneration := List.Vector UInt8 16

/-- A configured peer. Its `key_generation` flag is allocated together with the process-unique
`keyGenerationId`, which stands for both. -/
structure TrackedPeer where
  identity : PeerIdentity
  lastAccess : Nat
  keyGenerationId : Nat
  durableKeyGeneration : DurablePeerKeyGeneration
  durableGenerationSerial : Nat
  requiredSchcFloorCommitment : Option (List.Vector UInt8 32)

structure PinnedKey where
  pubkey : PublicKey

inductive PeerAuthState where
  | unknown
  | authenticating
  | authenticated

def PeerAuthState.canTransitionTo : PeerAuthState → PeerAuthState → Bool
  | unknown, unknown | unknown, authenticating => true
  | authenticating, authenticating | authenticating, authenticated => true
  | authenticated, authenticated | authenticated, authenticating => true
  | _, _ => false

inductive LinkRxError where
  | frame (error : FrameError)
  | unsigned
  | unknownSender
  | replay
  | tooShort (error : TooShort)
  | keyChange
  | notForUs
  deriving DecidableEq

structure ReceiptEvidence where
  clockDomain : Nat
  monotonicTicks : Nat
  durationMillis : Option Nat
  deriving DecidableEq

structure AuthenticatedFrame where
  payload : Bytes
  destination : Bytes
  destinationMode : AddrMode
  sender : PeerIdentity
  signerEui64 : Iid
  epoch : UInt8
  seqnum : LinkSeqNum
  peerKeyGenerationId : Nat
  durablePeerKeyGeneration : DurablePeerKeyGeneration
  receipt : ReceiptEvidence
  receivingEui64 : Iid
  deriving DecidableEq

structure Identity where
  pubkey : PublicKey
  iid : Iid
  deriving DecidableEq

/-- The link layer, with the process-wide counter of key generations and the generations whose
evidence it has retired. -/
structure LinkLayer where
  identity : Identity
  peers : HashMap Iid TrackedPeer
  replay : ReplayProtector
  pinned : HashMap Iid PinnedKey
  accessCounter : Nat
  maxPeers : Nat
  nextDurableGeneration : Nat
  nextPeerKeyGeneration : Nat
  retired : List Nat

def linkSignatureDomain : Bytes := "LICHEN-LINK-v1".toUTF8.toList ++ [0]
def llsecSiBit : UInt8 := 0b10000000

def buildSignable (length llsec epoch : UInt8) (seqnum : LinkSeqNum)
    (dstAddr signerEui64 innerPayload : Bytes) : Bytes :=
  linkSignatureDomain ++ [length, llsec, epoch] ++ beBytes 2 seqnum.toNat ++
    [UInt8.ofNat dstAddr.length] ++ dstAddr ++
    (if llsec &&& llsecSiBit ≠ 0 then signerEui64 else []) ++ innerPayload

def verifyFrame (crypto : Crypto) (length llsec epoch : UInt8) (seqnum : LinkSeqNum)
    (dstAddr signerEui64 payload signature : Bytes) (senderPubkey : PublicKey) : Bool :=
  if signature.length ≠ signatureLength ∨ dstAddr.length > 255 ∨
      (llsec &&& llsecSiBit ≠ 0 ∧ signerEui64.length ≠ 8) then false
  else crypto.verify senderPubkey
    (buildSignable length llsec epoch seqnum dstAddr signerEui64 payload) (toArray 48 signature)

def rxFrameLength (dstAddrLen signerEui64Len payloadLen : Nat) : Except FrameError UInt8 :=
  let total := 4 + dstAddrLen + signerEui64Len + payloadLen + signatureLength
  if total ≤ maxFrameBody then .ok (UInt8.ofNat total) else .error .frameTooLarge

def durableGenerationFor (crypto : Crypto) («local» peer : PublicKey) (serial : Nat) :
    Option DurablePeerKeyGeneration :=
  let hash := crypto.sha256 ("LICHEN-PEER-GENERATION-v1".toUTF8.toList ++ [0] ++ «local».toList ++
    peer.toList ++ beBytes 8 serial)
  let bytes := toArray 16 hash.toList
  if bytes = List.Vector.replicate 16 0 then none else some bytes

namespace LinkLayer

def new (identity : Identity) (nextPeerKeyGeneration : Nat) : LinkLayer :=
  ⟨identity, HashMap.new, ReplayProtector.new, HashMap.new, 0, 64, 1, nextPeerKeyGeneration, []⟩

def allocateKeyGeneration (l : LinkLayer) : Option (Nat × LinkLayer) :=
  if l.nextPeerKeyGeneration + 1 ≥ 2 ^ 64 then none
  else some (l.nextPeerKeyGeneration,
    { l with nextPeerKeyGeneration := l.nextPeerKeyGeneration + 1 })

def allocateDurableGeneration (crypto : Crypto) (l : LinkLayer) (peer : PublicKey) :
    Option ((DurablePeerKeyGeneration × Nat) × LinkLayer) :=
  let serial := l.nextDurableGeneration
  if serial + 1 ≥ 2 ^ 64 then none
  else
    match durableGenerationFor crypto l.identity.pubkey peer serial with
    | none => none
    | some generation =>
      some ((generation, serial), { l with nextDurableGeneration := serial + 1 })

def retire (l : LinkLayer) (tracked : TrackedPeer) : LinkLayer :=
  { l with retired := tracked.keyGenerationId :: l.retired }

def resetPeer (l : LinkLayer) (pubkey : PublicKey) : LinkLayer :=
  { l with replay := l.replay.resetPeer pubkey }

/-- Remove the key pin of a peer and start a new key generation for it. `none` is a panic on
exhausted generation identifiers, as in `addPeer`. -/
def unpinPeer (crypto : Crypto) (l : LinkLayer) (iid : Iid) : Option LinkLayer :=
  let l := { l with pinned := l.pinned.remove iid }
  match l.peers.get iid with
  | none => some l
  | some peer => do
    let ((durable, serial), l) ← l.allocateDurableGeneration crypto peer.identity.pubkey
    let (generation, l) ← (l.retire peer).allocateKeyGeneration
    let renewed : TrackedPeer :=
      ⟨peer.identity, peer.lastAccess, generation, durable, serial, none⟩
    return { l with peers := l.peers.insert iid renewed }

def peerAuthState (l : LinkLayer) (iid : Iid) : PeerAuthState :=
  match l.peers.get iid, l.pinned.get iid with
  | some peer, some pinned =>
    if pinned.pubkey = peer.identity.pubkey then .authenticated else .authenticating
  | some _, none => .authenticating
  | none, _ => .unknown

/-- Remove the least recently accessed peer, its window and its pin, while the table is over its
capacity. -/
def evict (order : HashOrder) : Nat → LinkLayer → Option PeerIdentity →
    LinkLayer × Option PeerIdentity
  | 0, l, evicted => (l, evicted)
  | fuel + 1, l, evicted =>
    if l.peers.len > l.maxPeers then
      match l.peers.minByKey order (·.lastAccess) with
      | none => (l, evicted)
      | some iid =>
        match l.peers.get iid with
        | none => evict order fuel l evicted
        | some tracked =>
          let l := ({ l with peers := l.peers.remove iid }.retire tracked).resetPeer
            tracked.identity.pubkey
          evict order fuel { l with pinned := l.pinned.remove iid } (some tracked.identity)
    else (l, evicted)

def evictIfNeeded (l : LinkLayer) (order : HashOrder) : LinkLayer × Option PeerIdentity :=
  evict order l.peers.len l none

def installPeer (l : LinkLayer) (tracked : TrackedPeer) : LinkLayer × Option PeerIdentity :=
  let inserted := { l with peers := l.peers.insert tracked.identity.iid tracked }
  match l.peers.get tracked.identity.iid with
  | none => (inserted, none)
  | some replaced =>
    ((inserted.retire replaced).resetPeer replaced.identity.pubkey, some replaced.identity)

def addPeer (crypto : Crypto) (l : LinkLayer) (order : HashOrder) (peer : PeerIdentity) :
    Option (LinkLayer × Option PeerIdentity) :=
  let peer := PeerIdentity.fromPubkey crypto peer.pubkey
  let access := saturatingSucc l.accessCounter
  let l := { l with accessCounter := access }
  let refreshed := (l.peers.get peer.iid).filter (·.identity.pubkey = peer.pubkey)
  match refreshed with
  | some existing =>
    some ({ l with peers := l.peers.insert peer.iid { existing with lastAccess := access } }, none)
  | none => do
    let ((durableKeyGeneration, durableGenerationSerial), l) ←
      l.allocateDurableGeneration crypto peer.pubkey
    let (keyGenerationId, l) ← l.allocateKeyGeneration
    let tracked : TrackedPeer :=
      ⟨peer, access, keyGenerationId, durableKeyGeneration, durableGenerationSerial, none⟩
    let (l, retired) := l.installPeer tracked
    let (l, evicted) := l.evictIfNeeded order
    return (l, evicted.or retired)

def removePeer (l : LinkLayer) (iid : Iid) : LinkLayer :=
  let l :=
    match l.peers.get iid with
    | none => l
    | some tracked =>
      ({ l with peers := l.peers.remove iid }.retire tracked).resetPeer tracked.identity.pubkey
  { l with pinned := l.pinned.remove iid }

def forgetPeer (l : LinkLayer) (iid : Iid) : LinkLayer :=
  let peer := l.peers.get iid
  let peerKey := peer.map (·.identity.pubkey)
  let pinnedKey := l.pinned.get iid
  let l :=
    match peer with
    | none => l
    | some tracked => { l with peers := l.peers.remove iid }.retire tracked
  let l := { l with pinned := l.pinned.remove iid }
  let l := match peerKey with
    | none => l
    | some key => l.resetPeer key
  match pinnedKey with
  | none => l
  | some key => if some key.pubkey ≠ peerKey then l.resetPeer key.pubkey else l

def localEui64 (l : LinkLayer) : Iid := flipUniversalLocal l.identity.iid

def wireIsForLocal (l : LinkLayer) (frame : LichenFrame) : Bool :=
  match frame.addrMode with
  | .none => true
  | .short => false
  | .extended => frame.dstAddr = l.localEui64.toList
  | .elided => true

/-- The configured peer a parsed frame is authenticated as, with its signer EUI-64. -/
def authenticate (crypto : Crypto) (l : LinkLayer) (frame : LichenFrame) :
    Except LinkRxError (TrackedPeer × Iid) := do
  if !frame.signature.isPresent then throw .unsigned
  if frame.mic.length ≠ signatureLength then
    throw (.tooShort ⟨signatureLength, frame.mic.length⟩)
  let frameLength ← (rxFrameLength frame.dstAddr.length frame.signerEui64.length
    frame.payload.length).mapError .frame
  if frame.signerEui64.length ≠ 8 then throw (.frame .signatureSignerMismatch)
  let signerEui64 : Iid := toArray 8 frame.signerEui64
  let some tracked := l.peers.get (flipUniversalLocal signerEui64) | throw .unknownSender
  let sender := tracked.identity
  if signerEui64 ≠ flipUniversalLocal sender.iid ∨
      !verifyFrame crypto frameLength frame.llsecByte frame.epoch frame.seqnum frame.dstAddr
        frame.signerEui64 frame.payload frame.mic sender.pubkey then
    throw .unknownSender
  if !l.wireIsForLocal frame then throw .notForUs
  if (l.pinned.get sender.iid).any (·.pubkey ≠ sender.pubkey) then throw .keyChange
  return (tracked, signerEui64)

/-- What follows a successful replay check: the sender is pinned and the frame is released.
`none` is the panic of a sender that is no longer configured. -/
def release (l : LinkLayer) (frame : LichenFrame) (sender : PeerIdentity) (signerEui64 : Iid)
    (oldState : PeerAuthState) (receipt : ReceiptEvidence) :
    Option (Except LinkRxError AuthenticatedFrame) × LinkLayer :=
  let access := saturatingSucc l.accessCounter
  let peers :=
    match l.peers.get sender.iid with
    | none => l.peers
    | some tracked => l.peers.insert sender.iid { tracked with lastAccess := access }
  let l := { l with accessCounter := access, peers,
                    pinned := l.pinned.insert sender.iid ⟨sender.pubkey⟩ }
  if !oldState.canTransitionTo (l.peerAuthState sender.iid) then (some (.error .keyChange), l)
  else
    match l.peers.get sender.iid with
    | none => (none, l)
    | some tracked =>
      (some (.ok {
        payload := frame.payload
        destination := frame.dstAddr
        destinationMode := frame.addrMode
        sender
        signerEui64
        epoch := frame.epoch
        seqnum := frame.seqnum
        peerKeyGenerationId := tracked.keyGenerationId
        durablePeerKeyGeneration := tracked.durableKeyGeneration
        receipt
        receivingEui64 := l.localEui64 }), l)

def receiveFrameWithReceipt (crypto : Crypto) (l : LinkLayer) (order : HashOrder) (wire : Bytes)
    (receipt : ReceiptEvidence) :
    Option (Except LinkRxError AuthenticatedFrame) × LinkLayer :=
  match LichenFrame.fromBytes wire with
  | .error error => (some (.error (.frame error)), l)
  | .ok frame =>
    match l.authenticate crypto frame with
    | .error error => (some (.error error), l)
    | .ok (tracked, signerEui64) =>
      let sender := tracked.identity
      let oldState := l.peerAuthState sender.iid
      let (fresh, replay) := l.replay.checkAndUpdate order sender.pubkey frame.epoch frame.seqnum
      let l := { l with replay }
      if !fresh then (some (.error .replay), l)
      else l.release frame sender signerEui64 oldState receipt

end LinkLayer

end Lichen.Link
