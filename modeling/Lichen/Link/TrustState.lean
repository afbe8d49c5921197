import Lichen.Lib.Guard
import Lichen.Link.LinkLayer

namespace Lichen.Link

open Lichen.Lib Lichen.Core

inductive LinkPersistentStateError where
  | missing
  | malformed
  | integrity
  | rollback
  | conflict
  | bufferTooSmall

def trustStateDomain : Bytes := "LICHEN-LINK-TRUST-v1".toUTF8.toList ++ [0]
def trustStateSignatureLen : Nat := 48

/-- The fields of a sealed record: the trust generation and the replay window of one peer. -/
structure TrustState where
  revision : UInt64
  owner : PublicKey
  peerKey : PublicKey
  durable : DurablePeerKeyGeneration
  serial : Nat
  nextSerial : Nat
  floorCommitment : Option (List.Vector UInt8 32)
  lastEpoch : UInt8
  lastSeq : LinkSeqNum
  window : BitVec 32

namespace TrustState

def commitmentBytes : Option (List.Vector UInt8 32) → Bytes
  | some digest => digest.toList
  | none => List.replicate 32 0

def fields (state : TrustState) : List Bytes :=
  [trustStateDomain, [1], beBytes 8 state.revision.toNat, state.owner.toList, state.peerKey.toList,
    state.durable.toList, beBytes 8 state.serial, beBytes 8 state.nextSerial,
    [if state.floorCommitment.isSome then 1 else 0], commitmentBytes state.floorCommitment,
    [state.lastEpoch], beBytes 2 state.lastSeq.toNat, beBytes 4 state.window.toNat]

def body (state : TrustState) : Bytes := state.fields.flatten

@[simp] theorem length_commitmentBytes : (commitmentBytes commitment).length = 32 := by
  cases commitment with
  | none => rfl
  | some digest => exact digest.toList_length

theorem length_body (state : TrustState) : state.body.length = trustStateDomain.length + 145 := by
  simp [body, fields]

theorem body_fields (state : TrustState) :
    let base := trustStateDomain.length
    state.body.getD base 0 = 1 ∧
    state.body.extract (base + 1) (base + 9) = beBytes 8 state.revision.toNat ∧
    state.body.extract (base + 9) (base + 41) = state.owner.toList ∧
    state.body.extract (base + 41) (base + 73) = state.peerKey.toList ∧
    state.body.extract (base + 73) (base + 89) = state.durable.toList ∧
    state.body.extract (base + 89) (base + 97) = beBytes 8 state.serial ∧
    state.body.extract (base + 97) (base + 105) = beBytes 8 state.nextSerial ∧
    state.body.getD (base + 105) 0 = (if state.floorCommitment.isSome then 1 else 0) ∧
    state.body.extract (base + 106) (base + 138) = commitmentBytes state.floorCommitment ∧
    state.body.getD (base + 138) 0 = state.lastEpoch ∧
    state.body.extract (base + 139) (base + 141) = beBytes 2 state.lastSeq.toNat ∧
    state.body.extract (base + 141) (base + 145) = beBytes 4 state.window.toNat := by
  refine ⟨getD_piece 1 rfl ?_ _, extract_piece 2 rfl ?_ ?_, extract_piece 3 rfl ?_ ?_,
    extract_piece 4 rfl ?_ ?_, extract_piece 5 rfl ?_ ?_, extract_piece 6 rfl ?_ ?_,
    extract_piece 7 rfl ?_ ?_, getD_piece 8 rfl ?_ _, extract_piece 9 rfl ?_ ?_,
    getD_piece 10 rfl ?_ _, extract_piece 11 rfl ?_ ?_, extract_piece 12 rfl ?_ ?_⟩
  all_goals simp [fields]

end TrustState

def verifyProfileMessage (crypto : Crypto) (publicKey : PublicKey) (message signature : Bytes) :
    Bool :=
  if signature.length ≠ signatureLength then false
  else crypto.verify publicKey message (toArray 48 signature)

/-- Check the signature and the fields of a record that `own` is to have sealed. -/
def readTrustState (crypto : Crypto) (own : PublicKey) (record : Bytes) (minimumRevision : UInt64) :
    Except LinkPersistentStateError TrustState := do
  let tailLen := 1 + 8 + 32 + 32 + 16 + 8 + 8 + 1 + 32 + 1 + 2 + 4
  let bodyLen := trustStateDomain.length + tailLen
  if record.length ≠ bodyLen + trustStateSignatureLen then throw .malformed
  let body := record.take bodyLen
  let signature := record.drop bodyLen
  if !verifyProfileMessage crypto own body signature then throw .integrity
  let cursor := trustStateDomain.length
  if body.getD cursor 0 ≠ 1 then throw .malformed
  let cursor := cursor + 1
  let revision := UInt64.ofNat (beNat (body.extract cursor (cursor + 8)))
  let cursor := cursor + 8
  if revision = 0 ∨ revision < minimumRevision then throw .rollback
  if body.extract cursor (cursor + 32) ≠ own.toList then throw .integrity
  let cursor := cursor + 32
  let peerKey : PublicKey := toArray 32 (body.extract cursor (cursor + 32))
  let cursor := cursor + 32
  let durable : DurablePeerKeyGeneration := toArray 16 (body.extract cursor (cursor + 16))
  let cursor := cursor + 16
  if durable = List.Vector.replicate 16 0 then throw .malformed
  let serial := beNat (body.extract cursor (cursor + 8))
  let cursor := cursor + 8
  let nextSerial := beNat (body.extract cursor (cursor + 8))
  let cursor := cursor + 8
  if serial = 0 ∨ nextSerial ≤ serial ∨
      durableGenerationFor crypto own peerKey serial ≠ some durable then
    throw .integrity
  let flag := body.getD cursor 0
  let commitment := body.extract (cursor + 1) (cursor + 33)
  if ¬(flag = 0 ∧ commitment = List.replicate 32 0) ∧ flag ≠ 1 then throw .malformed
  let floorCommitment := if flag = 1 then some (toArray 32 commitment) else none
  let cursor := cursor + 33
  let lastEpoch := body.getD cursor 0
  let cursor := cursor + 1
  let lastSeq := UInt16.ofNat (beNat (body.extract cursor (cursor + 2)))
  let cursor := cursor + 2
  let window := BitVec.ofNat 32 (beNat (body.extract cursor (cursor + 4)))
  return ⟨revision, own, peerKey, durable, serial, nextSerial, floorCommitment, lastEpoch, lastSeq,
    window⟩

structure TrustState.Valid (crypto : Crypto) (state : TrustState) : Prop where
  revision_ne : state.revision ≠ 0
  generation : durableGenerationFor crypto state.owner state.peerKey state.serial =
    some state.durable
  serial_pos : 0 < state.serial
  serial_lt : state.serial < state.nextSerial
  nextSerial_lt : state.nextSerial < 2 ^ 64

theorem durableGenerationFor_ne_zero
    (h : durableGenerationFor crypto own peer serial = some durable) :
    durable ≠ List.Vector.replicate 16 0 := by
  simp only [durableGenerationFor, Option.ite_none_left_eq_some, Option.some.injEq] at h
  obtain ⟨hne, rfl⟩ := h
  exact hne

theorem readTrustState_body (h : state.Valid crypto)
    (hverify : crypto.verify state.owner state.body signature = true) :
    readTrustState crypto state.owner (state.body ++ signature.toList) minimumRevision =
      if state.revision < minimumRevision then .error .rollback else .ok state := by
  have hlength := state.length_body
  have hrecord : (state.body ++ signature.toList).length =
      trustStateDomain.length + (145 + trustStateSignatureLen) := by
    rw [List.length_append, hlength, signature.toList_length, Nat.add_assoc]
    rfl
  have htake : (state.body ++ signature.toList).take (trustStateDomain.length + 145) = state.body :=
    List.take_left' hlength
  have hdrop : (state.body ++ signature.toList).drop (trustStateDomain.length + 145) =
      signature.toList := List.drop_left' hlength
  have hsignature : verifyProfileMessage crypto state.owner state.body signature.toList = true := by
    rw [verifyProfileMessage, if_neg (by rw [signature.toList_length]; decide), toArray_toList,
      hverify]
  obtain ⟨hversion, hrevision, howner, hpeer, hdurable, hserial, hnext, hflag, hcommitment, hepoch,
    hseq, hwindow⟩ := state.body_fields
  have hrevision' : UInt64.ofNat (beNat (beBytes 8 state.revision.toNat)) = state.revision := by
    rw [beNat_beBytes_of_lt (n := 8) state.revision.toNat_lt, UInt64.ofNat_toNat]
  have hserial' : beNat (beBytes 8 state.serial) = state.serial :=
    beNat_beBytes_of_lt (n := 8) (h.serial_lt.trans h.nextSerial_lt)
  have hnext' : beNat (beBytes 8 state.nextSerial) = state.nextSerial :=
    beNat_beBytes_of_lt (n := 8) h.nextSerial_lt
  have hseq' : UInt16.ofNat (beNat (beBytes 2 state.lastSeq.toNat)) = state.lastSeq := by
    rw [beNat_beBytes_of_lt (n := 2) state.lastSeq.toNat_lt, UInt16.ofNat_toNat]
  have hwindow' : BitVec.ofNat 32 (beNat (beBytes 4 state.window.toNat)) = state.window := by
    rw [beNat_beBytes_of_lt (n := 4) state.window.isLt, BitVec.ofNat_toNat, BitVec.setWidth_eq]
  simp only [readTrustState, throw_bind, Nat.add_assoc, Nat.reduceAdd]
  rw [htake, hdrop, hversion, hrevision, howner, hpeer, hdurable, hserial, hnext, hflag, hcommitment,
    hepoch, hseq, hwindow, hrevision', hserial', hnext', hseq', hwindow']
  rw [if_neg (not_not.mpr hrecord), hsignature, Bool.not_true, if_neg Bool.false_ne_true,
    if_neg (not_not.mpr rfl)]
  by_cases hmin : state.revision < minimumRevision
  · rw [if_pos (.inr hmin), if_pos hmin]
    rfl
  have hrollback : ¬(state.revision = 0 ∨ state.revision < minimumRevision) :=
    not_or.mpr ⟨h.revision_ne, hmin⟩
  have hgeneration : ¬(state.serial = 0 ∨ state.nextSerial ≤ state.serial ∨
      durableGenerationFor crypto state.owner state.peerKey state.serial ≠ some state.durable) := by
    rintro (hzero | hle | hne)
    · exact h.serial_pos.ne' hzero
    · exact h.serial_lt.not_ge hle
    · exact hne h.generation
  rw [if_neg hrollback, if_neg (not_not.mpr rfl), toArray_toList, toArray_toList,
    if_neg (durableGenerationFor_ne_zero h.generation), if_neg hgeneration, if_neg hmin]
  obtain ⟨revision, owner, peerKey, durable, serial, nextSerial, floorCommitment, _, lastSeq,
    window⟩ := state
  cases floorCommitment with
  | none => rfl
  | some => simp [TrustState.commitmentBytes, pure, Except.pure]

namespace LinkLayer

def persistPeerTrustState (crypto : Crypto) (signDigest : Bytes → List.Vector UInt8 48)
    (l : LinkLayer) (iid : Iid) (revision : UInt64) (schcFloorRecord : Option Bytes)
    (out : Bytes) : Except LinkPersistentStateError (Nat × Bytes) := do
  if revision = 0 then throw .malformed
  let some peer := l.peers.get iid | throw .missing
  if (l.pinned.get iid).all (·.pubkey ≠ peer.identity.pubkey) then throw .missing
  let some replay := l.replay.peers.get peer.identity.pubkey | throw .missing
  let some (lastSeq, window) := replay.window.persistentParts | throw .missing
  let state : TrustState := {
    revision
    owner := l.identity.pubkey
    peerKey := peer.identity.pubkey
    durable := peer.durableKeyGeneration
    serial := peer.durableGenerationSerial
    nextSerial := l.nextDurableGeneration
    floorCommitment := schcFloorRecord.map crypto.sha256
    lastEpoch := replay.lastEpoch
    lastSeq
    window }
  let body := state.body
  let needed := body.length + trustStateSignatureLen
  if out.length < needed then throw .bufferTooSmall
  return (needed, overwrite (overwrite out 0 body) body.length (signDigest body).toList)

/-- Put the peer of a record into the tables, under a new process-local key generation. -/
def installTrustState (l : LinkLayer) (state : TrustState) (peer : PeerIdentity)
    (window : ReplayWindow) (runtimeGeneration : Nat) : LinkLayer :=
  let access := saturatingSucc l.accessCounter
  let replayAccess := saturatingSucc l.replay.accessCounter
  let replayState : PeerReplayState := ⟨state.lastEpoch, window, replayAccess⟩
  let tracked : TrackedPeer :=
    ⟨peer, access, runtimeGeneration, state.durable, state.serial, state.floorCommitment⟩
  { l with
    accessCounter := access
    replay := { l.replay with accessCounter := replayAccess
                              peers := l.replay.peers.insert peer.pubkey replayState }
    pinned := l.pinned.insert peer.iid ⟨peer.pubkey⟩
    peers := l.peers.insert peer.iid tracked
    nextDurableGeneration := max l.nextDurableGeneration state.nextSerial }

def restorePeerTrustState (crypto : Crypto) (l : LinkLayer) (record : Bytes)
    (minimumRevision : UInt64) : Except LinkPersistentStateError (UInt64 × LinkLayer) := do
  let state ← readTrustState crypto l.identity.pubkey record minimumRevision
  let some window := ReplayWindow.fromPersistentParts state.lastSeq state.window | throw .malformed
  let peer := PeerIdentity.fromPubkey crypto state.peerKey
  if l.peers.len ≥ l.maxPeers ∨ l.replay.peers.len ≥ l.replay.maxPeers ∨
      l.peers.containsKey peer.iid ∨ l.pinned.containsKey peer.iid then
    throw .conflict
  let some (runtimeGeneration, l) := l.allocateKeyGeneration | throw .conflict
  return (state.revision, l.installTrustState state peer window runtimeGeneration)

end LinkLayer

end Lichen.Link
