import Lichen.Schc.Ack

namespace Lichen.Schc

open Lichen.Lib

inductive ReceiverResponse where
  | ack (message : Ack)
  | receiverAbort (ruleId : UInt8)
  deriving DecidableEq

def ReceiverResponse.writeTo (response : ReceiverResponse) (capacity : Nat) :
    Except FragmentError Bytes :=
  match response with
  | .ack message => message.writeTo capacity
  | .receiverAbort ruleId => (Control.receiverAbort ruleId).writeTo capacity

structure ReceiverResult where
  response : Option ReceiverResponse
  packetLen : Option Nat
  micOk : Option Bool
  aborted : Bool
  deriving DecidableEq

def ReceiverResult.default : ReceiverResult := ⟨none, none, none, false⟩

structure FragmentReceiver where
  storage : Bytes
  limit : Nat
  ruleId : Option UInt8
  bitmaps : BitVec 64 × BitVec 64
  all1 : Bool
  all1Window : UInt8
  all1Mic : Mic
  finalTile : Bytes
  finalLen : Nat
  attempts : Nat
  done : Bool
  packetLen : Option Nat
  limit_le : limit ≤ storage.length

namespace FragmentReceiver

def withLimit (storage : Bytes) (limit : Nat) : Except FragmentError FragmentReceiver :=
  if h : ¬ (1 ≤ limit ∧ limit ≤ maxPacketSize) ∨ limit > storage.length then
    .error .invalidReceiverLimit
  else .ok
    { storage, limit
      ruleId := none
      bitmaps := (0, 0)
      all1 := false
      all1Window := 0
      all1Mic := Fragment.zeroMic
      finalTile := List.replicate tileSize 0
      finalLen := 0
      attempts := 0
      done := false
      packetLen := none
      limit_le := by omega }

section

variable (r : FragmentReceiver)

def packet : Option Bytes := r.packetLen.map r.storage.take

def bitmap (window : Nat) : BitVec 64 :=
  if window = 0 then r.bitmaps.1 else r.bitmaps.2

def setBitmap (window : Nat) (bitmap : BitVec 64) : FragmentReceiver :=
  { r with bitmaps := if window = 0 then (bitmap, r.bitmaps.2) else (r.bitmaps.1, bitmap) }

/-- `copy_from_slice` into a part of the storage, which the callers check to be there. -/
def store (offset : Nat) (data : Bytes) : FragmentReceiver :=
  if h : offset + data.length ≤ r.storage.length then
    { r with
      storage := overwrite r.storage offset data
      limit_le := (length_overwrite h).symm ▸ r.limit_le }
  else r

def reset : FragmentReceiver :=
  { r with
    bitmaps := (0, 0)
    all1 := false
    ruleId := none
    finalLen := 0
    attempts := 0
    packetLen := none
    done := false }

def release : FragmentReceiver := { r.reset with done := true }

def abort (ruleId : UInt8) : ReceiverResult × FragmentReceiver :=
  (⟨some (.receiverAbort ruleId), none, none, true⟩, r.release)

def expire : Option ReceiverResponse × FragmentReceiver :=
  match r.ruleId with
  | none => (none, r)
  | some ruleId => if r.done then (none, r) else (some (.receiverAbort ruleId), r.release)

def respond (ack : Ack) : ReceiverResult × FragmentReceiver :=
  if r.attempts ≥ maxAckRequests then r.abort ack.ruleId
  else (⟨some (.ack ack), none, none, false⟩, { r with attempts := r.attempts + 1 })

def respondWithPacket (ack : Ack) : ReceiverResult × FragmentReceiver :=
  let (result, r') := r.respond ack
  if result.aborted then (result, r')
  else ({ result with packetLen := r.packetLen, micOk := some true }, r')

def respondWithMicFailure (ack : Ack) : ReceiverResult × FragmentReceiver :=
  let (result, r') := r.respond ack
  if result.aborted then (result, r') else ({ result with micOk := some false }, r')

end

def regularCount (bitmap : BitVec 64) : Nat :=
  if bitmap = 0 then 0 else windowSize - bitmap.ctz.toNat

def required (count : Nat) : BitVec 64 :=
  if count = 0 then 0 else bitmapMask &&& ~~~(bitmapMask >>> count)

/-- Compare the MIC, with the final tile in place behind `regularCount` tiles of its window. -/
def checkPacket (r : FragmentReceiver) (ruleId : UInt8) (regularCount packetLen : Nat) :
    ReceiverResult × FragmentReceiver :=
  let bitmap := r.bitmap r.all1Window.toNat
  if computeMic (r.storage.take packetLen) = r.all1Mic then
    let (result, r') := { r with packetLen := some packetLen }.respondWithPacket
      (Ack.new ruleId r.all1Window 0 true)
    (result, { r' with done := true })
  else
    let fullWindow := bitmap = required regularCount ∧ bitmap.cpop.toNat = regularCount
    let ackBitmap := if fullWindow ∧ regularCount > 1 then bitmap else bitmap ||| 1
    r.respondWithMicFailure (Ack.new ruleId r.all1Window ackBitmap false)

def finalize (r : FragmentReceiver) : ReceiverResult × FragmentReceiver :=
  let ruleId := r.ruleId.getD ruleIdAToB
  if r.all1Window = 1 ∧ r.bitmaps.1 ≠ bitmapMask then
    r.respond (Ack.new ruleId 0 r.bitmaps.1 false)
  else
    let finalBase := r.all1Window.toNat * windowSize
    let bitmap := r.bitmap r.all1Window.toNat
    let regularCount := regularCount bitmap
    if bitmap &&& required regularCount ≠ required regularCount then
      r.respond (Ack.new ruleId r.all1Window (bitmap ||| 1) false)
    else
      let packetLen := (finalBase + regularCount) * tileSize + r.finalLen
      if packetLen > r.limit then r.abort ruleId
      else
        (r.store ((finalBase + regularCount) * tileSize) (r.finalTile.take r.finalLen)).checkPacket
          ruleId regularCount packetLen

def receiveAll1 (r : FragmentReceiver) (fragment : Fragment) :
    ReceiverResult × FragmentReceiver :=
  if (fragment.window = 0 ∧ r.bitmaps.2 ≠ 0) ∨ r.bitmap fragment.window.toNat &&& 1 ≠ 0 then
    r.abort fragment.ruleId
  else if r.all1 then
    if r.all1Window ≠ fragment.window ∨ r.all1Mic ≠ fragment.mic ∨
        r.finalTile.take r.finalLen ≠ fragment.payload then r.abort fragment.ruleId
    else r.finalize
  else
    let retained := (r.bitmaps.1.cpop.toNat + r.bitmaps.2.cpop.toNat) * tileSize +
      fragment.payload.length
    if retained > r.limit then r.abort fragment.ruleId
    else
      { r with
        all1 := true
        all1Window := fragment.window
        all1Mic := fragment.mic
        finalLen := fragment.payload.length
        finalTile := overwrite r.finalTile 0 fragment.payload }.finalize

def receiveTile (r : FragmentReceiver) (fragment : Fragment) : ReceiverResult × FragmentReceiver :=
  if fragment.window = 1 ∧ fragment.fcn = 0 then r.abort fragment.ruleId
  else if r.all1 ∧ (fragment.window > r.all1Window ∨
      (fragment.window = r.all1Window ∧ fragment.fcn = 0)) then r.abort fragment.ruleId
  else
    let ordinal := fragment.window.toNat * windowSize + 62 - fragment.fcn.toNat
    let endOffset := (ordinal + 1) * tileSize
    if endOffset > r.limit then r.abort fragment.ruleId
    else
      let bit := 1#64 <<< fragment.fcn.toNat
      let bitmap := r.bitmap fragment.window.toNat
      if bitmap &&& bit ≠ 0 then
        if r.storage.extract (ordinal * tileSize) endOffset ≠ fragment.payload then
          r.abort fragment.ruleId
        else (.default, r)
      else
        (.default, (r.store (ordinal * tileSize) fragment.payload).setBitmap
          fragment.window.toNat (bitmap ||| bit))

def isValid (fragment : Fragment) : Bool :=
  (checkRule fragment.ruleId).toBool && fragment.window ≤ 1 && fragment.fcn ≤ all1Fcn &&
    (fragment.isAll1 || fragment.window = 0 || fragment.fcn ≠ 0) &&
    (fragment.isAll1 && 1 ≤ fragment.payload.length && fragment.payload.length ≤ tileSize ||
      !fragment.isAll1 && fragment.payload.length = tileSize && fragment.mic = Fragment.zeroMic)

section

variable (r : FragmentReceiver)

def receiveValid (fragment : Fragment) :
    ReceiverResult × FragmentReceiver :=
  match r.ruleId.filter (· ≠ fragment.ruleId) with
  | some active => r.abort active
  | none =>
    let r := { r with ruleId := some fragment.ruleId }
    if fragment.isAll1 then r.receiveAll1 fragment else r.receiveTile fragment

def receive (fragment : Fragment) : ReceiverResult × FragmentReceiver :=
  if isValid fragment then (if r.done then r.reset else r).receiveValid fragment
  else if r.done then (.default, r)
  else r.abort fragment.ruleId

def receiveAckRequest (ruleId : UInt8) :
    ReceiverResult × FragmentReceiver :=
  match r.ruleId.filter (· ≠ ruleId) with
  | some active => r.abort active
  | none =>
    let r := { r with ruleId := some ruleId }
    if r.all1 then r.finalize
    else
      let window : UInt8 := if r.bitmaps.1 = bitmapMask then 1 else 0
      r.respond (Ack.new ruleId window (r.bitmap window.toNat) false)

def receiveMessage (ruleId : UInt8) (data : Bytes) :
    Except FragmentError ReceiverResult × FragmentReceiver :=
  match (Control.ackRequest ruleId (data.getD 1 0 >>> 7)).writeTo 3 with
  | .error error => (.error error, r)
  | .ok request =>
    if data = request then
      ((if r.done then r.reset else r).receiveAckRequest ruleId).map .ok id
    else
      match isSenderFacingControl data ruleId with
      | .error error => (.error error, r)
      | .ok true => (.error .malformedAck, r)
      | .ok false =>
        match Fragment.fromBytes data tileSize with
        | .ok fragment => ((if r.done then r.reset else r).receive fragment).map .ok id
        | .error _ => if r.done then (.ok .default, r) else (r.abort ruleId).map .ok id

def receiveBytes (data : Bytes) :
    Except FragmentError ReceiverResult × FragmentReceiver :=
  if data.length < 2 then (.error (.tooShort 2 data.length), r)
  else
    let ruleId := data.getD 0 0
    match checkRule ruleId, (Control.senderAbort ruleId).writeTo 3 with
    | .error error, _ | _, .error error => (.error error, r)
    | .ok (), .ok senderAbort =>
      if data = senderAbort then (.ok ⟨none, none, none, true⟩, r.release)
      else r.receiveMessage ruleId data

end

end FragmentReceiver

end Lichen.Schc
