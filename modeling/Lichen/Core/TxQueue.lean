import Mathlib.Logic.Function.Basic
import Lichen.Core.DutyCycle
import Lichen.Lib.Heap

namespace Lichen.Core

open Lichen.Lib

def txQueueCapacity : Nat := 4
def txItemMaxPayload : Nat := 255

inductive TxPriority where
  | sos
  | routing
  | urgent
  | normal
  | bulk
  deriving DecidableEq

def TxPriority.toU8 : TxPriority → Nat
  | sos => 0
  | routing => 1
  | urgent => 2
  | normal => 3
  | bulk => 4

def checkCongestionAllows : CongestionLevel → TxPriority → Bool
  | .normal, _ => true
  | .elevated, priority => priority.toU8 ≤ TxPriority.urgent.toU8
  | .critical, priority => priority.toU8 ≤ TxPriority.routing.toU8
  | .exhausted, _ => false

inductive CsmaAction where
  | transmit
  | backoff (slots : UInt8) (delayMs : UInt32)
  | retryExhausted

def CsmaAction.txAllowed : CsmaAction → Bool
  | transmit => true
  | _ => false

inductive TxQueueError where
  | queueFull
  | payloadTooLarge
  | deadlineExpired

structure TxItem where
  priority : TxPriority
  sequence : UInt32
  deadlineMs : UInt64
  enqueueTimeMs : UInt64
  data : List UInt8
  fits : data.length ≤ txItemMaxPayload

structure Packet where
  priority : TxPriority
  deadlineMs : UInt64
  enqueueTimeMs : UInt64
  data : List UInt8
  fits : data.length ≤ txItemMaxPayload
  deriving DecidableEq

namespace TxItem

def new (priority : TxPriority) (sequence : UInt32) (deadlineMs enqueueTimeMs : UInt64)
    (data : List UInt8) : Option TxItem :=
  if fits : data.length ≤ txItemMaxPayload then
    some ⟨priority, sequence, deadlineMs, enqueueTimeMs, data, fits⟩
  else none

def isExpired (item : TxItem) (nowMs : UInt64) : Bool := nowMs ≥ item.deadlineMs

def distance (newer older : UInt32) : Int := (newer - older).toBitVec.toInt

/-- The greater item is served first: the better priority, then the older sequence number. -/
def cmp (self other : TxItem) : Ordering :=
  match compare other.priority.toU8 self.priority.toU8 with
  | .eq => compare (distance other.sequence self.sequence) 0
  | ord => ord

end TxItem

/-- The queue over a heap from a library. Its counters of packets are `u32` and saturate. -/
structure TxQueue (B : BinaryHeap TxItem.cmp txQueueCapacity) where
  heap : B.Carrier
  sequence : UInt32
  bytesPending : Nat
  byPriority : TxPriority → Nat
  packetsQueued : Nat
  packetsDroppedDeadline : Nat
  packetsDroppedFull : Nat
  packetsPreempted : Nat
  maxLatencyMs : Nat
  avgLatencyScaled : Nat
  observedNowMs : UInt64

namespace TxQueue

variable {B : BinaryHeap TxItem.cmp txQueueCapacity}

def new : TxQueue B := ⟨B.new, 0, 0, fun _ => 0, 0, 0, 0, 0, 0, 0, 0⟩

def release (q : TxQueue B) (item : TxItem) : TxQueue B :=
  { q with
    bytesPending := q.bytesPending - item.data.length
    byPriority := Function.update q.byPriority item.priority (q.byPriority item.priority - 1) }

def enqueue (q : TxQueue B) (item : TxItem) : TxQueue B :=
  { q with
    heap := B.push q.heap item
    sequence := q.sequence + 1
    bytesPending := q.bytesPending + item.data.length
    byPriority := Function.update q.byPriority item.priority (q.byPriority item.priority + 1)
    packetsQueued := saturate32 (q.packetsQueued + 1) }

def rebuild {σ : Type} (q : TxQueue B) (f : TxQueue B × σ → TxItem → Option (TxQueue B × σ))
    (s : σ) : σ × TxQueue B :=
  let (items, heap) := B.drain q.heap
  let ((q, s), temp) := sweep f ({ q with heap }, s) items
  (s, { q with heap := B.pushAll q.heap temp })

def expireItem (nowMs : UInt64) : TxQueue B × Nat → TxItem → Option (TxQueue B × Nat)
  | (q, expiredCount), item =>
    if item.isExpired nowMs then
      let q := q.release item
      some ({ q with packetsDroppedDeadline := saturate32 (q.packetsDroppedDeadline + 1) },
        expiredCount + 1)
    else none

def expireBefore (q : TxQueue B) (nowMs : UInt64) : Nat × TxQueue B :=
  let q := { q with observedNowMs := max q.observedNowMs nowMs }
  q.rebuild (expireItem q.observedNowMs) 0

/-- The older of an item and a sequence number, among the items of one priority. -/
def oldestAt (worstPriority : Nat) (oldest : Option UInt32) (item : TxItem) : Option UInt32 :=
  if item.priority.toU8 = worstPriority then
    match oldest with
    | none => some item.sequence
    | some sequence =>
      if TxItem.distance item.sequence sequence < 0 then some item.sequence else some sequence
  else oldest

def preemptItem (worstPriority : Nat) (targetSeq : UInt32) :
    TxQueue B × Bool → TxItem → Option (TxQueue B × Bool)
  | (q, removed), item =>
    if !removed && (item.priority.toU8 = worstPriority && item.sequence = targetSeq) then
      let q := q.release item
      some ({ q with packetsPreempted := saturate32 (q.packetsPreempted + 1) }, true)
    else none

section

variable (q : TxQueue B)

def tryPreempt (newPriority : TxPriority) : Bool × TxQueue B :=
  let worstPriority := (B.iter q.heap).foldl (fun worst item => max worst item.priority.toU8) 0
  if newPriority.toU8 ≥ worstPriority then (false, q)
  else
    match (B.iter q.heap).foldl (oldestAt worstPriority) none with
    | none => (false, q)
    | some targetSeq => q.rebuild (preemptItem worstPriority targetSeq) false

def push (priority : TxPriority) (deadlineMs nowMs : UInt64) (data : List UInt8) :
    Except TxQueueError Unit × TxQueue B :=
  let q := (q.expireBefore nowMs).2
  if deadlineMs ≤ q.observedNowMs then (.error .deadlineExpired, q)
  else
    match TxItem.new priority q.sequence deadlineMs q.observedNowMs data with
    | none => (.error .payloadTooLarge, q)
    | some item =>
      if (B.iter q.heap).length < txQueueCapacity then (.ok (), q.enqueue item)
      else
        match q.tryPreempt priority with
        | (true, q) => (.ok (), q.enqueue item)
        | (false, q) =>
          (.error .queueFull, { q with packetsDroppedFull := saturate32 (q.packetsDroppedFull + 1) })

def recordLatency (item : TxItem) : TxQueue B :=
  let latencyMs := saturate32 (q.observedNowMs.toNat - item.enqueueTimeMs.toNat)
  { q with
    maxLatencyMs := max q.maxLatencyMs latencyMs
    avgLatencyScaled :=
      saturate32 (q.avgLatencyScaled - q.avgLatencyScaled / 8 + latencyMs) }

def pop (nowMs : UInt64) : Option TxItem × TxQueue B :=
  let q := (q.expireBefore nowMs).2
  match B.pop q.heap with
  | none => (none, q)
  | some (item, heap) => (some item, ({ q with heap }.release item).recordLatency item)

end

def takeAllowed (level : CongestionLevel) :
    TxQueue B × Option TxItem → TxItem → Option (TxQueue B × Option TxItem)
  | (q, found), item =>
    if !found.isSome && checkCongestionAllows level item.priority then
      some ((q.release item).recordLatency item, some item)
    else none

def popIfAllowed (q : TxQueue B) (nowMs : UInt64) (level : CongestionLevel) :
    Option TxItem × TxQueue B :=
  let q := (q.expireBefore nowMs).2
  if level = .exhausted then (none, q)
  else if (B.peek q.heap).any (checkCongestionAllows level ·.priority) then q.pop nowMs
  else q.rebuild (takeAllowed level) none

def popAfterCsma (q : TxQueue B) (nowMs : UInt64) (level : CongestionLevel) (action : CsmaAction) :
    Option TxItem × TxQueue B :=
  if !action.txAllowed then (none, q) else q.popIfAllowed nowMs level

end TxQueue

structure TxQueueStats where
  depth : Nat
  bytesPending : Nat
  byPriority : TxPriority → Nat
  packetsQueued : Nat
  packetsDroppedDeadline : Nat
  packetsDroppedFull : Nat
  packetsPreempted : Nat
  maxLatencyMs : Nat
  avgLatencyMs : Nat

def TxQueue.stats {B : BinaryHeap TxItem.cmp txQueueCapacity} (q : TxQueue B) : TxQueueStats where
  depth := (B.iter q.heap).length
  bytesPending := q.bytesPending
  byPriority := q.byPriority
  packetsQueued := q.packetsQueued
  packetsDroppedDeadline := q.packetsDroppedDeadline
  packetsDroppedFull := q.packetsDroppedFull
  packetsPreempted := q.packetsPreempted
  maxLatencyMs := q.maxLatencyMs
  avgLatencyMs := q.avgLatencyScaled / 8

end Lichen.Core
