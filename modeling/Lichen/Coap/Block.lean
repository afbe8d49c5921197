import Lichen.Core.Types
import Mathlib.Logic.Function.Iterate

namespace Lichen.Coap

open Lichen.Core Lichen.Lib

inductive BlockError
  | invalidBlockOption
  | blockOutOfOrder
  | payloadTooLarge
  | bufferTooSmall (error : BufferTooSmall)

def maxPayload : Nat := 4096

def usizeAdd (a b : Nat) : Option Nat := if a + b < 2 ^ 64 then some (a + b) else none

def sizeToSzx (size : Nat) : Nat := if size < 16 then 0 else min (size.log2 - 4) 6

def exponentSize (szx : Nat) : Nat := 2 ^ (szx + 4)

def szxToSize (szx : Nat) : Nat := exponentSize (min szx 6)

theorem sizeToSzx_le : sizeToSzx size ≤ 6 := by
  rw [sizeToSzx]
  split
  · exact Nat.zero_le 6
  · exact Nat.min_le_right _ _

theorem exponentSize_mono (h : szx ≤ szx') :
    exponentSize szx ≤ exponentSize szx' :=
  Nat.pow_le_pow_right (by decide) (Nat.add_le_add_right h 4)

theorem sixteen_le_exponentSize (szx : Nat) : 16 ≤ exponentSize szx :=
  exponentSize_mono (Nat.zero_le szx)

theorem sizeToSzx_exponentSize (h : szx ≤ 6) : sizeToSzx (exponentSize szx) = szx := by
  rw [sizeToSzx, if_neg (Nat.not_lt.mpr (sixteen_le_exponentSize szx)), exponentSize,
    Nat.log2_two_pow, Nat.add_sub_cancel, Nat.min_eq_left h]

theorem szxToSize_eq (h : szx ≤ 6) : szxToSize szx = exponentSize szx := by
  rw [szxToSize, Nat.min_eq_left h]

structure BlockOption where
  num : Nat
  more : Bool
  szx : Nat
  deriving DecidableEq, Repr

namespace BlockOption

def new (num : Nat) (more : Bool) (szx : Nat) : Except BlockError BlockOption :=
  if szx > 6 then .error .invalidBlockOption
  else if num > 0xFFFFF then .error .invalidBlockOption
  else .ok ⟨num, more, szx⟩

def size (block : BlockOption) : Nat := exponentSize block.szx

def offset (block : BlockOption) : Nat := block.num * block.size

def fromSize (num : Nat) (more : Bool) (size : Nat) : Except BlockError BlockOption :=
  new num more (sizeToSzx size)

theorem fromSize_eq_ok {num : Nat} {more : Bool} {size : Nat} :
    fromSize num more size = .ok block ↔ num ≤ 0xFFFFF ∧ block = ⟨num, more, sizeToSzx size⟩ := by
  rw [fromSize, new, if_neg (Nat.not_lt.mpr sizeToSzx_le)]
  split
  · exact ⟨nofun, fun h => absurd h.1 (Nat.not_le.mpr ‹_›)⟩
  · rw [Except.ok.injEq]
    exact ⟨fun h => ⟨Nat.le_of_not_lt ‹_›, h.symm⟩, fun h => h.2.symm⟩

section

variable (hsized : ∃ szx ≤ 6, bytes = exponentSize szx)

include hsized

theorem fromSize_of_le (h : n * bytes ≤ maxPayload) (more : Bool) :
    fromSize n more bytes = .ok ⟨n, more, sizeToSzx bytes⟩ := by
  obtain ⟨szx, -, hsize⟩ := hsized
  have hbounded : n * bytes ≤ 4096 := h
  have hpos : 16 ≤ bytes := hsize ▸ sixteen_le_exponentSize szx
  have hnum := Nat.le_mul_of_pos_right n (Nat.lt_of_lt_of_le (by decide) hpos)
  exact fromSize_eq_ok.mpr ⟨by omega, rfl⟩

theorem offset_of_size (more : Bool) : offset ⟨n, more, sizeToSzx bytes⟩ = n * bytes := by
  obtain ⟨_, hszx, rfl⟩ := hsized
  rw [offset, size, sizeToSzx_exponentSize hszx]

end

end BlockOption

structure BlockSender where
  data : Bytes
  blockSize : Nat
  currentBlock : Nat
  complete : Bool
  bounded : data.length ≤ maxPayload
  sized : ∃ szx ≤ 6, blockSize = exponentSize szx

namespace BlockSender

def new (payload : Bytes) (blockSize : Nat) : Except BlockError BlockSender :=
  if h : payload.length > maxPayload then .error .payloadTooLarge
  else .ok
    { data := payload
      blockSize := szxToSize (sizeToSzx blockSize)
      currentBlock := 0
      complete := false
      bounded := Nat.le_of_not_lt h
      sized := ⟨_, sizeToSzx_le, szxToSize_eq sizeToSzx_le⟩ }

def nextBlock (sender : BlockSender) : Option (BlockOption × Bytes) :=
  if sender.complete then none
  else
    let offset := sender.currentBlock * sender.blockSize
    if offset ≥ sender.data.length then none
    else
      let stop := min (offset + sender.blockSize) sender.data.length
      match BlockOption.fromSize sender.currentBlock (stop < sender.data.length)
        sender.blockSize with
      | .ok block => some (block, sender.data.extract offset stop)
      | .error _ => none

theorem nextBlock_eq_some (sender : BlockSender) (hcomplete : sender.complete = false)
    (hoffset : sender.currentBlock * sender.blockSize < sender.data.length) :
    let stop := min (sender.currentBlock * sender.blockSize + sender.blockSize) sender.data.length
    sender.nextBlock = some (⟨sender.currentBlock, stop < sender.data.length,
      sizeToSzx sender.blockSize⟩,
      sender.data.extract (sender.currentBlock * sender.blockSize) stop) := by
  intro stop
  rw [nextBlock, if_neg (by rw [hcomplete]; exact Bool.false_ne_true)]
  dsimp only
  rw [if_neg (Nat.not_le.mpr hoffset),
    BlockOption.fromSize_of_le sender.sized (hoffset.le.trans sender.bounded)]

section

variable {sender : BlockSender}

section

variable {data : Bytes} (h : sender.nextBlock = some (block, data))

include h

theorem block_of_nextBlock :
    ∃ more, block = ⟨sender.currentBlock, more, sizeToSzx sender.blockSize⟩ := by
  rw [nextBlock] at h
  split at h
  · cases h
  dsimp only at h
  split at h
  · cases h
  split at h
  · rename_i hblock
    cases h
    exact ⟨_, (BlockOption.fromSize_eq_ok.mp hblock).2⟩
  · cases h

theorem szx_of_nextBlock : block.szx ≤ 6 := by
  obtain ⟨_, rfl⟩ := block_of_nextBlock h
  exact sizeToSzx_le

theorem offset_of_nextBlock : block.offset = sender.currentBlock * sender.blockSize := by
  obtain ⟨more, rfl⟩ := block_of_nextBlock h
  exact BlockOption.offset_of_size sender.sized more

end

/-- The end of the bytes that an acknowledgement covers, where it fits the block sent. -/
def ackEnd (dataLen : Nat) (sent ack : BlockOption) : Except BlockError Nat :=
  match usizeAdd sent.offset sent.size, usizeAdd ack.offset ack.size with
  | some sentEnd, some ackEnd =>
    let sentEnd := min sentEnd dataLen
    let ackEnd := min ackEnd dataLen
    if ack.offset > sent.offset ∨ ackEnd ≤ sent.offset ∨ ackEnd > sentEnd then
      .error .blockOutOfOrder
    else if ack.num + 1 ≥ 2 ^ 32 then .error .invalidBlockOption
    else .ok ackEnd
  | _, _ => .error .invalidBlockOption

theorem ackEnd_eq_ok {ack : BlockOption}
    (hsent : sent.offset + sent.size < 2 ^ 64) (hack : ack.offset + ack.size < 2 ^ 64)
    (hnum : ack.num + 1 < 2 ^ 32) (hstop : min (ack.offset + ack.size) dataLen = stop)
    (hstart : ack.offset ≤ sent.offset) (hlt : sent.offset < stop)
    (hle : stop ≤ min (sent.offset + sent.size) dataLen) : ackEnd dataLen sent ack = .ok stop := by
  simp only [ackEnd, usizeAdd, if_pos hsent, if_pos hack, hstop]
  rw [if_neg (by omega), if_neg (Nat.not_le.mpr hnum)]

def acknowledge (sender : BlockSender) (sent ack : BlockOption) :
    Except BlockError (Bool × BlockSender) :=
  match hnext : sender.nextBlock with
  | none => .error .blockOutOfOrder
  | some (current, _) =>
    if hmatch : current = sent ∧ ack.szx ≤ sent.szx ∧ ack.more = sent.more then
      match ackEnd sender.data.length sent ack with
      | .error error => .error error
      | .ok ackEnd =>
        let complete : Bool := ackEnd ≥ sender.data.length
        have hsized : ∃ szx ≤ 6, ack.size = exponentSize szx :=
          ⟨ack.szx, Nat.le_trans hmatch.2.1 (hmatch.1 ▸ szx_of_nextBlock hnext), rfl⟩
        .ok (complete, { sender with
          blockSize := ack.size, currentBlock := ack.num + 1, complete, sized := hsized })
    else .error .blockOutOfOrder

theorem acknowledge_eq_ok {ack : BlockOption} {data : Bytes}
    (hnext : sender.nextBlock = some (sent, data)) (hszx : ack.szx ≤ sent.szx)
    (hmore : ack.more = sent.more) (hstop : ackEnd sender.data.length sent ack = .ok stop) :
    ∃ acked, sender.acknowledge sent ack = .ok (stop ≥ sender.data.length, acked) ∧
      acked.data = sender.data ∧ acked.blockSize = ack.size ∧ acked.currentBlock = ack.num + 1 ∧
      acked.complete = decide (stop ≥ sender.data.length) := by
  rw [acknowledge]
  split
  · rename_i hnone
    rw [hnext] at hnone
    cases hnone
  · rename_i hsome
    rw [hnext] at hsome
    cases hsome
    rw [dif_pos ⟨rfl, hszx, hmore⟩, hstop]
    exact ⟨_, rfl, rfl, rfl, rfl, rfl⟩

end

end BlockSender

structure BlockReceiver where
  data : Bytes
  expectedBlock : Nat
  blockSize : Nat
  expectedSize : Option Nat
  complete : Bool
  bounded : data.length ≤ maxPayload

namespace BlockReceiver

def new (blockSize : Nat) : BlockReceiver :=
  ⟨[], 0, szxToSize (sizeToSzx blockSize), none, false, Nat.zero_le _⟩

def receiveBlock (receiver : BlockReceiver) (block : BlockOption) (data : Bytes) :
    Except BlockError (Bool × BlockReceiver) :=
  if receiver.complete then .error .blockOutOfOrder
  else if data.length > block.size ∨ block.more ∧ data.length ≠ block.size then
    .error .invalidBlockOption
  else if block.offset < receiver.data.length then .error .blockOutOfOrder
  else if block.offset > receiver.data.length then .error .blockOutOfOrder
  else
    let needed := receiver.data.length + data.length
    if hneeded : needed > maxPayload then .error (.bufferTooSmall ⟨needed, maxPayload⟩)
    else if ¬block.more ∧ receiver.expectedSize.any (· ≠ needed) then .error .invalidBlockOption
    else
      .ok (!block.more, { receiver with
        data := receiver.data ++ data
        expectedBlock := block.num + 1
        blockSize := block.size
        complete := !block.more
        bounded := by
          rw [List.length_append]
          exact Nat.le_of_not_lt hneeded })

def payload (receiver : BlockReceiver) : Bytes := receiver.data

theorem receiveBlock_eq_ok {receiver : BlockReceiver} {data : Bytes}
    (hcomplete : receiver.complete = false) (hsize : data.length ≤ block.size)
    (hmore : block.more → data.length = block.size) (hoffset : block.offset = receiver.data.length)
    (hbounded : receiver.data.length + data.length ≤ maxPayload)
    (hexpected : receiver.expectedSize = none) :
    ∃ received, receiver.receiveBlock block data = .ok (!block.more, received) ∧
      received.data = receiver.data ++ data ∧ received.complete = !block.more ∧
      received.expectedSize = none := by
  rw [receiveBlock, if_neg (by rw [hcomplete]; exact Bool.false_ne_true),
    if_neg (by rintro (h | ⟨h, hne⟩); exacts [Nat.not_lt.mpr hsize h, hne (hmore h)]),
    if_neg (by omega), if_neg (by omega)]
  rw [dif_neg (Nat.not_lt.mpr hbounded), if_neg (by rw [hexpected]; exact fun h => nomatch h.2)]
  exact ⟨_, rfl, rfl, rfl, hexpected⟩

theorem receiveBlock_of_overlap {receiver : BlockReceiver}
    (h : block.offset < receiver.data.length) (data : Bytes) :
    ∃ error, receiver.receiveBlock block data = .error error := by
  rw [receiveBlock]
  split
  · exact ⟨_, rfl⟩
  split
  · exact ⟨_, rfl⟩
  exact ⟨_, rfl⟩

end BlockReceiver

end Lichen.Coap
