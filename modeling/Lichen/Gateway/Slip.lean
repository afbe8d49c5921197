import Lichen.Lib.Regions
import Lichen.Lib.Run

namespace Lichen.Gateway

open Lichen.Lib List

def fend : UInt8 := 0xC0
def fesc : UInt8 := 0xDB
def tfend : UInt8 := 0xDC
def tfesc : UInt8 := 0xDD

def slipEscape (byte : UInt8) : Bytes :=
  if byte = fend then [fesc, tfend]
  else if byte = fesc then [fesc, tfesc]
  else [byte]

theorem length_slipEscape_le (byte : UInt8) : (slipEscape byte).length ≤ 2 := by
  rw [slipEscape]
  split_ifs <;> simp

def slipEncode (packet : Bytes) : Bytes := fend :: (packet.flatMap slipEscape ++ [fend])

inductive SlipError where
  | packetTooLarge
  | queueFull
  | bufferTooSmall (needed : Nat)

def txBufferSize : Nat := 4096
def txQueueCapacity : Nat := 8

/-- The transmit side of the framer. The packets are offsets and lengths in the ring buffer; every
slice that it takes of the buffer is in range. -/
structure SlipFramer where
  txBuffer : Bytes
  txHead : Nat
  txTail : Nat
  txPackets : List (Nat × Nat)
  length_txBuffer : txBuffer.length = txBufferSize
  txHead_le : txHead ≤ txBufferSize
  txTail_le : txTail ≤ txBufferSize
  txPackets_le : ∀ packet ∈ txPackets, packet.1 + packet.2 ≤ txBufferSize

namespace SlipFramer

variable {framer : SlipFramer} {packet out : Bytes} {offset : Nat}

def new : SlipFramer where
  txBuffer := List.replicate txBufferSize 0
  txHead := 0
  txTail := 0
  txPackets := []
  length_txBuffer := length_replicate
  txHead_le := Nat.zero_le _
  txTail_le := Nat.zero_le _
  txPackets_le := fun _ h => (not_mem_nil h).elim

/-- The copy into the buffer at `offset`, the new tail behind it and the new packet at the back. -/
def store (framer : SlipFramer) (offset : Nat) (packet : Bytes)
    (h : offset + packet.length ≤ txBufferSize) : SlipFramer where
  txBuffer := overwrite framer.txBuffer offset packet
  txHead := framer.txHead
  txTail := offset + packet.length
  txPackets := framer.txPackets ++ [(offset, packet.length)]
  length_txBuffer := (length_overwrite (framer.length_txBuffer ▸ h)).trans framer.length_txBuffer
  txHead_le := framer.txHead_le
  txTail_le := h
  txPackets_le := by
    intro region hregion
    cases mem_append.mp hregion with
    | inl hold => exact framer.txPackets_le region hold
    | inr hnew =>
      rw [mem_singleton.mp hnew]
      exact h

def rewind (framer : SlipFramer) : SlipFramer :=
  if framer.txPackets = [] then
    { framer with
      txHead := 0
      txTail := 0
      txHead_le := Nat.zero_le _
      txTail_le := Nat.zero_le _ }
  else framer

/-- The packet goes to the free space behind the tail, or to the start of the buffer. -/
def place (framer : SlipFramer) (packet : Bytes) : Except SlipError Unit × SlipFramer :=
  if framer.txHead ≤ framer.txTail then
    if h : packet.length ≤ txBufferSize - framer.txTail then
      (.ok (), framer.store framer.txTail packet (by have := framer.txTail_le; omega))
    else if h : packet.length ≤ framer.txHead then
      (.ok (), framer.store 0 packet (by have := framer.txHead_le; omega))
    else (.error .packetTooLarge, framer)
  else if h : packet.length ≤ framer.txHead - framer.txTail then
    (.ok (), framer.store framer.txTail packet (by
      have := framer.txHead_le
      have := framer.txTail_le
      omega))
  else (.error .packetTooLarge, framer)

def queueSend (framer : SlipFramer) (packet : Bytes) : Except SlipError Unit × SlipFramer :=
  if txQueueCapacity ≤ framer.txPackets.length then (.error .queueFull, framer)
  else framer.rewind.place packet

def popFront (framer : SlipFramer) : SlipFramer where
  txBuffer := framer.txBuffer
  txHead := (framer.txPackets.tail.head?.map Prod.fst).getD framer.txTail
  txTail := framer.txTail
  txPackets := framer.txPackets.tail
  length_txBuffer := framer.length_txBuffer
  txHead_le := by
    cases hnext : framer.txPackets.tail with
    | nil => exact framer.txTail_le
    | cons next rest =>
      have hmem : next ∈ framer.txPackets := mem_of_mem_tail (hnext ▸ mem_cons_self)
      exact (Nat.le_add_right _ _).trans (framer.txPackets_le next hmem)
  txTail_le := framer.txTail_le
  txPackets_le := fun region h => framer.txPackets_le region (mem_of_mem_tail h)

/-- The loop over the bytes of a packet: the buffer and the position behind what was written. -/
def writeEscaped (out : Bytes) (pos : Nat) : Bytes → Bytes × Nat
  | [] => (out, pos)
  | byte :: bytes =>
    writeEscaped (overwrite out pos (slipEscape byte)) (pos + (slipEscape byte).length) bytes

def writeFrame (out packet : Bytes) : Bytes × Nat :=
  let written := writeEscaped (overwrite out 0 [fend]) 1 packet
  (overwrite written.1 written.2 [fend], written.2 + 1)

def tryGetTx (framer : SlipFramer) (out : Bytes) :
    Except SlipError (Option Nat) × Bytes × SlipFramer :=
  match framer.txPackets.head? with
  | none => (.ok none, out, framer)
  | some (offset, len) =>
    let packet := framer.txBuffer.extract offset (offset + len)
    let worstCase := 2 + len * 2
    if out.length < worstCase then (.error (.bufferTooSmall worstCase), out, framer)
    else
      let written := writeFrame out packet
      (.ok (some written.2), written.1, framer.popFront)

end SlipFramer

section Frame

open SlipFramer

theorem length_flatMap_slipEscape_le (packet : Bytes) :
    (packet.flatMap slipEscape).length ≤ 2 * packet.length := by
  induction packet with
  | nil => exact Nat.zero_le _
  | cons byte packet ih =>
    have hbyte := length_slipEscape_le byte
    rw [flatMap_cons, length_append, length_cons]
    omega

theorem writeEscaped_eq (out packet : Bytes) (pos : Nat)
    (h : pos + 2 * packet.length ≤ out.length) :
    (writeEscaped out pos packet).1.length = out.length ∧
      (writeEscaped out pos packet).2 = pos + (packet.flatMap slipEscape).length ∧
      (writeEscaped out pos packet).1.take (writeEscaped out pos packet).2 =
        out.take pos ++ packet.flatMap slipEscape := by
  induction packet generalizing out pos with
  | nil => simp [writeEscaped]
  | cons byte packet ih =>
    have hbyte := length_slipEscape_le byte
    rw [length_cons] at h
    have hlength : (overwrite out pos (slipEscape byte)).length = out.length :=
      length_overwrite (by omega)
    obtain ⟨hsame, hpos, htake⟩ :=
      ih (overwrite out pos (slipEscape byte)) (pos + (slipEscape byte).length) (by omega)
    rw [take_overwrite (by omega), append_assoc] at htake
    rw [writeEscaped, flatMap_cons, length_append]
    exact ⟨hsame.trans hlength, by omega, htake⟩

theorem take_writeFrame (h : 2 + packet.length * 2 ≤ out.length) :
    (writeFrame out packet).1.take (writeFrame out packet).2 = slipEncode packet := by
  have hfirst : (overwrite out 0 [fend]).length = out.length :=
    length_overwrite (by rw [length_singleton]; omega)
  obtain ⟨hlength, hpos, htake⟩ :=
    writeEscaped_eq (overwrite out 0 [fend]) packet 1 (by omega)
  have hsize := length_flatMap_slipEscape_le packet
  rw [show (overwrite out 0 [fend]).take 1 = [fend] from rfl] at htake
  have hlast := @take_overwrite _ (writeEscaped (overwrite out 0 [fend]) 1 packet).1 [fend]
    (writeEscaped (overwrite out 0 [fend]) 1 packet).2 (by omega)
  exact hlast.trans (congrArg (· ++ [fend]) htake)

end Frame

end Lichen.Gateway
