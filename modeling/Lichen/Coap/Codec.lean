import Lichen.Core.Types

namespace Lichen.Coap

open Lichen.Lib Lichen.Core

def coapVersion : UInt8 := 1
def minHeaderLen : Nat := 4
def maxTokenLen : Nat := 8
def payloadMarker : UInt8 := 0xFF

inductive MessageType where
  | confirmable
  | nonConfirmable
  | acknowledgement
  | reset

def MessageType.toU8 : MessageType → UInt8
  | confirmable => 0
  | nonConfirmable => 1
  | acknowledgement => 2
  | reset => 3

structure MessageCode where
  byte : UInt8

inductive CoapError where
  | tooShort (error : TooShort)
  | wrongVersion (version : UInt8)
  | tokenTooLong (length : UInt8)
  | invalidOptionDelta
  | invalidOptionLength
  | truncatedOption
  | invalidPayloadMarker
  | bufferTooSmall (error : BufferTooSmall)
  | optionNumberOverflow
  deriving DecidableEq

/-- The sum of 16-bit numbers. A build with overflow checks panics if it does not fit, one without
them wraps around. -/
def addU16 (overflowChecks : Bool) (a b : UInt16) : Option UInt16 :=
  if overflowChecks ∧ 2 ^ 16 ≤ a.toNat + b.toNat then none else some (a + b)

def checkedAdd (a b : UInt16) : Option UInt16 :=
  if a.toNat + b.toNat < 2 ^ 16 then some (a + b) else none

/-- The delta of an option and the size of its extension at `i`; `none` is a panic. -/
def readDelta (overflowChecks : Bool) (data : Bytes) (i : Nat) (nibble : UInt8) :
    Option (Except CoapError (UInt16 × Nat)) :=
  if nibble = 13 then
    if data.length ≤ i then some (.error .truncatedOption)
    else some (.ok ((data.getD i 0).toUInt16 + 13, 1))
  else if nibble = 14 then
    if data.length ≤ i + 1 then some (.error .truncatedOption)
    else
      (addU16 overflowChecks
        (((data.getD i 0).toUInt16 <<< 8) ||| (data.getD (i + 1) 0).toUInt16) 269).map
        fun delta => .ok (delta, 2)
  else if nibble = 15 then some (.error .invalidOptionDelta)
  else some (.ok (nibble.toUInt16, 0))

def readLength (data : Bytes) (i : Nat) (nibble : UInt8) : Except CoapError (Nat × Nat) :=
  if nibble = 13 then
    if data.length ≤ i then .error .truncatedOption
    else .ok ((data.getD i 0).toNat + 13, 1)
  else if nibble = 14 then
    if data.length ≤ i + 1 then .error .truncatedOption
    else .ok (((data.getD i 0).toNat <<< 8 ||| (data.getD (i + 1) 0).toNat) + 269, 2)
  else if nibble = 15 then .error .invalidOptionLength
  else .ok (nibble.toNat, 0)

/-- Validate the options from `i` on and find the payload marker behind them. -/
def findPayloadMarkerFrom (overflowChecks : Bool) (data : Bytes) (i : Nat) (currentNumber : UInt16) :
    Option (Except CoapError (Option Nat)) :=
  if i < data.length then
    let first := data.getD i 0
    if first = payloadMarker then some (.ok (some i))
    else
      match readDelta overflowChecks data (i + 1) ((first >>> 4) &&& 0x0F) with
      | none => none
      | some (.error e) => some (.error e)
      | some (.ok (delta, deltaExt)) =>
        match checkedAdd currentNumber delta with
        | none => some (.error .optionNumberOverflow)
        | some number =>
          match readLength data (i + 1 + deltaExt) (first &&& 0x0F) with
          | .error e => some (.error e)
          | .ok (len, lengthExt) =>
            if data.length < i + 1 + deltaExt + lengthExt + len then some (.error .truncatedOption)
            else
              findPayloadMarkerFrom overflowChecks data (i + 1 + deltaExt + lengthExt + len) number
  else some (.ok none)
termination_by data.length - i

def findPayloadMarker (overflowChecks : Bool) (data : Bytes) :
    Option (Except CoapError (Option Nat)) :=
  findPayloadMarkerFrom overflowChecks data 0 0

structure CoapOption where
  number : UInt16
  value : Bytes

structure OptionIterator where
  data : Bytes
  offset : Nat
  currentNumber : UInt16

namespace OptionIterator

def next (overflowChecks : Bool) (it : OptionIterator) :
    Option (Option (Except CoapError CoapOption) × OptionIterator) :=
  if it.data.length ≤ it.offset then some (none, it)
  else
    let first := it.data.getD it.offset 0
    if first = payloadMarker then some (none, it)
    else
      match readDelta overflowChecks it.data (it.offset + 1) ((first >>> 4) &&& 0x0F) with
      | none => none
      | some (.error e) => some (some (.error e), { it with offset := it.offset + 1 })
      | some (.ok (delta, deltaExt)) =>
        match readLength it.data (it.offset + 1 + deltaExt) (first &&& 0x0F) with
        | .error e => some (some (.error e), { it with offset := it.offset + 1 + deltaExt })
        | .ok (len, lengthExt) =>
          let valueAt := it.offset + 1 + deltaExt + lengthExt
          if it.data.length < valueAt + len then
            some (some (.error .truncatedOption), { it with offset := valueAt })
          else
            match checkedAdd it.currentNumber delta with
            | none => some (some (.error .optionNumberOverflow), { it with offset := valueAt })
            | some number =>
              some (some (.ok ⟨number, it.data.extract valueAt (valueAt + len)⟩),
                { it with offset := valueAt + len, currentNumber := number })

theorem lt_of_next (h : next overflowChecks it = some (some item, it')) :
    it.offset < it.data.length ∧ it.offset < it'.offset ∧ it'.data = it.data := by
  revert h
  rw [next]
  split_ifs with hend
  · rintro ⟨⟩
  dsimp only
  split_ifs
  · rintro ⟨⟩
  refine fun h => ⟨Nat.lt_of_not_le hend, ?_⟩
  revert h
  split
  · rintro ⟨⟩
  · rintro ⟨⟩
    exact ⟨Nat.lt_succ_self _, rfl⟩
  split
  · rintro ⟨⟩
    exact ⟨by dsimp only; omega, rfl⟩
  split_ifs
  · rintro ⟨⟩
    exact ⟨by dsimp only; omega, rfl⟩
  split
  · rintro ⟨⟩
    exact ⟨by dsimp only; omega, rfl⟩
  · rintro ⟨⟩
    exact ⟨by dsimp only; omega, rfl⟩

def collect (overflowChecks : Bool) (it : OptionIterator) :
    Option (List (Except CoapError CoapOption)) :=
  match _hnext : next overflowChecks it with
  | none => none
  | some (none, _) => some []
  | some (some item, it') => (collect overflowChecks it').map (item :: ·)
termination_by it.data.length - it.offset
decreasing_by
  obtain ⟨hend, hlt, hdata⟩ := lt_of_next _hnext
  rw [hdata]
  omega

theorem collect_of_end (h : next overflowChecks it = some (none, it')) :
    collect overflowChecks it = some [] := by
  rw [collect]
  split <;> simp_all

theorem collect_of_item (h : next overflowChecks it = some (some item, it')) :
    collect overflowChecks it = (collect overflowChecks it').map (item :: ·) := by
  rw [collect]
  split <;> simp_all

end OptionIterator

structure CoapPacket where
  data : Bytes
  optionsStart : Nat
  optionsEnd : Nat
  payloadStart : Nat
  deriving DecidableEq

namespace CoapPacket

def fromBytes (overflowChecks : Bool) (data : Bytes) : Option (Except CoapError CoapPacket) :=
  if data.length < minHeaderLen then some (.error (.tooShort ⟨minHeaderLen, data.length⟩))
  else
    let ver := data.getD 0 0 >>> 6
    if ver ≠ coapVersion then some (.error (.wrongVersion ver))
    else
      let tkl := (data.getD 0 0 &&& 0x0F).toNat
      if maxTokenLen < tkl then some (.error (.tokenTooLong (UInt8.ofNat tkl)))
      else
        let optionsStart := minHeaderLen + tkl
        if data.length < optionsStart then
          some (.error (.tooShort ⟨optionsStart, data.length⟩))
        else
          match findPayloadMarker overflowChecks (data.drop optionsStart) with
          | none => none
          | some (.error e) => some (.error e)
          | some (.ok none) => some (.ok ⟨data, optionsStart, data.length, data.length⟩)
          | some (.ok (some off)) =>
            let payloadStart := optionsStart + off + 1
            if payloadStart = data.length then some (.error .invalidPayloadMarker)
            else some (.ok ⟨data, optionsStart, optionsStart + off, payloadStart⟩)

section

variable (packet : CoapPacket)

def msgType : MessageType :=
  match (packet.data.getD 0 0 >>> 4) &&& 0x03 with
  | 0 => .confirmable
  | 1 => .nonConfirmable
  | 2 => .acknowledgement
  | _ => .reset

def code : MessageCode := ⟨packet.data.getD 1 0⟩

def messageId : UInt16 := UInt16.ofNat (beNat (packet.data.extract 2 4))

def token : Bytes := packet.data.extract minHeaderLen packet.optionsStart

def options : OptionIterator where
  data := packet.data.extract packet.optionsStart packet.optionsEnd
  offset := 0
  currentNumber := 0

def payload : Bytes :=
  if packet.payloadStart < packet.data.length then packet.data.drop packet.payloadStart else []

end

end CoapPacket

end Lichen.Coap
