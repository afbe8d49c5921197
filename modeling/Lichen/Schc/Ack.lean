import Lichen.Schc.Fragment

namespace Lichen.Schc

open Lichen.Lib

structure Ack where
  ruleId : UInt8
  window : UInt8
  /-- Position 0 (FCN 62) is bit 62; position 62 (FCN 0 or All-1) is bit 0. -/
  bitmap : BitVec 64
  complete : Bool
  deriving DecidableEq

def octetOf (top count : Nat) (bit : Nat → Bool) : UInt8 :=
  (List.range count).foldl
    (fun octet i => if bit i then octet ||| (1 <<< UInt8.ofNat (top - i)) else octet) 0

namespace Ack

def new (ruleId window : UInt8) (bitmap : BitVec 64) (complete : Bool) : Ack :=
  ⟨ruleId, window, bitmap &&& bitmapMask, complete⟩

section

variable (bitmap : BitVec 64)

def trailingOnes : Nat := (~~~bitmap).ctz.toNat

/-- The number of octets behind the first that the bitmap takes without its trailing ones. -/
def bodyBytes : Nat :=
  let n := windowSize - trailingOnes (bitmap &&& bitmapMask)
  (n - 6 + 7) / 8

/-- Bit `i` of the compressed bitmap: the trailing ones that align it to octets are restored. -/
def encodedBit (i : Nat) : Bool :=
  let trailing := trailingOnes (bitmap &&& bitmapMask)
  if i < windowSize - trailing then bitmap.getLsbD (62 - i) else trailing > 0

end

def encode (ack : Ack) : Bytes :=
  let bit := encodedBit ack.bitmap
  ack.ruleId :: ((ack.window <<< 7) ||| octetOf 5 6 bit) ::
    (List.range (bodyBytes ack.bitmap)).map fun j => octetOf 7 8 fun i => bit (6 + j * 8 + i)

def writeTo (ack : Ack) (capacity : Nat) : Except FragmentError Bytes :=
  match checkRule ack.ruleId with
  | .error error => .error error
  | .ok () =>
    if ack.window > 1 then .error .invalidWindow
    else if ack.complete then
      if ack.bitmap ≠ 0 then .error .malformedAck
      else if capacity < 2 then .error (.bufferTooSmall 2 capacity)
      else .ok [ack.ruleId, (ack.window <<< 7) ||| 0x40]
    else
      let needed := 2 + bodyBytes ack.bitmap
      if capacity < needed then .error (.bufferTooSmall needed capacity) else .ok ack.encode

def decodedBit (data : Bytes) (i : Nat) : Bool :=
  if i < 6 then (data.getD 1 0 >>> UInt8.ofNat (5 - i)) &&& 1 ≠ 0
  else (data.getD (2 + (i - 6) / 8) 0 >>> UInt8.ofNat (7 - (i - 6) % 8)) &&& 1 ≠ 0

def decodedBitmap (data : Bytes) : BitVec 64 :=
  let totalBits := 6 + (data.length - 2) * 8
  let bitmap := (List.range (min totalBits 63)).foldl
    (fun bitmap i => if decodedBit data i then bitmap ||| (1#64 <<< (62 - i)) else bitmap) 0#64
  let bitmap := if totalBits < 63 then bitmap ||| ((1#64 <<< (63 - totalBits)) - 1) else bitmap
  bitmap &&& bitmapMask

def canonical (ack : Ack) (data : Bytes) (capacity : Nat) : Except FragmentError Ack :=
  match ack.writeTo capacity with
  | .error error => .error error
  | .ok written => if written ≠ data then .error .nonCanonicalAck else .ok ack

def fromBytesFor (data : Bytes) (assigned : Option (BitVec 64)) : Except FragmentError Ack :=
  if data.length < 2 then .error (.tooShort 2 data.length)
  else if data.length > 10 then .error .malformedAck
  else
    let ruleId := data.getD 0 0
    let window := (data.getD 1 0 >>> 7) &&& 1
    if data.getD 1 0 &&& 0x40 ≠ 0 then
      if data.length ≠ 2 then .error .malformedAck
      else canonical (new ruleId window 0 true) data 2
    else
      let bitmap := decodedBitmap data
      if 2 + bodyBytes bitmap ≠ data.length then .error .nonCanonicalAck
      else
        match canonical (new ruleId window bitmap false) data 10 with
        | .error error => .error error
        | .ok ack =>
          if assigned.any fun mask => bitmap &&& ~~~mask &&& bitmapMask ≠ 0 then
            .error .unassignedBitmapBit
          else .ok ack

def fromBytes (data : Bytes) : Except FragmentError Ack := fromBytesFor data none

theorem octetOf_and (bit : Nat → Bool) : octetOf 5 6 bit &&& 0xC0 = 0 := by
  have hstep : ∀ i ∈ List.range 6, ∀ octet : UInt8, octet &&& 0xC0 = 0 →
      (octet ||| (1 <<< UInt8.ofNat (5 - i))) &&& 0xC0 = 0 := by decide +kernel
  refine List.foldlRecOn (motive := fun octet : UInt8 => octet &&& 0xC0 = 0) _ _ rfl
    fun octet hoctet i hi => ?_
  split
  · exact hstep i hi octet hoctet
  · exact hoctet

theorem writeTo_incomplete {ack : Ack} (h : ack.writeTo capacity = .ok data)
    (hcomplete : ack.complete = false) : data.getD 1 0 &&& 0x40 = 0 := by
  have hzero : ∀ octet : UInt8, octet &&& 0xC0 = 0 →
      (((0 : UInt8) <<< 7) ||| octet) &&& 0x40 = 0 := by decide +kernel
  have hone : ∀ octet : UInt8, octet &&& 0xC0 = 0 →
      (((1 : UInt8) <<< 7) ||| octet) &&& 0x40 = 0 := by decide +kernel
  simp only [writeTo, hcomplete] at h
  split at h
  · cases h
  split at h
  · cases h
  rename_i hwindow
  simp only [Bool.false_eq_true, if_false] at h
  split at h
  · cases h
  cases h
  change ((ack.window <<< 7) ||| octetOf 5 6 _) &&& 0x40 = 0
  obtain hwindow | hwindow := (Fragment.window_cases ack.window).mp hwindow
  · rw [hwindow]
    exact hzero _ (octetOf_and _)
  · rw [hwindow]
    exact hone _ (octetOf_and _)

theorem canonical_ok {ack : Ack} (h : canonical ack data capacity = .ok ack') :
    ack' = ack ∧ ack.writeTo capacity = .ok data := by
  simp only [canonical] at h
  split at h
  · cases h
  rename_i hwritten
  split at h
  · cases h
  · cases h
    rename_i hsame
    exact ⟨rfl, by rw [hwritten, not_not.mp hsame]⟩

theorem fromBytesFor_complete {ack : Ack} (h : fromBytesFor data assigned = .ok ack) :
    (ack.complete = true ↔ data.getD 1 0 &&& 0x40 ≠ 0) ∧
      (ack.complete = true → data.length = 2) := by
  simp only [fromBytesFor] at h
  split at h
  · cases h
  split at h
  · cases h
  split at h
  · rename_i hbit
    split at h
    · cases h
    · obtain ⟨rfl, -⟩ := canonical_ok h
      exact ⟨iff_of_true rfl hbit, fun _ => not_not.mp ‹_›⟩
  rename_i hbit
  split at h
  · cases h
  split at h
  · cases h
  rename_i hcanonical
  obtain ⟨rfl, -⟩ := canonical_ok hcanonical
  split at h
  · cases h
  · cases h
    exact ⟨iff_of_false (by simp [new]) hbit, by simp [new]⟩

end Ack

inductive Control where
  | ackRequest (ruleId window : UInt8)
  | senderAbort (ruleId : UInt8)
  | receiverAbort (ruleId : UInt8)

namespace Control

def write (ruleId : UInt8) (message : Bytes) (capacity : Nat) : Except FragmentError Bytes :=
  match checkRule ruleId with
  | .error error => .error error
  | .ok () =>
    if capacity < message.length then .error (.bufferTooSmall message.length capacity)
    else .ok message

def writeTo (control : Control) (capacity : Nat) : Except FragmentError Bytes :=
  match control with
  | .ackRequest ruleId window =>
    if window ≤ 1 then write ruleId [ruleId, window <<< 7] capacity else .error .invalidWindow
  | .senderAbort ruleId => write ruleId [ruleId, 0xfe] capacity
  | .receiverAbort ruleId => write ruleId [ruleId, 0xff, 0xff] capacity

theorem write_ok (h : write ruleId message capacity = .ok data) :
    checkRule ruleId = .ok () ∧ data = message := by
  rw [write] at h
  split at h
  · cases h
  rename_i hrule
  split at h
  · cases h
  · cases h
    exact ⟨hrule, rfl⟩

theorem write_of_le (hrule : checkRule ruleId = .ok ()) (hroom : message.length ≤ room) :
    write ruleId message room = .ok message := by
  simp only [write, hrule, if_neg (Nat.not_lt.mpr hroom)]

theorem writeTo_of_le {control : Control} (h : control.writeTo capacity = .ok data)
    (hroom : data.length ≤ room) : control.writeTo room = .ok data := by
  cases control with
  | ackRequest ruleId window =>
    simp only [writeTo] at h ⊢
    split at h
    · obtain ⟨hrule, rfl⟩ := write_ok h
      rw [if_pos ‹_›, write_of_le hrule hroom]
    · cases h
  | senderAbort | receiverAbort =>
    obtain ⟨hrule, rfl⟩ := write_ok h
    exact write_of_le hrule hroom

theorem writeTo_ackRequest (h : (ackRequest ruleId window).writeTo capacity = .ok data) :
    data = [ruleId, window <<< 7] ∧ (window <<< 7) >>> 7 = window := by
  have hback : ∀ w : UInt8, w ≤ 1 → (w <<< 7) >>> 7 = w := by decide +kernel
  simp only [writeTo] at h
  split at h
  · exact ⟨(write_ok h).2, hback window ‹_›⟩
  · cases h

end Control

def isSenderFacingControl (data : Bytes) (ruleId : UInt8) : Except FragmentError Bool := do
  if data = (← (Control.receiverAbort ruleId).writeTo 3) then return true
  if data = (← (Control.senderAbort ruleId).writeTo 3) then return false
  let window := data.getD 1 0 >>> 7
  if data = (← (Control.ackRequest ruleId window).writeTo 3) then return false
  return (Ack.fromBytes data).toBool

end Lichen.Schc
