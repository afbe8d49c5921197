import Lichen.Lib.Bytes
import Mathlib.Data.FinEnum

namespace Lichen.Schc

open Lichen.Lib

def all1Fcn : UInt8 := 63
def micLength : Nat := 4
def maxAckRequests : Nat := 4
def tileSize : Nat := 179
def windowSize : Nat := 63
def bitmapMask : BitVec 64 := (1 <<< windowSize) - 1
def maxPacketSize : Nat := 22554
def maxFragmentWireSize : Nat := tileSize + micLength + 2
def ruleIdAToB : UInt8 := 0x78
def ruleIdBToA : UInt8 := 0x79

theorem getLsbD_bitmapMask (k : Nat) : bitmapMask.getLsbD k = decide (k < 63) := by
  by_cases hk : k < 64
  · revert k
    decide +kernel
  · rw [BitVec.getLsbD_of_ge _ _ (by omega), decide_eq_false (by omega)]

abbrev Mic := List.Vector UInt8 micLength

inductive FragmentError where
  | tooShort (expected actual : Nat)
  | bufferTooSmall (needed available : Nat)
  | unsupportedRule
  | invalidWindow
  | invalidFcn
  | invalidTileLength
  | nonZeroPadding
  | malformedAck
  | nonCanonicalAck
  | unassignedBitmapBit
  | emptyPacket
  | invalidReceiverLimit
  | packetTooLarge
  | invalidState
  | versionMismatch
  | policyFull
  | invalidPeerEvidence
  | sessionBusy
  deriving DecidableEq

def checkRule (ruleId : UInt8) : Except FragmentError Unit :=
  if ruleId = ruleIdAToB ∨ ruleId = ruleIdBToA then .ok () else .error .unsupportedRule

def micBit (crc : UInt32) : UInt32 :=
  if crc &&& 1 = 0 then crc >>> 1 else (crc >>> 1) ^^^ 0xedb88320

def micByte (crc : UInt32) (byte : UInt8) : UInt32 := micBit^[8] (crc ^^^ byte.toUInt32)

def computeMic (data : Bytes) : Mic :=
  let crc := (data ++ [0]).foldl micByte 0xffffffff
  toArray micLength (beBytes 4 (~~~crc).toNat)

/-- The bytes of `content`, one bit to the left, behind the upper seven bits of `head`. -/
def shiftIn (head : UInt8) : Bytes → Bytes
  | [] => [head]
  | byte :: content => (head ||| (byte >>> 7)) :: shiftIn (byte <<< 1) content

def shiftOut : Bytes → Bytes
  | a :: b :: rest => ((a <<< 7) ||| (b >>> 1)) :: shiftOut (b :: rest)
  | _ => []

@[simp] theorem length_shiftIn : (shiftIn head content).length = content.length + 1 := by
  induction content generalizing head with
  | nil => rfl
  | cons byte content ih => simp [shiftIn, ih]

section

variable (byte : UInt8)

theorem shift_back : ((byte >>> 7) <<< 7) ||| ((byte <<< 1) >>> 1) = byte := by
  revert byte
  decide +kernel

theorem shiftLeft_one_seven : (byte <<< 1) <<< 7 = 0 := by
  revert byte
  decide +kernel

theorem and_one_of_shiftLeft (h : byte <<< 7 = 0) : byte &&& 1 = 0 := by
  revert byte
  decide +kernel

theorem shiftRight_seven_one : (byte >>> 7) >>> 1 = 0 := by
  revert byte
  decide +kernel

end

theorem shiftIn_head (head : UInt8) (content : Bytes) :
    ∃ carry rest, shiftIn head content = (head ||| carry) :: rest ∧ carry >>> 1 = 0 := by
  cases content with
  | nil => exact ⟨0, [], by simp [shiftIn], rfl⟩
  | cons byte content =>
    exact ⟨byte >>> 7, shiftIn (byte <<< 1) content, rfl, shiftRight_seven_one byte⟩

theorem shiftOut_shiftIn (head : UInt8) (content : Bytes) (h : head <<< 7 = 0) :
    shiftOut (shiftIn head content) = content := by
  induction content generalizing head with
  | nil => rfl
  | cons byte content ih =>
    obtain ⟨_, _, hrest, hcarry⟩ := shiftIn_head (byte <<< 1) content
    have ih := ih (byte <<< 1) (shiftLeft_one_seven byte)
    rw [shiftIn, hrest, shiftOut, ← hrest, ih, UInt8.shiftLeft_or, h, UInt8.shiftRight_or, hcarry,
      UInt8.zero_or, UInt8.or_zero, shift_back]

theorem getLastD_shiftIn (head : UInt8) (content : Bytes) (h : head <<< 7 = 0) (d : UInt8) :
    (shiftIn head content).getLastD d &&& 1 = 0 := by
  induction content generalizing head d with
  | nil => exact and_one_of_shiftLeft head h
  | cons byte content ih =>
    rw [shiftIn, List.getLastD_cons]
    exact ih (byte <<< 1) (shiftLeft_one_seven byte) _

structure Fragment where
  ruleId : UInt8
  window : UInt8
  fcn : UInt8
  payload : Bytes
  mic : Mic
  deriving DecidableEq

namespace Fragment

def isAll1 (f : Fragment) : Bool := f.fcn = all1Fcn

def isAll0 (f : Fragment) : Bool := f.fcn = 0

def zeroMic : Mic := List.Vector.replicate micLength 0

section

variable (f : Fragment)

def header : UInt8 := ((f.window &&& 1) <<< 7) ||| ((f.fcn &&& 63) <<< 1)

def content : Bytes := (if f.isAll1 then f.mic.toList else []) ++ f.payload

def check : Except FragmentError Unit :=
  match checkRule f.ruleId with
  | .error error => .error error
  | .ok () =>
    if f.window > 1 then .error .invalidWindow
    else if f.fcn > all1Fcn then .error .invalidFcn
    else if f.isAll1 then
      if 1 ≤ f.payload.length ∧ f.payload.length ≤ tileSize then .ok ()
      else .error .invalidTileLength
    else if f.payload.length ≠ tileSize ∨ f.mic ≠ zeroMic then .error .invalidTileLength
    else if f.window = 1 ∧ f.isAll0 then .error .invalidFcn
    else .ok ()

def writeTo (capacity : Nat) : Except FragmentError Bytes :=
  match f.check with
  | .error error => .error error
  | .ok () =>
    let needed := f.content.length + 2
    if capacity < needed then .error (.bufferTooSmall needed capacity)
    else .ok (f.ruleId :: shiftIn f.header f.content)

end

def payloadLen (length : Nat) (window fcn : UInt8) : Except FragmentError Nat :=
  let contentLen := length - 2
  if fcn = all1Fcn then
    if micLength + 1 ≤ contentLen ∧ contentLen ≤ micLength + tileSize then
      .ok (contentLen - micLength)
    else .error .invalidTileLength
  else if length ≠ tileSize + 2 then .error .invalidTileLength
  else if window = 1 ∧ fcn = 0 then .error .invalidFcn
  else .ok tileSize

def fromBytes (data : Bytes) (capacity : Nat) : Except FragmentError Fragment :=
  if data.length < 2 then .error (.tooShort 2 data.length)
  else if data.length > maxFragmentWireSize then .error .invalidTileLength
  else
    let octet := data.getD 1 0
    let window := (octet >>> 7) &&& 1
    let fcn := (octet >>> 1) &&& 63
    match payloadLen data.length window fcn with
    | .error error => .error error
    | .ok payloadLen =>
      if capacity < payloadLen then .error (.bufferTooSmall payloadLen capacity)
      else if fcn ≠ all1Fcn ∧ data.getLastD 0 &&& 1 ≠ 0 then .error .nonZeroPadding
      else
        let content := shiftOut (data.drop 1)
        let offset := if fcn = all1Fcn then micLength else 0
        .ok ⟨data.getD 0 0, window, fcn, (content.drop offset).take payloadLen,
          if fcn = all1Fcn then toArray micLength content else zeroMic⟩

variable {f : Fragment}

structure Valid (f : Fragment) : Prop where
  rule : checkRule f.ruleId = .ok ()
  window : f.window = 0 ∨ f.window = 1
  fcn : f.fcn ≤ all1Fcn
  all1 : f.isAll1 = true → 1 ≤ f.payload.length ∧ f.payload.length ≤ tileSize
  regular : f.isAll1 = false → f.payload.length = tileSize ∧ f.mic = zeroMic ∧
    ¬ (f.window = 1 ∧ f.isAll0 = true)

theorem Valid.length_payload_le (h : f.Valid) : f.payload.length ≤ tileSize := by
  cases hall1 : f.isAll1 with
  | true => exact (h.all1 hall1).2
  | false => exact (h.regular hall1).1.le

theorem window_cases (window : UInt8) : ¬ window > 1 ↔ window = 0 ∨ window = 1 := by
  revert window
  decide +kernel

theorem check_ok : f.check = .ok () ↔ f.Valid := by
  constructor
  · intro h
    simp only [check] at h
    split at h
    · cases h
    rename_i hrule
    split at h
    · cases h
    rename_i hwindow
    split at h
    · cases h
    rename_i hfcn
    have hwindow := (window_cases f.window).mp hwindow
    split at h
    · rename_i hall1
      split at h
      · exact ⟨hrule, hwindow, UInt8.not_lt.mp hfcn, fun _ => ‹_›, by simp [hall1]⟩
      · cases h
    · rename_i hall1
      split at h
      · cases h
      rename_i hlength
      split at h
      · cases h
      obtain ⟨hlength, hmic⟩ := not_or.mp hlength
      exact ⟨hrule, hwindow, UInt8.not_lt.mp hfcn, fun h => absurd h hall1,
        fun _ => ⟨not_not.mp hlength, not_not.mp hmic, ‹_›⟩⟩
  · intro h
    have hwindow := (window_cases f.window).mpr h.window
    simp only [check, h.rule, if_neg hwindow, if_neg (UInt8.not_lt.mpr h.fcn)]
    split
    · exact if_pos (h.all1 ‹_›)
    · rename_i hall1
      obtain ⟨hlength, hmic, hall0⟩ := h.regular (by simpa using hall1)
      simp [hlength, hmic, hall0]

theorem header_shiftLeft (f : Fragment) : f.header <<< 7 = 0 := by
  have hwindow : ∀ w : UInt8, (w <<< 7) <<< 7 = 0 := by decide +kernel
  rw [header, UInt8.shiftLeft_or, hwindow, shiftLeft_one_seven, UInt8.zero_or]

theorem header_fields {carry : UInt8} (h : f.Valid) (hcarry : carry >>> 1 = 0) :
    ((f.header ||| carry) >>> 7) &&& 1 = f.window ∧
      ((f.header ||| carry) >>> 1) &&& 63 = f.fcn := by
  have hseven : ∀ byte : UInt8, byte >>> 1 = 0 → byte >>> 7 = 0 := by decide +kernel
  have hzero : ∀ fcn : UInt8, fcn ≤ all1Fcn →
      ((((0 : UInt8) &&& 1) <<< 7 ||| (fcn &&& 63) <<< 1) >>> 7) &&& 1 = 0 ∧
      ((((0 : UInt8) &&& 1) <<< 7 ||| (fcn &&& 63) <<< 1) >>> 1) &&& 63 = fcn := by decide +kernel
  have hone : ∀ fcn : UInt8, fcn ≤ all1Fcn →
      ((((1 : UInt8) &&& 1) <<< 7 ||| (fcn &&& 63) <<< 1) >>> 7) &&& 1 = 1 ∧
      ((((1 : UInt8) &&& 1) <<< 7 ||| (fcn &&& 63) <<< 1) >>> 1) &&& 63 = fcn := by decide +kernel
  rw [UInt8.shiftRight_or, UInt8.shiftRight_or, hcarry, hseven carry hcarry, UInt8.or_zero,
    UInt8.or_zero, header]
  obtain hwindow | hwindow := h.window
  · rw [hwindow]
    exact hzero f.fcn h.fcn
  · rw [hwindow]
    exact hone f.fcn h.fcn

theorem writeTo_ok (h : f.writeTo capacity = .ok data) :
    f.Valid ∧ data = f.ruleId :: shiftIn f.header f.content := by
  simp only [writeTo] at h
  split at h
  · cases h
  rename_i hcheck
  split at h
  · cases h
  · cases h
    exact ⟨check_ok.mp hcheck, rfl⟩

theorem length_content (f : Fragment) :
    f.content.length = (if f.isAll1 then micLength else 0) + f.payload.length := by
  rw [content, List.length_append]
  split <;> simp

theorem payloadLen_of_valid (h : f.Valid) :
    payloadLen (f.content.length + 2) f.window f.fcn = .ok f.payload.length := by
  rw [payloadLen, length_content]
  cases hall1 : f.isAll1 with
  | true =>
    obtain ⟨hpos, hle⟩ := h.all1 hall1
    rw [isAll1, decide_eq_true_iff] at hall1
    simp only [hall1, if_true, micLength] at *
    rw [if_pos (by omega)]
    congr 1
    omega
  | false =>
    obtain ⟨hlength, -, hall0⟩ := h.regular hall1
    rw [isAll1, decide_eq_false_iff_not] at hall1
    rw [isAll0, decide_eq_true_iff] at hall0
    simp [hall1, hlength, hall0]

theorem fromBytes_writeTo (h : f.writeTo capacity = .ok data)
    (hroom : f.payload.length ≤ room) : fromBytes data room = .ok f := by
  obtain ⟨hvalid, rfl⟩ := writeTo_ok h
  obtain ⟨carry, _, hrest, hcarry⟩ := shiftIn_head f.header f.content
  obtain ⟨hwindow, hfcn⟩ := header_fields hvalid hcarry
  have hlength : (f.ruleId :: shiftIn f.header f.content).length = f.content.length + 2 := by simp
  have hoctet : (f.ruleId :: shiftIn f.header f.content).getD 1 0 = f.header ||| carry := by
    rw [hrest]
    rfl
  have hlast : (f.ruleId :: shiftIn f.header f.content).getLastD 0 &&& 1 = 0 := by
    rw [List.getLastD_cons]
    exact getLastD_shiftIn _ _ f.header_shiftLeft _
  have hsmall : ¬ f.content.length + 2 > maxFragmentWireSize := by
    have := hvalid.length_payload_le
    rw [length_content, maxFragmentWireSize]
    split <;> omega
  simp only [fromBytes, hlength, hoctet, hwindow, hfcn, payloadLen_of_valid hvalid, hlast,
    List.drop_one, List.tail_cons, shiftOut_shiftIn _ _ f.header_shiftLeft]
  rw [if_neg (by omega), if_neg hsmall, if_neg (Nat.not_lt.mpr hroom), if_neg (by simp)]
  cases hall1 : f.isAll1 with
  | true =>
    have hmic : f.mic.toList.length = micLength := f.mic.toList_length
    have hfull : toArray micLength f.content = f.mic := by
      rw [content, hall1, if_pos rfl]
      apply List.Vector.eq
      change ((f.mic.toList ++ f.payload) ++ _).take micLength = _
      rw [List.append_assoc, List.take_left' hmic]
    have hpayload : f.content.drop micLength = f.payload := by
      rw [content, hall1, if_pos rfl, List.drop_left' hmic]
    rw [isAll1, decide_eq_true_iff] at hall1
    rw [if_pos hall1, if_pos hall1, hfull, hpayload, List.take_length]
    rfl
  | false =>
    have hcontent : f.content = f.payload := by simp [content, hall1]
    obtain ⟨-, hmic, -⟩ := hvalid.regular hall1
    rw [isAll1, decide_eq_false_iff_not] at hall1
    rw [if_neg hall1, if_neg hall1, hcontent, List.drop_zero, List.take_length, ← hmic]
    rfl

end Fragment

end Lichen.Schc
