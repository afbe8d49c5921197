import Lichen.Core.Types
import Lichen.Link.Replay

namespace Lichen.Link

open Lichen.Lib Lichen.Core

inductive AddrMode where
  | none
  | short
  | extended
  | elided
  deriving DecidableEq

namespace AddrMode

def addrLen : AddrMode → Nat
  | none | elided => 0
  | short => 2
  | extended => 8

def toU8 : AddrMode → UInt8
  | none => 0
  | short => 1
  | extended => 2
  | elided => 3

end AddrMode

inductive MicLength where
  | bits32
  | bits64
  deriving DecidableEq

namespace MicLength

def fromU8 (value : UInt8) : Option MicLength :=
  if value = 0 then some bits32 else if value = 1 then some bits64 else none

def toU8 : MicLength → UInt8
  | bits32 => 0
  | bits64 => 1

end MicLength

inductive Signature where
  | absent
  | present
  deriving DecidableEq

def Signature.isPresent : Signature → Bool
  | absent => false
  | present => true

inductive Encryption where
  | plaintext
  | encrypted
  deriving DecidableEq

def Encryption.isEncrypted : Encryption → Bool
  | plaintext => false
  | encrypted => true

def addrModeMask : UInt8 := 0b00000011
def micLenShift : UInt8 := 2
def micLenMask : UInt8 := 0b00000111
def signatureBit : UInt8 := 0b00100000
def encryptedBit : UInt8 := 0b01000000
def signerEui64Bit : UInt8 := 0b10000000

def maxFrameLen : Nat := 255
def maxFrameBody : Nat := maxFrameLen - 1
def signatureLength : Nat := 48

inductive FrameError where
  | empty
  | tooShort (error : TooShort)
  | bufferTooSmall (error : BufferTooSmall)
  | reservedBitSet
  | reservedMicLength (value : UInt8)
  | addrLenMismatch
  | micLenMismatch
  | signatureMicMismatch
  | signatureSignerMismatch
  | encryptedUnsupported
  | trailingBytes
  | frameTooLarge
  deriving DecidableEq

structure LichenFrame where
  epoch : UInt8
  seqnum : LinkSeqNum
  dstAddr : Bytes
  signerEui64 : Bytes
  payload : Bytes
  mic : Bytes
  addrMode : AddrMode
  micLength : MicLength
  signature : Signature
  encryption : Encryption
  deriving DecidableEq

namespace LichenFrame

def llsecByte (frame : LichenFrame) : UInt8 :=
  let v := frame.addrMode.toU8 &&& addrModeMask
  let v := v ||| (frame.micLength.toU8 &&& micLenMask) <<< micLenShift
  let v := if frame.signature.isPresent then v ||| signatureBit ||| signerEui64Bit else v
  if frame.encryption.isEncrypted then v ||| encryptedBit else v

def addrModeOf (llsec : UInt8) : AddrMode :=
  if llsec &&& addrModeMask = 0 then .none
  else if llsec &&& addrModeMask = 1 then .short
  else if llsec &&& addrModeMask = 2 then .extended
  else .elided

section

variable (frame : LichenFrame)

def bodyLen : Nat :=
  4 + frame.dstAddr.length + frame.signerEui64.length + frame.payload.length + frame.mic.length

/-- Write the fields one after the other: the length written, and the buffer. -/
def writeFields (buf : Bytes) : Nat × Bytes :=
  let header := [UInt8.ofNat frame.bodyLen, frame.llsecByte, frame.epoch] ++
    beBytes 2 frame.seqnum.toNat
  let off := 5 + frame.dstAddr.length + frame.signerEui64.length + frame.payload.length +
    frame.mic.length
  (off, overwriteAll buf 0 [header, frame.dstAddr, frame.signerEui64, frame.payload, frame.mic])

def writeTo (buf : Bytes) : Except FrameError (Nat × Bytes) := do
  if frame.encryption.isEncrypted then throw .encryptedUnsupported
  if frame.addrMode.addrLen ≠ frame.dstAddr.length then throw .addrLenMismatch
  let expectedMicLen := if frame.signature.isPresent then 48 else 0
  if frame.mic.length ≠ expectedMicLen then
    throw (if frame.signature.isPresent then .signatureMicMismatch else .micLenMismatch)
  let signerLenOk : Bool :=
    if frame.signature.isPresent then frame.signerEui64.length = 8 else frame.signerEui64.isEmpty
  if !signerLenOk then throw .signatureSignerMismatch
  if frame.bodyLen > maxFrameBody then throw .frameTooLarge
  let total := 1 + frame.bodyLen
  if buf.length < total then throw (.bufferTooSmall ⟨total, buf.length⟩)
  return frame.writeFields buf

end

def fromBytes (data : Bytes) : Except FrameError LichenFrame := do
  if data.isEmpty then throw .empty
  if data.length > maxFrameLen then throw .frameTooLarge
  let length := (data.getD 0 0).toNat
  if length > maxFrameBody then throw .frameTooLarge
  let expectedTotal := 1 + length
  if data.length > expectedTotal then throw .trailingBytes
  if data.length < expectedTotal then throw (.tooShort ⟨expectedTotal, data.length⟩)
  let body := data.extract 1 expectedTotal
  if length < 4 then throw (.tooShort ⟨4, length⟩)
  let llsec := body.getD 0 0
  if llsec &&& encryptedBit ≠ 0 then throw .encryptedUnsupported
  let addrMode := addrModeOf llsec
  let micField := (llsec >>> micLenShift) &&& micLenMask
  let some micLength := MicLength.fromU8 micField | throw (.reservedMicLength micField)
  let epoch := body.getD 1 0
  let seqnum := UInt16.ofNat (beNat (body.extract 2 4))
  let addrLen := addrMode.addrLen
  let signature : Bool := llsec &&& signatureBit ≠ 0
  let signerPresent : Bool := llsec &&& signerEui64Bit ≠ 0
  if signature ≠ signerPresent then throw .signatureSignerMismatch
  let signerLen := if signerPresent then 8 else 0
  let micLen := if signature then 48 else 0
  let minBody := 4 + addrLen + signerLen + micLen
  if body.length < minBody then throw (.tooShort ⟨minBody, body.length⟩)
  let payloadEnd := body.length - micLen
  let signerStart := 4 + addrLen
  return {
    epoch
    seqnum
    dstAddr := body.extract 4 (4 + addrLen)
    signerEui64 := body.extract signerStart (signerStart + signerLen)
    payload := body.extract (signerStart + signerLen) payloadEnd
    mic := body.drop payloadEnd
    addrMode
    micLength
    signature := if signature then .present else .absent
    encryption := .plaintext }

end LichenFrame

end Lichen.Link
