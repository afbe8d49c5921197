import Lichen.Core.Types

namespace Lichen.Gateway

open Lichen.Lib Lichen.Core

def maxAuthorizationWireLen : Nat := 256
def maxRouteHops : Nat := 8

/-- The text "Signature1". -/
def signatureContext : Bytes := [0x53, 0x69, 0x67, 0x6E, 0x61, 0x74, 0x75, 0x72, 0x65, 0x31]

def protectedHeader : Bytes := [0xA1, 0x01, 0x3A, 0x00, 0x01, 0x00, 0x00]

inductive TunnelAuthError where
  | bufferTooSmall
  | malformedCbor
  | nonCanonicalCbor
  | unsupportedAlgorithm
  | missingOscoreAuthentication
  | wrongRoot
  | rootIdentityMismatch
  | wrongEgress
  | invalidPrefix
  | invalidRoute
  | wrongDirection
  | sourceOutsideMesh
  | destinationInMesh
  | sourceScope
  | destinationScope
  | expired
  | clockRollback
  | replay
  | revoked
  | invalidSignature
  | tableDisabled
  | unauthorizedTunnel
  | capacity
  deriving DecidableEq

abbrev RouteHash := List.Vector UInt8 16

def prefixIsCanonical (prefixBytes : Ipv6Addr) (prefixLen : UInt8) : Bool :=
  if 128 < prefixLen then false
  else
    let whole := (prefixLen / 8).toNat
    let rem := prefixLen % 8
    if rem ≠ 0 ∧ prefixBytes.toList.getD whole 0 &&& ((0xFF : UInt8) >>> rem) ≠ 0 then false
    else (prefixBytes.toList.drop (if rem = 0 then whole else whole + 1)).all (· = 0)

structure TunnelAuthorization where
  prefixBytes : Ipv6Addr
  prefixLen : UInt8
  routeHash : RouteHash
  pathSeq : UInt64
  expiry : UInt64
  egressIid : Iid
  deriving DecidableEq

namespace TunnelAuthorization

def new (prefixBytes : Ipv6Addr) (prefixLen : UInt8) (routeHash : RouteHash)
    (pathSeq expiry : UInt64) (egressIid : Iid) : Except TunnelAuthError TunnelAuthorization :=
  if 128 < prefixLen ∨ ¬prefixIsCanonical prefixBytes prefixLen then .error .invalidPrefix
  else if routeHash = List.Vector.replicate 16 0 then .error .invalidRoute
  else .ok ⟨prefixBytes, prefixLen, routeHash, pathSeq, expiry, egressIid⟩

def matchesSource (claim : TunnelAuthorization) (source : Ipv6Addr) : Bool :=
  let whole := (claim.prefixLen / 8).toNat
  let rem := claim.prefixLen % 8
  if claim.prefixBytes.toList.take whole ≠ source.toList.take whole then false
  else
    rem = 0 ∨ (claim.prefixBytes.toList.getD whole 0 ^^^ source.toList.getD whole 0) &&&
      ((0xFF : UInt8) <<< (8 - rem)) = 0

end TunnelAuthorization

abbrev Reader := StateT Bytes (Except TunnelAuthError)

namespace Reader

def byte : Reader UInt8
  | [] => .error .malformedCbor
  | value :: rest => .ok (value, rest)

def exact (expected : UInt8) : Reader Unit := do
  if (← byte) = expected then return () else throw .malformedCbor

def take (length : Nat) : Reader Bytes := fun input =>
  if input.length < length then .error .malformedCbor
  else .ok (input.take length, input.drop length)

/-- The argument of a head, and the least one that needs a head of this size. -/
def argument (additional : UInt8) : Reader (UInt64 × UInt64) := do
  if additional ≤ 23 then return (additional.toUInt64, 0)
  else if additional = 24 then return ((← byte).toUInt64, 24)
  else if additional = 25 then return (UInt64.ofNat (beNat (← take 2)), 0x100)
  else if additional = 26 then return (UInt64.ofNat (beNat (← take 4)), 0x10000)
  else if additional = 27 then return (UInt64.ofNat (beNat (← take 8)), 0x100000000)
  else throw .malformedCbor

def head (expectedMajor : UInt8) : Reader UInt64 := do
  let first ← byte
  if first >>> 5 ≠ expectedMajor then throw .malformedCbor
  let (value, minimum) ← argument (first &&& 0x1F)
  if value < minimum then throw .nonCanonicalCbor
  return value

def uint : Reader UInt64 := head 0

def uintExact (expected : UInt64) : Reader Unit := do
  if (← uint) = expected then return () else throw .malformedCbor

def bstr : Reader Bytes := do
  take (← head 2).toNat

def array (n : Nat) (error : TunnelAuthError) : Reader (List.Vector UInt8 n) := do
  let bytes ← bstr
  if bytes.length = n then return toArray n bytes else throw error

def finished : Reader Bool := fun input => .ok (input.isEmpty, input)

end Reader

def cborHead (major : UInt8) (value : Nat) : Bytes :=
  if value ≤ 23 then [(major <<< 5) ||| UInt8.ofNat value]
  else if value ≤ 0xFF then [(major <<< 5) ||| 24, UInt8.ofNat value]
  else if value ≤ 0xFFFF then ((major <<< 5) ||| 25) :: beBytes 2 value
  else if value ≤ 0xFFFFFFFF then ((major <<< 5) ||| 26) :: beBytes 4 value
  else ((major <<< 5) ||| 27) :: beBytes 8 value

/-- The digest that is signed: of the COSE structure in a buffer of 192 bytes. -/
def signatureDigest (crypto : Crypto) (payload : Bytes) :
    Except TunnelAuthError (List.Vector UInt8 32) :=
  let input := [0x84] ++ cborHead 3 signatureContext.length ++ signatureContext ++
    cborHead 2 protectedHeader.length ++ protectedHeader ++ cborHead 2 0 ++
    cborHead 2 payload.length ++ payload
  if 192 < input.length then .error .bufferTooSmall else .ok (crypto.sha256 input)

def readPayload : Reader TunnelAuthorization := do
  Reader.exact 0xA6
  Reader.uintExact 1
  let prefixBytes ← Reader.bstr
  Reader.uintExact 2
  let prefixLen ← Reader.uint
  if 128 < prefixLen ∨ prefixBytes.length ≠ (prefixLen.toNat + 7) / 8 then throw .invalidPrefix
  Reader.uintExact 3
  let routeHash ← Reader.array 16 .invalidRoute
  Reader.uintExact 4
  let pathSeq ← Reader.uint
  Reader.uintExact 5
  let expiry ← Reader.uint
  Reader.uintExact 6
  let egressIid ← Reader.array 8 .wrongEgress
  if ¬(← Reader.finished) then throw .malformedCbor
  TunnelAuthorization.new (toArray 16 prefixBytes) prefixLen.toUInt8 routeHash pathSeq expiry
    egressIid

def decodePayload (payload : Bytes) : Except TunnelAuthError TunnelAuthorization :=
  readPayload.run' payload

structure DecodedSign1 where
  kid : Iid
  claim : TunnelAuthorization
  signature : List.Vector UInt8 48
  digest : List.Vector UInt8 32

def readSign1 : Reader (Iid × Bytes × List.Vector UInt8 48) := do
  Reader.exact 0x84
  let header ← Reader.bstr
  if header ≠ protectedHeader then
    throw (if [0xA1, 0x01].isPrefixOf header then .unsupportedAlgorithm else .malformedCbor)
  Reader.exact 0xA1
  Reader.exact 0x04
  let kid ← Reader.array 8 .malformedCbor
  let payload ← Reader.bstr
  let signature ← Reader.array 48 .malformedCbor
  if ¬(← Reader.finished) then throw .malformedCbor
  return (kid, payload, signature)

def decodeAndHashSign1 (crypto : Crypto) (wire : Bytes) : Except TunnelAuthError DecodedSign1 := do
  if maxAuthorizationWireLen < wire.length then throw .bufferTooSmall
  let (kid, payload, signature) ← readSign1.run' wire
  let claim ← decodePayload payload
  let digest ← signatureDigest crypto payload
  return ⟨kid, claim, signature, digest⟩

def validateRoute (hops : List Ipv6Addr) : Except TunnelAuthError Unit :=
  if hops = [] ∨ maxRouteHops < hops.length then .error .invalidRoute
  else if ¬hops.Nodup then .error .invalidRoute
  else .ok ()

def routeHash (crypto : Crypto) (hops : List Ipv6Addr) : Except TunnelAuthError RouteHash := do
  validateRoute hops
  let digest := crypto.sha256 (hops.flatMap List.Vector.toList)
  return toArray 16 (digest.toList.take 16)

def unsafeAddr (addr : Ipv6Addr) : Bool :=
  addr.toList.all (· = 0) ∨ addr.toList = List.replicate 15 0 ++ [1] ∨ addr.toList.getD 0 0 = 0xFF

def isLinkLocal (addr : Ipv6Addr) : Bool :=
  addr.toList.getD 0 0 = 0xFE ∧ addr.toList.getD 1 0 &&& 0xC0 = 0x80

end Lichen.Gateway
