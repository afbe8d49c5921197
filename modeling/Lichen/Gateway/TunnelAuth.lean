import Lichen.Gateway.TunnelWire
import Lichen.Lib.FirstMatch
import Lichen.Lib.Run
import Lichen.Lib.Stateful

namespace Lichen.Gateway

open Lichen.Lib Lichen.Core

structure AuthenticatedRoot where
  iid : Iid
  publicKey : PublicKey
  oscoreAuthenticated : Bool

inductive TunnelDirection where
  | meshToExternal
  | externalToMesh
  deriving DecidableEq

structure DecapsulationRequest where
  direction : TunnelDirection
  innerSource : Ipv6Addr
  innerDestination : Ipv6Addr
  sourceIsMesh : Bool
  destinationIsMesh : Bool
  route : List Ipv6Addr
  egressAddr : Ipv6Addr

structure TunnelKey where
  prefixBytes : Ipv6Addr
  prefixLen : UInt8
  routeHash : RouteHash
  deriving DecidableEq

def TunnelAuthorization.key (claim : TunnelAuthorization) : TunnelKey :=
  ⟨claim.prefixBytes, claim.prefixLen, claim.routeHash⟩

structure Entry where
  claim : TunnelAuthorization
  used : Nat

structure ReplayFloor where
  key : TunnelKey
  pathSeq : UInt64
  revoked : Bool
  used : Nat

def floorHistoryPerEntry : Nat := 4

structure TunnelAuthorizationTable (N : Nat) where
  entries : List.Vector (Option Entry) N
  replayFloors : List ReplayFloor
  rootIid : Option Iid
  clock : Nat
  lastNow : Option UInt64

namespace TunnelAuthorizationTable

variable {N : Nat}

def default : TunnelAuthorizationTable N := ⟨List.Vector.replicate N none, [], none, 0, none⟩

def maxHistory (_ : TunnelAuthorizationTable N) : Nat := N * floorHistoryPerEntry

abbrev Op (N : Nat) (α : Type) : Type := EStateM TunnelAuthError (TunnelAuthorizationTable N) α

section

variable (table : TunnelAuthorizationTable N)

def floor (key : TunnelKey) : Option ReplayFloor :=
  table.replayFloors.find? (·.key = key)

def setFloor (floor : ReplayFloor) :
    TunnelAuthorizationTable N :=
  { table with replayFloors := upsert (·.key = floor.key) floor table.replayFloors }

def setEntry (index : Nat) (entry : Option Entry) :
    TunnelAuthorizationTable N :=
  { table with entries := ⟨table.entries.toList.set index entry, by simp⟩ }

def tick : TunnelAuthorizationTable N :=
  { table with clock := min (table.clock + 1) (2 ^ 64 - 1) }

def clearEntries : TunnelAuthorizationTable N :=
  { table with entries := List.Vector.replicate N none }

def setRoot (rootIid : Iid) : TunnelAuthorizationTable N :=
  if table.rootIid ≠ some rootIid then
    { entries := List.Vector.replicate N none
      replayFloors := []
      rootIid := some rootIid
      clock := 0
      lastNow := none }
  else table

def revoked (key : TunnelKey) (pathSeq : UInt64) :
    TunnelAuthorizationTable N :=
  let entries := table.entries.map fun slot => if slot.any (·.claim.key = key) then none else slot
  let table' := { table with entries }.tick
  let retained := (table.floor key).elim pathSeq fun floor => max floor.pathSeq pathSeq
  table'.setFloor ⟨key, retained, true, table'.clock⟩

end

def revoke (key : TunnelKey) (pathSeq : UInt64) : Op N Unit := do
  check (N = 0) .tableDisabled
  let table ← get
  check (table.floor key = none ∧ table.maxHistory ≤ table.replayFloors.length) .capacity
  modify (·.revoked key pathSeq)

def checkTime (now : UInt64) : Op N Unit := do
  let table ← get
  if table.lastNow.any (now < ·) then
    modify clearEntries
    throw .clockRollback
  else
    modify ({ · with lastNow := some now })

def leastUsed (slots : List (Option Entry)) : Nat :=
  let used : Option Entry → Nat := fun slot => slot.elim 0 Entry.used
  (slots.zipIdx.foldl (fun best slot =>
    match best with
    | none => some slot
    | some least => if used slot.1 < used least.1 then some slot else best) none).elim 0 Prod.snd

/-- The slot for a claim: its own, a free one, or the least recently used one. -/
def slotFor (table : TunnelAuthorizationTable N) (claim : TunnelAuthorization) : Nat :=
  let slots := table.entries.toList
  ((slots.findIdx? (·.any (·.claim.key = claim.key))).or (slots.findIdx? Option.isNone)).getD
    (leastUsed slots)

def accepted (table : TunnelAuthorizationTable N) (claim : TunnelAuthorization) (now : UInt64) :
    TunnelAuthorizationTable N :=
  let index := table.slotFor claim
  let table := table.tick
  let table := table.setFloor ⟨claim.key, claim.pathSeq, false, table.clock⟩
  let table := table.setEntry index (some ⟨claim, table.clock⟩)
  { table with lastNow := some now }

def checkFloor (claim : TunnelAuthorization) : Op N Unit := do
  let table ← get
  match table.floor claim.key with
  | some floor =>
    check (claim.pathSeq ≤ floor.pathSeq)
      (if floor.revoked then TunnelAuthError.revoked else .replay)
  | none => check (table.maxHistory ≤ table.replayFloors.length) .capacity

def acceptPost (crypto : Crypto) (wire : Bytes) (authenticated : AuthenticatedRoot) (ownIid : Iid)
    (now : UInt64) : Op N TunnelAuthorization := do
  check (authenticated.oscoreAuthenticated = false) .missingOscoreAuthentication
  let table ← get
  check (table.rootIid ≠ some authenticated.iid) .wrongRoot
  check (N = 0) .tableDisabled
  check (iidFromPubkeyBytes crypto authenticated.publicKey ≠ authenticated.iid)
    .rootIdentityMismatch
  let decoded ← ofExcept (decodeAndHashSign1 crypto wire)
  check (decoded.kid ≠ authenticated.iid) .wrongRoot
  check (decoded.claim.egressIid ≠ ownIid) .wrongEgress
  check (crypto.verify authenticated.publicKey decoded.digest.toList decoded.signature = false)
    .invalidSignature
  checkTime now
  check (decoded.claim.expiry ≤ now) .expired
  checkFloor decoded.claim
  modify (·.accepted decoded.claim now)
  return decoded.claim

/-- The entry with the longest prefix for the source and the route, the least recently used one of
equally long ones. -/
def select (table : TunnelAuthorizationTable N) (routeHash : RouteHash) (source : Ipv6Addr) :
    Option (Entry × Nat) :=
  table.entries.toList.zipIdx.foldl (fun selected slot =>
    match slot.1 with
    | none => selected
    | some entry =>
      if entry.claim.routeHash = routeHash ∧ entry.claim.matchesSource source then
        match selected with
        | none => some (entry, slot.2)
        | some (best, _) =>
          if best.claim.prefixLen < entry.claim.prefixLen ∨
              entry.claim.prefixLen = best.claim.prefixLen ∧ entry.used < best.used then
            some (entry, slot.2)
          else selected
      else selected) none

def touched (table : TunnelAuthorizationTable N) (entry : Entry) (index : Nat) (now : UInt64) :
    TunnelAuthorizationTable N :=
  let table := table.tick
  let table := table.setEntry index (some { entry with used := table.clock })
  { table with
    replayFloors := modifyFirst (·.key = entry.claim.key) ({ · with used := table.clock })
      table.replayFloors
    lastNow := some now }

def authorizeDecapsulation (crypto : Crypto) (request : DecapsulationRequest) (now : UInt64) :
    Op N Unit := do
  check (request.direction ≠ .meshToExternal) .wrongDirection
  check (request.sourceIsMesh = false) .sourceOutsideMesh
  check (request.destinationIsMesh = true) .destinationInMesh
  check (request.route.getLast? ≠ some request.egressAddr) .invalidRoute
  ofExcept (validateRoute request.route)
  let requestRouteHash ← ofExcept (routeHash crypto request.route)
  checkTime now
  let table ← get
  match table.select requestRouteHash request.innerSource with
  | none => throw .unauthorizedTunnel
  | some (entry, index) =>
    if entry.claim.expiry ≤ now then
      modify (·.setEntry index none)
      throw .expired
    else
      check (unsafeAddr request.innerSource ∨ isLinkLocal request.innerSource) .sourceScope
      check (unsafeAddr request.innerDestination ∨ isLinkLocal request.innerDestination ∨
        request.innerDestination.toList.getD 0 0 = 0x02) .destinationScope
      modify (·.touched entry index now)

end TunnelAuthorizationTable

end Lichen.Gateway
