import Lichen.Lib.Fold
import Lichen.Lib.HashMap
import Lichen.Rpl.Message

namespace Lichen.Rpl

open Lichen.Lib Lichen.Core

def infiniteRank : UInt16 := 0xFFFF
def minHopRankIncrease : UInt16 := 256
def maxRankIncrease : UInt16 := 1024
def parentSwitchThreshold : UInt16 := 192
def maxParentCandidates : Nat := 16

def saturatingAdd (a b : UInt16) : UInt16 :=
  if a.toNat + b.toNat < 2 ^ 16 then a + b else 0xFFFF

def saturatingSub (a b : UInt16) : UInt16 := if b ≤ a then a - b else 0

/-- Lollipop comparison of sequence counters; `none` if they are too far apart. -/
def lollipopCmp (a b : UInt8) : Option Ordering :=
  if a = b then some .eq
  else
    match decide (a < 128), decide (b < 128) with
    | true, true | false, false =>
      if (if b ≤ a then a - b else b - a) > 16 then none
      else if a > b then some .gt
      else some .lt
    | true, false => if 256 - b.toNat + a.toNat ≤ 16 then some .gt else some .lt
    | false, true => if 256 - a.toNat + b.toNat ≤ 16 then some .lt else some .gt

def versionIsNewer (newVer oldVer : UInt8) : Bool :=
  (newVer = 0 && oldVer = 127) || lollipopCmp newVer oldVer = some .gt

def versionIsEqual (newVer oldVer : UInt8) : Bool := lollipopCmp newVer oldVer = some .eq

def versionIsOlderOrIncomparable (newVer oldVer : UInt8) : Bool :=
  !versionIsNewer newVer oldVer && !versionIsEqual newVer oldVer

/-- What is known of link estimates: which ones are finite and at least one, and the rounded cost
of a link for a rank increase per hop, none for a value that is not a number or negative. -/
structure LinkMetric (τ : Type) where
  accepts : τ → Bool
  cost : τ → UInt16 → Option UInt16

inductive DodagRole where
  | unjoined
  | joined
  | root
  deriving DecidableEq

def DodagRole.canTransitionTo : DodagRole → DodagRole → Bool
  | .unjoined, _ => true
  | .joined, _ => true
  | .root, next => next ≠ .joined

structure InvalidDodagTransition where
  source : DodagRole
  target : DodagRole

structure ParentCandidate (τ : Type) where
  addr : Ipv6Addr
  rank : UInt16
  linkEtx : τ

inductive DioOutcome where
  | accepted
  | removed
  | rejected
  deriving DecidableEq

structure DodagScope where
  rplInstanceId : UInt8
  dodagId : Ipv6Addr
  deriving DecidableEq

/-- DIO evidence sealed for a later commit, with the scope it was admitted under. -/
structure AdmittedDio where
  scope : DodagScope
  dio : Dio
  neighborAddr : Ipv6Addr
  signerIid : Iid
  signerIsExpectedRoot : Bool

inductive DioAdmissionError where
  | peerRevoked
  | malformed

structure DodagScopeMismatch where
  sealed : DodagScope
  current : DodagScope

structure DodagState (τ : Type) where
  rplInstanceId : UInt8
  dodagId : Ipv6Addr
  version : UInt8
  role : DodagRole
  rank : UInt16
  preferredParent : Option Ipv6Addr
  minHopRankIncrease : UInt16
  maxRankIncrease : UInt16
  parentSwitchThreshold : UInt16
  isGatewayCentric : Bool
  parents : HashMap Ipv6Addr (ParentCandidate τ)
  lowestRank : UInt16

section

variable {τ : Type} (link : LinkMetric τ)

section

variable (candidate : ParentCandidate τ)

def ParentCandidate.pathCost (mhri : UInt16) : UInt16 :=
  match link.cost candidate.linkEtx mhri with
  | none => 0xFFFF
  | some cost => saturatingAdd candidate.rank cost

/-- Ranks are compared as DAGRanks, the integer part of the rank over the increase per hop. -/
def candidateAdmissible
    (nodeRank lowestRank minHopRankIncrease maxRankIncrease : UInt16) : Bool :=
  if minHopRankIncrease = 0 then false
  else
    let cost := candidate.pathCost link minHopRankIncrease
    if candidate.rank < minHopRankIncrease ∨ cost = infiniteRank ∨
        cost / minHopRankIncrease ≤ candidate.rank / minHopRankIncrease then false
    else if nodeRank ≠ infiniteRank ∧
        candidate.rank / minHopRankIncrease ≥ nodeRank / minHopRankIncrease then false
    else maxRankIncrease = 0 || lowestRank = infiniteRank ||
      cost ≤ saturatingAdd lowestRank maxRankIncrease

end

namespace DodagState

def new (rplInstanceId : UInt8) (dodagId : Ipv6Addr) (version : UInt8) : DodagState τ where
  rplInstanceId
  dodagId
  version
  role := .unjoined
  rank := infiniteRank
  preferredParent := none
  minHopRankIncrease := Rpl.minHopRankIncrease
  maxRankIncrease := Rpl.maxRankIncrease
  parentSwitchThreshold := Rpl.parentSwitchThreshold
  isGatewayCentric := false
  parents := HashMap.new
  lowestRank := infiniteRank

def validRankConfig (minHopRankIncrease : UInt16) : Bool :=
  minHopRankIncrease ≠ 0 && minHopRankIncrease ≤ infiniteRank / 2

def asRootWithRankConfig (rplInstanceId : UInt8) (dodagId : Ipv6Addr) (version : UInt8)
    (minHopRankIncrease maxRankIncrease : UInt16) : Option (DodagState τ) :=
  if !validRankConfig minHopRankIncrease then none
  else some
    { new rplInstanceId dodagId version with
      role := .root
      rank := minHopRankIncrease
      minHopRankIncrease
      maxRankIncrease
      lowestRank := minHopRankIncrease }

section

variable (s : DodagState τ)

def demote : DodagState τ :=
  if s.role = .root then
    { s with
      role := .unjoined
      preferredParent := none
      rank := infiniteRank
      parents := HashMap.new }
  else s

def setRole (next : DodagRole) :
    Except InvalidDodagTransition (DodagState τ) :=
  if s.role.canTransitionTo next then .ok { s with role := next } else .error ⟨s.role, next⟩

def adoptVersion (version : UInt8) :
    Except InvalidDodagTransition (DodagState τ) :=
  if s.role = .root then .error ⟨s.role, .unjoined⟩
  else
    { s with
      version
      parents := HashMap.new
      preferredParent := none
      rank := infiniteRank
      lowestRank := infiniteRank }.setRole .unjoined

def admissible (candidate : ParentCandidate τ) : Bool :=
  candidateAdmissible link candidate s.rank s.lowestRank s.minHopRankIncrease s.maxRankIncrease

def pruneInadmissibleParents : DodagState τ :=
  { s with parents := s.parents.retain fun _ candidate => s.admissible link candidate }

/-- The best candidate, or the current parent if the gain is below the threshold. -/
def choose (best : ParentCandidate τ) : Ipv6Addr × UInt16 :=
  let cost := fun candidate => candidate.pathCost link s.minHopRankIncrease
  match s.preferredParent.filter (· ≠ best.addr) with
  | none => (best.addr, cost best)
  | some current =>
    match (((s.parents.get current).filter (s.admissible link)).map cost).filter fun currentCost =>
        cost best > saturatingSub currentCost s.parentSwitchThreshold with
    | none => (best.addr, cost best)
    | some currentCost => (current, currentCost)

end

def best (order : HashOrder) (s : DodagState τ) : Option (ParentCandidate τ) :=
  minBy (fun a b => a.pathCost link s.minHopRankIncrease < b.pathCost link s.minHopRankIncrease)
    ((s.parents.values order).filter (s.admissible link))

def join (s : DodagState τ) (addr : Ipv6Addr) (cost : UInt16) : DodagState τ :=
  match { s with preferredParent := some addr, rank := cost }.setRole .joined with
  | .error _ => s
  | .ok next =>
    { next with lowestRank := if cost < next.lowestRank then cost else next.lowestRank
      }.pruneInadmissibleParents link

def leave (s : DodagState τ) : DodagState τ :=
  match s.setRole .unjoined with
  | .error _ => s
  | .ok next => { next with preferredParent := none, rank := infiniteRank }

section

variable (order : HashOrder)

def selectParent (s : DodagState τ) : DodagState τ :=
  if s.role = .root then s
  else
    let pruned := s.pruneInadmissibleParents link
    match pruned.best link order with
    | none => pruned.leave
    | some best =>
      let chosen := pruned.choose link best
      pruned.join link chosen.1 chosen.2

def setRankConfig (s : DodagState τ)
    (minHopRankIncrease maxRankIncrease : UInt16) : Bool × DodagState τ :=
  if !validRankConfig minHopRankIncrease then (false, s)
  else if (minHopRankIncrease, maxRankIncrease) = (s.minHopRankIncrease, s.maxRankIncrease) then
    (true, s)
  else
    let next := { s with minHopRankIncrease, maxRankIncrease }
    match s.role with
    | .root => (true, { next with rank := minHopRankIncrease, lowestRank := minHopRankIncrease })
    | .joined =>
      (true, { next with rank := infiniteRank, lowestRank := infiniteRank }.selectParent link order)
    | .unjoined => (true, next)

def dropNeighbor (s : DodagState τ) (neighborAddr : Ipv6Addr) :
    DioOutcome × DodagState τ :=
  (if s.parents.containsKey neighborAddr then .removed else .rejected,
    { s with parents := s.parents.remove neighborAddr }.selectParent link order)

/-- Take the advertiser of a DIO of the current version as a candidate, or drop it. -/
def considerDio (s : DodagState τ) (dio : Dio) (neighborAddr : Ipv6Addr)
    (linkEtx : τ) : DioOutcome × DodagState τ :=
  let candidate : ParentCandidate τ := ⟨neighborAddr, dio.rank, linkEtx⟩
  if dio.rank = infiniteRank then s.dropNeighbor link order neighborAddr
  else if s.rank ≠ infiniteRank ∧ dio.rank ≥ s.rank then s.dropNeighbor link order neighborAddr
  else if !s.admissible link candidate then s.dropNeighbor link order neighborAddr
  else
    let parents :=
      if s.parents.containsKey neighborAddr ∨ s.parents.len < maxParentCandidates then
        s.parents.insert neighborAddr candidate
      else s.parents
    (.accepted, { s with parents }.selectParent link order)

/-- Process a DIO; the caller has authenticated a version transition of the root. -/
def processDioWithVersionAuthorization (s : DodagState τ) (dio : Dio)
    (neighborAddr : Ipv6Addr) (linkEtx : τ) (versionAuthorized : Bool) :
    DioOutcome × DodagState τ :=
  let candidate : ParentCandidate τ := ⟨neighborAddr, dio.rank, linkEtx⟩
  if !link.accepts linkEtx then (.rejected, s)
  else if s.role = .root then (.rejected, s)
  else if dio.rplInstanceId ≠ s.rplInstanceId ∨ dio.dodagId ≠ s.dodagId then (.rejected, s)
  else
    let newerVersion := versionIsNewer dio.version s.version
    if !newerVersion && versionIsOlderOrIncomparable dio.version s.version then (.rejected, s)
    else if newerVersion && !versionAuthorized then (.rejected, s)
    else if newerVersion then
      let usable := candidateAdmissible link candidate infiniteRank infiniteRank
        s.minHopRankIncrease s.maxRankIncrease
      match s.adoptVersion dio.version with
      | .error _ => (.rejected, s)
      | .ok next =>
        if !usable then (.rejected, next) else next.considerDio link order dio neighborAddr linkEtx
    else s.considerDio link order dio neighborAddr linkEtx

def processDio (s : DodagState τ) (dio : Dio) (neighborAddr : Ipv6Addr)
    (linkEtx : τ) : DioOutcome × DodagState τ :=
  s.processDioWithVersionAuthorization link order dio neighborAddr linkEtx false

def removeParents (s : DodagState τ) (addrs : List Ipv6Addr) :
    DodagState τ :=
  { s with parents := addrs.foldl HashMap.remove s.parents }.selectParent link order

def removeParentsWithIid (s : DodagState τ) (signerIid : Iid) :
    Bool × DodagState τ :=
  let addresses := (s.parents.keys order).filter fun address =>
    address.toList.drop 8 = signerIid.toList
  (!addresses.isEmpty, s.removeParents link order addresses)

end

def scopeSnapshot (s : DodagState τ) : DodagScope := ⟨s.rplInstanceId, s.dodagId⟩

/-- Commit admitted evidence, if the scope it was sealed for is still current. -/
def commitAdmittedDio (order : HashOrder) (s : DodagState τ) (admitted : AdmittedDio)
    (linkEtx : τ) : Except DodagScopeMismatch (DioOutcome × DodagState τ) :=
  let current := s.scopeSnapshot
  if current ≠ admitted.scope ∨ admitted.dio.rplInstanceId ≠ current.rplInstanceId ∨
      admitted.dio.dodagId ≠ current.dodagId then .error ⟨admitted.scope, current⟩
  else if admitted.dio.version ≠ s.version ∧ !admitted.signerIsExpectedRoot then
    .ok (.rejected, (s.removeParentsWithIid link order admitted.signerIid).2)
  else .ok (s.processDio link order admitted.dio admitted.neighborAddr linkEtx)

def processAuthenticatedDio (order : HashOrder) (s : DodagState τ) (signerIid : Iid)
    (admission : Except DioAdmissionError AdmittedDio) (linkEtx : τ) :
    DioOutcome × DodagState τ :=
  match admission with
  | .ok admitted => (s.commitAdmittedDio link order admitted linkEtx).toOption.getD (.rejected, s)
  | .error .peerRevoked => (.rejected, (s.removeParentsWithIid link order signerIid).2)
  | .error .malformed => (.rejected, s)

end DodagState

end

end Lichen.Rpl
