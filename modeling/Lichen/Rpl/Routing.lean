import Lichen.Rpl.Paths
import Lichen.Rpl.Persistence
import Lichen.Rpl.Verify

namespace Lichen.Rpl

open Lichen.Lib Lichen.Core Lichen.Hal

def lollipopCircularBit : UInt8 := 128
def lollipopSequenceWindow : UInt8 := 16

def seqIsNewer (newSeq oldSeq : UInt8) : Bool :=
  match decide (newSeq < lollipopCircularBit), decide (oldSeq < lollipopCircularBit) with
  | true, true | false, false =>
    let diff := (newSeq - oldSeq) &&& 0x7F
    1 ≤ diff && diff ≤ lollipopSequenceWindow
  | true, false => 256 + newSeq.toNat - oldSeq.toNat ≤ lollipopSequenceWindow.toNat
  | false, true => 256 + oldSeq.toNat - newSeq.toNat > lollipopSequenceWindow.toNat

def maxParentEdges : Nat := 256
def maxPathSequences : Nat := 256
def freshnessTombstoneRetentionSeconds : Nat := 60 * 60

inductive DaoProcessOutcome where
  | applied
  | duplicate
  deriving DecidableEq

inductive DaoProcessError (E : Type) where
  | replay
  | persistence (error : E)
  | stale
  | exhausted
  | corrupt
  | routeRejected
  | notAdmitted
  deriving DecidableEq

def mapRxUpdateError : RedundantUpdateError E → DaoProcessError E
  | .storage error => .persistence error
  | .stale => .stale
  | .exhausted => .exhausted
  | .corrupt => .corrupt

structure DaoProcessTiming where
  nowSeconds : Nat
  lifetimeUnitSeconds : Nat
  maxDeadlineSeconds : Nat

structure DaoStateLimits where
  maxTargets : Nat
  maxCandidatesPerTarget : Nat
  maxCandidates : Nat

def DaoStateLimits.production : DaoStateLimits :=
  ⟨maxPathSequences, maxParentEdges, maxParentEdges⟩

structure Freshness where
  sequence : UInt8
  activeUntil : Option Nat
  retainUntil : Option Nat
  updatedAt : Nat

namespace Freshness

def new (sequence : UInt8) (activeUntil : Option Nat) (updatedAt : Nat) : Freshness :=
  ⟨sequence, activeUntil, activeUntil.map fun deadline =>
    min (deadline + freshnessTombstoneRetentionSeconds) (2 ^ 64 - 1), updatedAt⟩

def isReclaimable (freshness : Freshness) (nowSeconds : Nat) : Bool :=
  freshness.retainUntil.any (· ≤ nowSeconds)

end Freshness

abbrev EdgeExpiry := HashMap (Ipv6Addr × Ipv6Addr) (Option Nat)
abbrev FreshnessMap := HashMap Ipv6Addr Freshness
abbrev DescriptorMap := HashMap Ipv6Addr (Option UInt32)

/-- Assembles source routes from incoming DAOs (root). The fields that only build DAOs are left
out. -/
structure DaoManager where
  nodeAddress : Ipv6Addr
  isRoot : Bool
  rplInstanceId : UInt8
  dodagId : Ipv6Addr
  routingTable : RoutingTable
  parentMap : ParentMap
  edgeExpiry : EdgeExpiry
  originSeqMap : FreshnessMap
  pathSeqMap : FreshnessMap
  candidateMap : CandidateMap
  descriptorMap : DescriptorMap
  originHighWater : HighWaterMap
  prefixDelegations : PrefixDelegations

def isActive (deadline : Option Nat) (nowSeconds : Nat) : Bool := deadline.all (· > nowSeconds)

def maxDeadline : Option Nat → Option Nat → Option Nat
  | some left, some right => some (max left right)
  | _, _ => none

def targetActiveUntil (target : Ipv6Addr) (expiry : EdgeExpiry) (fallback : Nat) : Option Nat :=
  ((expiry.toPairs.filter (·.1.1 = target)).map (·.2)).foldl maxDeadline (some fallback)

/-- Make room for one more record, by dropping the oldest one that may be reclaimed. -/
def makeFreshnessRoom (map : FreshnessMap) (limit nowSeconds : Nat)
    (isProtected : Ipv6Addr → Bool) : Option FreshnessMap :=
  if map.len < limit then some map
  else
    let reclaimable := map.toPairs.filter fun e => !isProtected e.1 && e.2.isReclaimable nowSeconds
    let oldest := minBy (fun e best => e.2.updatedAt < best.2.updatedAt ||
      (e.2.updatedAt = best.2.updatedAt && e.1.toList < best.1.toList)) reclaimable
    oldest.map fun e => map.remove e.1

def reserveFreshness (map : FreshnessMap) (key : Ipv6Addr) (limit nowSeconds : Nat)
    (isProtected : Ipv6Addr → Bool) : Option FreshnessMap :=
  if map.containsKey key then some map else makeFreshnessRoom map limit nowSeconds isProtected

/-- The part of the manager's state that a DAO proposal changes before its routes are rebuilt. -/
structure RouteState where
  parents : ParentMap
  expiry : EdgeExpiry
  pathSequences : FreshnessMap
  candidates : CandidateMap
  descriptors : DescriptorMap

namespace RouteState

def keepParents (expiry : EdgeExpiry) (target : Ipv6Addr) (parents : List Ipv6Addr) :
    Option (List Ipv6Addr) :=
  let kept := parents.filter fun parent => expiry.containsKey (target, parent)
  if kept.isEmpty then none else some kept

def prune (s : RouteState) (nowSeconds : Nat) : RouteState :=
  let expiry := s.expiry.retain fun _ deadline => isActive deadline nowSeconds
  { s with expiry, parents := s.parents.retainMut (keepParents expiry) }

end RouteState

structure Incoming where
  candidates : CandidateMap
  descriptors : DescriptorMap

namespace Incoming

def addUpdate (incoming : Incoming) (update : DaoUpdate) : Option Incoming :=
  if (incoming.descriptors.get update.target).any (· ≠ update.descriptor) then none
  else
    let candidates := (incoming.candidates.get update.target).getD []
    some ⟨incoming.candidates.insert update.target
        (candidates ++ [⟨update.parent, update.pathControl, update.pathLifetime⟩]),
      incoming.descriptors.insert update.target update.descriptor⟩

def candidateKey (candidate : DaoCandidate) : Bytes :=
  candidate.parent.toList ++ [candidate.pathControl, candidate.pathLifetime]

def sortCandidates (candidates : List DaoCandidate) : List DaoCandidate :=
  (candidates.insertionSort fun a b => candidateKey a ≤ candidateKey b).destutter (· ≠ ·)

def ofUpdates (updates : List DaoUpdate) : Option Incoming :=
  (updates.foldlM addUpdate ⟨HashMap.new, HashMap.new⟩).map fun incoming =>
    { incoming with candidates := incoming.candidates.mapValues fun _ => sortCandidates }

end Incoming

/-- The path sequence of the first update of a target. Every target of a DAO has one. -/
def pathSequenceOf (updates : List DaoUpdate) (target : Ipv6Addr) : UInt8 :=
  ((updates.find? (·.target = target)).map (·.pathSequence)).getD 0

namespace RouteState

def dropEdges (s : RouteState) (target : Ipv6Addr) : RouteState :=
  match s.parents.get target with
  | none => s
  | some parents => { s with
      parents := s.parents.remove target
      expiry := parents.foldl (fun expiry parent => expiry.remove (target, parent)) s.expiry }

/-- Take over the candidates of one target, unless they are already known. `none` is a path
sequence that is not newer or comes with other data. -/
def replaceTarget (updates : List DaoUpdate) (descriptors : DescriptorMap)
    (s : RouteState × HashSet Ipv6Addr) (entry : Ipv6Addr × List DaoCandidate) :
    Option (RouteState × HashSet Ipv6Addr) :=
  let (target, candidates) := entry
  let sequence := pathSequenceOf updates target
  let descriptor := (descriptors.get target).join
  let accept (state : RouteState) : Option (RouteState × HashSet Ipv6Addr) :=
    some ({ state with
      candidates := state.candidates.insert target candidates
      descriptors := state.descriptors.insert target descriptor }, HashSet.add s.2 target)
  match s.1.pathSequences.get target with
  | none => accept s.1
  | some last =>
    if sequence = last.sequence then
      if s.1.candidates.get target = some candidates ∧
          (s.1.descriptors.get target).join = descriptor then some s
      else none
    else if seqIsNewer sequence last.sequence then accept (s.1.dropEdges target)
    else none

/-- The deadline of an announced edge; `none` when it cannot be represented or is too late. -/
def deadlineOf (timing : DaoProcessTiming) (pathLifetime : UInt8) : Option (Option Nat) :=
  if pathLifetime = 0 ∨ pathLifetime = 255 then some none
  else
    let duration := max pathLifetime.toNat 1 * timing.lifetimeUnitSeconds
    if duration ≥ 2 ^ 64 then none
    else
      let deadline := timing.nowSeconds + duration
      if deadline ≥ 2 ^ 64 then none
      else if deadline > timing.maxDeadlineSeconds then none
      else some (some deadline)

def installEdge (timing : DaoProcessTiming) (changed : HashSet Ipv6Addr) (s : RouteState)
    (update : DaoUpdate) : Option RouteState :=
  if !HashSet.contains changed update.target then some s
  else
    match deadlineOf timing update.pathLifetime with
    | none => none
    | some expiresAt =>
      if update.pathLifetime = 0 then some s
      else
        let parents := (s.parents.get update.target).getD []
        let parents := if update.parent ∈ parents then parents
          else (parents ++ [update.parent]).insertionSort fun a b => a.toList ≤ b.toList
        some { s with
          parents := s.parents.insert update.target parents
          expiry := s.expiry.insert (update.target, update.parent) expiresAt }

def recordFreshness (updates : List DaoUpdate) (nowSeconds maxTargets : Nat)
    (incoming : CandidateMap) (s : RouteState) (target : Ipv6Addr) : Option RouteState :=
  let activeUntil := targetActiveUntil target s.expiry nowSeconds
  let fresh := Freshness.new (pathSequenceOf updates target) activeUntil nowSeconds
  (reserveFreshness s.pathSequences target maxTargets nowSeconds incoming.containsKey).map
    fun sequences => { s with pathSequences := sequences.insert target fresh }

/-- Drop the candidates and descriptors of the targets whose freshness was reclaimed. -/
def retainFresh (s : RouteState) : RouteState := { s with
  candidates := s.candidates.retain fun target _ => s.pathSequences.containsKey target
  descriptors := s.descriptors.retain fun target _ => s.pathSequences.containsKey target }

/-- The edges, freshness records, candidates and descriptors that a DAO leads to, with the targets
it changes. -/
def propose (order : HashOrder) (s : RouteState) (updates : List DaoUpdate)
    (timing : DaoProcessTiming) (limits : DaoStateLimits) :
    Option (RouteState × HashSet Ipv6Addr) :=
  match Incoming.ofUpdates updates with
  | none => none
  | some incoming =>
    if incoming.candidates.toPairs.any fun e =>
        e.2.any fun candidate => (pathControlRank candidate.pathControl).isNone then none
    else if timing.lifetimeUnitSeconds = 0 ∧ updates.any (·.pathLifetime ≠ 255) then none
    else do
      let (s, changed) ← (incoming.candidates.iter order).foldlM
        (replaceTarget updates incoming.descriptors) (s.prune timing.nowSeconds, HashMap.new)
      let s ← updates.foldlM (installEdge timing changed) s
      let s ← (changed.keys order).foldlM
        (recordFreshness updates timing.nowSeconds limits.maxTargets incoming.candidates) s
      return (s.retainFresh, changed)

end RouteState

namespace RoutingTable

def prefixRoutes (existing : RoutingTable) : RoutingTable :=
  let routes := existing.routes.retain fun target _ => target.prefixLen < 128
  { existing with routes, prefixRouteCount := routes.len }

def addHost (root : Ipv6Addr) (parentMap : ParentMap) (candidateMap : CandidateMap)
    (table : RoutingTable) (target : Ipv6Addr) : Option RoutingTable :=
  match assemblePathChecked root parentMap candidateMap target with
  | .error () => none
  | .ok none => some table
  | .ok (some path) =>
    if table.routes.len ≥ maxRoutes then none
    else some { table with
      routes := table.routes.insert (.host target) (.fresh path)
      rplManagedHosts := HashSet.add table.rplManagedHosts target }

def reconcilePrefix (order : HashOrder) (table : RoutingTable) (e : RouteTarget × Ipv6Addr) :
    RoutingTable :=
  let (target, egress) := e
  if !HashSet.contains table.rplManagedHosts egress then
    let routes :=
      match table.routes.get target with
      | none => table.routes
      | some entry => table.routes.insert target (entry.markExpired.toOption.getD entry)
    { table with
      routes
      unavailableManagedPrefixes := HashSet.add table.unavailableManagedPrefixes target }
  else
    match table.lookup order egress with
    | none => table
    | some path =>
      if path.isEmpty then table
      else { table with
        routes := table.routes.insert target (.fresh path)
        unavailableManagedPrefixes := table.unavailableManagedPrefixes.remove target }

def rebuilt (order : HashOrder) (root : Ipv6Addr) (parentMap : ParentMap)
    (candidateMap : CandidateMap) (existing : RoutingTable) : Option RoutingTable := do
  let table ← (parentMap.keys order).foldlM (addHost root parentMap candidateMap)
    existing.prefixRoutes
  return (existing.rplManagedPrefixes.iter order).foldl (reconcilePrefix order) table

end RoutingTable

namespace DaoManager

def asRoot (scope : DaoRxScope) : DaoManager where
  nodeAddress := scope.nodeAddress
  isRoot := true
  rplInstanceId := scope.rplInstanceId
  dodagId := scope.dodagId
  routingTable := RoutingTable.new
  parentMap := HashMap.new
  edgeExpiry := HashMap.new
  originSeqMap := HashMap.new
  pathSeqMap := HashMap.new
  candidateMap := HashMap.new
  descriptorMap := HashMap.new
  originHighWater := HashMap.new
  prefixDelegations := PrefixDelegations.new

section

variable (m : DaoManager)

def scope : DaoRxScope := ⟨m.nodeAddress, m.rplInstanceId, m.dodagId⟩

def routeState : RouteState :=
  ⟨m.parentMap, m.edgeExpiry, m.pathSeqMap, m.candidateMap, m.descriptorMap⟩

def recordOrigin (expiry : EdgeExpiry) (updates : List DaoUpdate)
    (origin : Ipv6Addr) (daoSequence : UInt8) (nowSeconds : Nat) : Option FreshnessMap :=
  let activeUntil := (updates.map fun update =>
    targetActiveUntil update.target expiry nowSeconds).foldl maxDeadline (some nowSeconds)
  (reserveFreshness m.originSeqMap origin maxDaoOrigins nowSeconds fun _ => false).map
    fun sequences => sequences.insert origin (Freshness.new daoSequence activeUntil nowSeconds)

def isForUs (dao : Dao) : Bool :=
  m.isRoot && dao.rplInstanceId = m.rplInstanceId &&
    !(dao.dodagId.any fun id => id ≠ zeroAddr && id ≠ m.dodagId)

end

def admits (limits : DaoStateLimits) (s : RouteState) (originSequences : FreshnessMap) : Bool :=
  s.expiry.len ≤ limits.maxCandidates &&
    s.candidates.toPairs.all (fun e => e.2.length ≤ limits.maxCandidatesPerTarget) &&
    s.pathSequences.len ≤ limits.maxTargets && originSequences.len ≤ maxDaoOrigins &&
    !containsCycle s.parents

section

variable (m : DaoManager)

def withProposal (s : RouteState) (originSequences : FreshnessMap)
    (routes : RoutingTable) : DaoManager :=
  { m with
    parentMap := s.parents
    edgeExpiry := s.expiry
    pathSeqMap := s.pathSequences
    originSeqMap := originSequences
    candidateMap := s.candidates
    descriptorMap := s.descriptors
    routingTable := routes }

/-- Apply the updates of a DAO as a whole or not at all. The result says whether the route state
changed. -/
def processDaoInner (order : HashOrder) (dao : Dao) (updates : List DaoUpdate)
    (origin : Ipv6Addr) (skipDaoSequenceCheck : Bool) (timing : DaoProcessTiming)
    (limits : DaoStateLimits) : Option (Bool × DaoManager) :=
  if !m.isForUs dao then none
  else if !skipDaoSequenceCheck && (m.originSeqMap.get origin).any fun last =>
      !seqIsNewer dao.daoSequence last.sequence then none
  else do
    let (s, changed) ← m.routeState.propose order updates timing limits
    let originSequences ← m.recordOrigin s.expiry updates origin dao.daoSequence timing.nowSeconds
    if !admits limits s originSequences then none
    else
      let routes ← m.routingTable.rebuilt order m.nodeAddress s.parents s.candidates
      let routeStateChanged := changed.len ≠ 0 || !s.parents.same m.parentMap ||
        !s.expiry.same m.edgeExpiry || !routes.routes.same m.routingTable.routes
      return (routeStateChanged, m.withProposal s originSequences routes)

def expireRoutes (order : HashOrder) (nowSeconds : Nat) : Bool × DaoManager :=
  let s := m.routeState.prune nowSeconds
  match m.routingTable.rebuilt order m.nodeAddress s.parents m.candidateMap with
  | none => (false, m)
  | some routes =>
    (!s.expiry.same m.edgeExpiry || !s.parents.same m.parentMap ||
      !routes.routes.same m.routingTable.routes,
    { m with edgeExpiry := s.expiry, parentMap := s.parents, routingTable := routes })

def delegatePrefix (publicKey : PublicKey) (address : Ipv6Addr)
    (prefixLen : UInt8) : Except PrefixDelegationError DaoManager :=
  (m.prefixDelegations.delegate publicKey address prefixLen).map fun prefixDelegations =>
    { m with prefixDelegations }

/-- How a DAO compares with the newest one of its origin: whether it repeats that one. -/
def classifyReplay (verified : SignatureVerifiedDao) :
    Except (DaoProcessError E) Bool :=
  let sequence := verified.envelope.origin.originSequence
  match m.originHighWater.get verified.publicKey with
  | some (hash, previous) =>
    if sequence < previous ∨ (sequence = previous ∧ hash ≠ verified.signedDaoSha256) then
      .error .replay
    else .ok (sequence = previous)
  | none => if m.originHighWater.len = maxDaoOrigins then .error .notAdmitted else .ok false

def recordHighWater (verified : SignatureVerifiedDao) : DaoManager :=
  let mark := (verified.signedDaoSha256, verified.envelope.origin.originSequence)
  { m with originHighWater := m.originHighWater.insert verified.publicKey mark }

def knowsTarget (updates : List DaoUpdate) : Bool :=
  updates.any fun update => m.pathSeqMap.containsKey update.target

end

section

variable {S E : Type} [NonVolatile S E]

def openRoot (storage : S) (scope : DaoRxScope) :
    Except (DaoPersistentOpenError E) (DaoManager × DaoRxState) :=
  let buf := highWaterPayloadLen + slotOverhead
  match openRedundant storage daoRxKeys daoRxMagic buf buf highWaterPayloadLen with
  | .error error => .error (mapOpenError error)
  | .ok (current, persisted) =>
    if persisted.length < highWaterHeaderLen then .error .corrupt
    else if persisted.take 16 ≠ scope.nodeAddress.toList ∨
        persisted.extract 16 17 ≠ [scope.rplInstanceId] ∨
        persisted.extract 17 highWaterScopeLen ≠ scope.dodagId.toList then .error .scopeMismatch
    else
      match decodeHighWater persisted with
      | none => .error .corrupt
      | some originHighWater => .ok ({ asRoot scope with originHighWater }, ⟨current⟩)

def provisionRoot (storage : S) (scope : DaoRxScope) :
    Option (Except (DaoProvisionError E) (DaoManager × DaoRxState)) × S :=
  match openRoot storage scope with
  | .ok _ => (some (.error (.open .alreadyProvisioned)), storage)
  | .error (.storage error) => (some (.error (.storage error)), storage)
  | .error .missing =>
    match encodeHighWater scope HashMap.new highWaterHeaderLen with
    | none => (none, storage)
    | some payload =>
      let (provisioned, storage) := provisionRedundant storage daoRxKeys daoRxMagic payload
        (highWaterHeaderLen + slotOverhead)
      match provisioned with
      | none => (none, storage)
      | some (.error .exists) => (some (.error (.open .corrupt)), storage)
      | some (.error (.storage error)) => (some (.error (.storage error)), storage)
      | some (.ok ()) => (some ((openRoot storage scope).mapError .open), storage)
  | .error error => (some (.error (.open error)), storage)

/-- Persist the high-water mark of an accepted DAO, then take over the proposed manager. `none` is
the panic of a record that does not fit its buffer. -/
def commitHighWater (m proposed : DaoManager) (verified : SignatureVerifiedDao) (rx : DaoRxState)
    (storage : S) :
    Option (Except (DaoProcessError E) DaoProcessOutcome) × DaoManager × DaoRxState × S :=
  let proposed := proposed.recordHighWater verified
  match encodeHighWater m.scope proposed.originHighWater highWaterPayloadLen with
  | none => (some (.error .routeRejected), m, rx, storage)
  | some payload =>
    let (updated, storage) := updateRedundant storage daoRxKeys daoRxMagic rx.current payload
      (highWaterPayloadLen + slotOverhead)
    match updated with
    | none => (none, m, rx, storage)
    | some (.error error) => (some (.error (mapRxUpdateError error)), m, rx, storage)
    | some (.ok current) => (some (.ok .applied), proposed, ⟨current⟩, storage)

section

variable (m : DaoManager)

def processSignatureVerifiedInner (order : HashOrder)
    (verified : SignatureVerifiedDao) (authenticatedSenderIid : Iid) (rx : DaoRxState) (storage : S)
    (timing : DaoProcessTiming) (skipDaoSequenceCheck : Bool)
    (daoAdmission : DaoAdmissionState) :
    Option (Except (DaoProcessError E) DaoProcessOutcome) × DaoManager × DaoRxState × S :=
  if !daoAdmission.contains verified.publicKey then (some (.error .notAdmitted), m, rx, storage)
  else
    match m.classifyReplay verified with
    | .error error => (some (.error error), m, rx, storage)
    | .ok duplicate =>
      match m.prefixDelegations.authorizeDaoPrefixes verified.envelope.unsignedBytes
          verified.publicKey verified.origin,
        extractUpdates verified.envelope.dao verified.envelope.unsignedBytes with
      | .ok (), some updates =>
        if duplicate && m.knowsTarget updates then
          (some (.ok .duplicate), m, rx, storage)
        else if !senderIsAuthorized updates verified.origin m.nodeAddress authenticatedSenderIid then
          (some (.error .routeRejected), m, rx, storage)
        else
          match m.processDaoInner order verified.envelope.dao updates verified.origin
              skipDaoSequenceCheck timing .production with
          | none => (some (.error .routeRejected), m, rx, storage)
          | some (_, proposed) =>
            if duplicate then (some (.ok .duplicate), proposed, rx, storage)
            else m.commitHighWater proposed verified rx storage
      | _, _ => (some (.error .routeRejected), m, rx, storage)

end

end

end DaoManager

end Lichen.Rpl
