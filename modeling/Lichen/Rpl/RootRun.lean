import Lichen.Hal.Redundant
import Lichen.Rpl.Routing

namespace Lichen.Rpl

open Lichen.Lib Lichen.Core Lichen.Hal

namespace DaoManager

variable {S E : Type} [NonVolatile S E] {m : DaoManager} {verified : SignatureVerifiedDao}
  {rx : DaoRxState} {storage : S} {scope : DaoRxScope}

theorem processDaoInner_eq_some
    (h : m.processDaoInner order dao updates origin skip timing limits = some (b, m')) :
    ∃ s changed originSequences routes,
      m.routeState.propose order updates timing limits = some (s, changed) ∧
      admits limits s originSequences = true ∧
      m.routingTable.rebuilt order m.nodeAddress s.parents s.candidates = some routes ∧
      m' = m.withProposal s originSequences routes := by
  simp only [processDaoInner, Option.ite_none_left_eq_some, Option.bind_eq_bind,
    Option.bind_eq_some_iff, Prod.exists] at h
  obtain ⟨-, -, s, changed, hpropose, originSequences, -, hadmits, routes, hroutes, heq⟩ := h
  cases heq
  exact ⟨s, changed, originSequences, routes, hpropose, by simpa using hadmits, hroutes, rfl⟩

/-- The DAO is authorized, and the proposal it leads to is admitted. -/
structure Processed (m : DaoManager) (order : HashOrder) (verified : SignatureVerifiedDao)
    (timing : DaoProcessTiming) (updates : List DaoUpdate) (s : RouteState)
    (originSequences : FreshnessMap) (routes : RoutingTable) : Prop where
  authorized : m.prefixDelegations.authorizeDaoPrefixes verified.envelope.unsignedBytes
    verified.publicKey verified.origin = .ok ()
  extracted : extractUpdates verified.envelope.dao verified.envelope.unsignedBytes = some updates
  proposed : ∃ changed, m.routeState.propose order updates timing .production = some (s, changed)
  admitted : admits .production s originSequences = true
  rebuilt : m.routingTable.rebuilt order m.nodeAddress s.parents s.candidates = some routes

inductive ProcessCases (m : DaoManager) (order : HashOrder) (verified : SignatureVerifiedDao)
    (rx : DaoRxState) (storage : S) (timing : DaoProcessTiming) :
    Option (Except (DaoProcessError E) DaoProcessOutcome) × DaoManager × DaoRxState × S → Prop
  | rejected (error : DaoProcessError E) :
      ProcessCases m order verified rx storage timing (some (.error error), m, rx, storage)
  | known {updates : List DaoUpdate}
      (hextract : extractUpdates verified.envelope.dao verified.envelope.unsignedBytes =
        some updates)
      (hknown : m.knowsTarget updates = true) :
      ProcessCases m order verified rx storage timing (some (.ok .duplicate), m, rx, storage)
  | restored {updates : List DaoUpdate}
      (hprocessed : m.Processed order verified timing updates s originSequences routes)
      (hknown : m.knowsTarget updates = false) :
      ProcessCases m order verified rx storage timing
        (some (.ok .duplicate), m.withProposal s originSequences routes, rx, storage)
  | fresh {updates : List DaoUpdate}
      (hreplay : m.classifyReplay (E := E) verified = .ok false)
      (hprocessed : m.Processed order verified timing updates s originSequences routes) :
      ProcessCases m order verified rx storage timing
        (m.commitHighWater (m.withProposal s originSequences routes) verified rx storage)

theorem processSignatureVerifiedInner_cases (m : DaoManager) (order : HashOrder)
    (verified : SignatureVerifiedDao) (senderIid : Iid) (rx : DaoRxState) (storage : S)
    (timing : DaoProcessTiming) (skip : Bool) (admission : DaoAdmissionState) :
    ProcessCases m order verified rx storage timing (m.processSignatureVerifiedInner order
      verified senderIid rx storage timing skip admission) := by
  simp only [processSignatureVerifiedInner]
  split
  · exact .rejected _
  split
  · exact .rejected _
  rename_i duplicate hreplay
  split
  · rename_i updates hauthorized hextracted
    split
    · rename_i hknown
      exact .known hextracted (Bool.and_eq_true_iff.mp hknown).2
    rename_i hknown
    split
    · exact .rejected _
    split
    · exact .rejected _
    rename_i hproposed
    obtain ⟨s, changed, originSequences, routes, hpropose, hadmits, hroutes, rfl⟩ :=
      processDaoInner_eq_some hproposed
    have hprocessed : m.Processed order verified timing updates s originSequences routes :=
      ⟨hauthorized, hextracted, ⟨changed, hpropose⟩, hadmits, hroutes⟩
    cases duplicate with
    | true => exact .restored hprocessed (by simpa using hknown)
    | false => exact .fresh hreplay hprocessed
  · exact .rejected _

theorem commitHighWater_cases (m proposed : DaoManager) (verified : SignatureVerifiedDao)
    (rx : DaoRxState) (storage : S) :
    (∃ result storage', m.commitHighWater proposed verified rx storage = (result, m, rx, storage') ∧
      ∀ outcome, result ≠ some (.ok outcome)) ∨
    ∃ current storage', m.commitHighWater proposed verified rx storage =
      (some (.ok .applied), proposed.recordHighWater verified, ⟨current⟩, storage') := by
  simp only [commitHighWater]
  split
  · exact .inl ⟨_, _, rfl, by simp⟩
  split
  · exact .inl ⟨_, _, rfl, by simp⟩
  · exact .inl ⟨_, _, rfl, by simp⟩
  · exact .inr ⟨_, _, rfl⟩

theorem openRoot_ok (h : openRoot storage scope = .ok (m, rx)) :
    ∃ originHighWater, m = { asRoot scope with originHighWater } := by
  simp only [openRoot] at h
  repeat' split at h
  all_goals cases h
  exact ⟨_, rfl⟩

theorem provisionRoot_ok (h : provisionRoot storage scope = (some (.ok (m, rx)), storage')) :
    openRoot storage' scope = .ok (m, rx) := by
  simp only [provisionRoot] at h
  split at h
  · cases h
  · cases h
  · split at h
    · cases h
    split at h
    · cases h
    · cases h
    · cases h
    · obtain ⟨hopen, rfl⟩ := Prod.mk.inj h
      cases hroot : openRoot (provisionRedundant storage daoRxKeys daoRxMagic _ _).2 scope with
      | error => simp [hroot] at hopen
      | ok =>
        rw [hroot] at hopen
        cases hopen
        rfl
  · cases h

end DaoManager

structure DaoArrival where
  wire : Bytes
  origin : Ipv6Addr
  rplInstanceId : UInt8
  activeDodagId : Ipv6Addr
  pinnedKey : Option PublicKey
  senderIid : Iid
  timing : DaoProcessTiming
  skipDaoSequenceCheck : Bool
  admission : DaoAdmissionState
  order : HashOrder

def DaoArrival.verify (crypto : Crypto) (a : DaoArrival) :
    Except DaoVerifyError SignatureVerifiedDao :=
  SignatureVerifiedDao.verifySignature crypto a.wire a.origin a.rplInstanceId a.activeDodagId
    a.pinnedKey

/-- The calls of a root. A write completes, or fails with an error and leaves no trace. `openRoot`
also stands for the restart that precedes it. -/
inductive RootCall (E : Type) where
  | provisionRoot (scope : DaoRxScope) (failure : Option E)
  | openRoot (scope : DaoRxScope)
  | delegatePrefix (publicKey : PublicKey) (address : Ipv6Addr) (prefixLen : UInt8)
  | dao (arrival : DaoArrival) (failure : Option E)
  | expireRoutes (order : HashOrder) (nowSeconds : Nat)

/-- A root with the origin sequences it applied, latest first, and the time of the last call that
rebuilt its routes. -/
structure RootNode (E : Type) where
  flash : Flash E daoRxMagic
  root : Option (DaoManager × DaoRxState)
  applied : List (PublicKey × Nat)
  processedAt : Nat

def writeFate (failure : Option E) : WriteFate E magic :=
  match failure with
  | none => .complete
  | some error => .lost error

namespace RootNode

variable {E : Type}

def blank (E : Type) : RootNode E := ⟨⟨fun _ => none, .complete⟩, none, [], 0⟩

def process (f : Flash E daoRxMagic) (root : DaoManager × DaoRxState)
    (verified : SignatureVerifiedDao) (a : DaoArrival) (failure : Option E) :
    Option (Except (DaoProcessError E) DaoProcessOutcome) × DaoManager × DaoRxState ×
      Flash E daoRxMagic :=
  root.1.processSignatureVerifiedInner a.order verified a.senderIid root.2
    (f.withFate (writeFate failure)) a.timing a.skipDaoSequenceCheck a.admission

def repeats (m : DaoManager) (verified : SignatureVerifiedDao) : Bool :=
  (extractUpdates verified.envelope.dao verified.envelope.unsignedBytes).any m.knowsTarget

def settle (n : RootNode E) (m : DaoManager) (verified : SignatureVerifiedDao)
    (nowSeconds : Nat) :
    Option (Except (DaoProcessError E) DaoProcessOutcome) × DaoManager × DaoRxState ×
      Flash E daoRxMagic → RootNode E
  | (none, _, _, flash) => { n with flash, root := none }
  | (some (.error _), m', rx, flash) => { n with flash, root := some (m', rx) }
  | (some (.ok .duplicate), m', rx, flash) =>
    ⟨flash, some (m', rx), n.applied, if repeats m verified then n.processedAt else nowSeconds⟩
  | (some (.ok .applied), m', rx, flash) =>
    ⟨flash, some (m', rx),
      (verified.publicKey, verified.envelope.origin.originSequence) :: n.applied, nowSeconds⟩

def step (crypto : Crypto) (n : RootNode E) : RootCall E → RootNode E
  | .provisionRoot scope failure =>
    match DaoManager.provisionRoot (n.flash.withFate (writeFate failure)) scope with
    | (none, flash) => { n with flash, root := none }
    | (some (.error _), flash) => { n with flash }
    | (some (.ok root), flash) => { n with flash, root := some root }
  | .openRoot scope => { n with root := (DaoManager.openRoot n.flash scope).toOption }
  | .delegatePrefix publicKey address prefixLen =>
    match n.root with
    | none => n
    | some (m, rx) =>
      { n with root := some ((m.delegatePrefix publicKey address prefixLen).toOption.getD m, rx) }
  | .dao a failure =>
    match n.root, a.verify crypto with
    | some root, .ok verified =>
      n.settle root.1 verified a.timing.nowSeconds (process n.flash root verified a failure)
    | _, _ => n
  | .expireRoutes order nowSeconds =>
    match n.root with
    | none => n
    | some (m, rx) =>
      let rebuilt := (m.routingTable.rebuilt order m.nodeAddress
        (m.routeState.prune nowSeconds).parents m.candidateMap).isSome
      { n with
        root := some ((m.expireRoutes order nowSeconds).2, rx)
        processedAt := if rebuilt then nowSeconds else n.processedAt }

theorem processCases_process (f : Flash E daoRxMagic) (m : DaoManager) (rx : DaoRxState)
    (verified : SignatureVerifiedDao) (a : DaoArrival) (failure : Option E) :
    m.ProcessCases a.order verified rx (f.withFate (writeFate failure)) a.timing
      (process f (m, rx) verified a failure) :=
  DaoManager.processSignatureVerifiedInner_cases ..

theorem process_manager (n : RootNode E) (m : DaoManager) (rx : DaoRxState)
    (verified : SignatureVerifiedDao) (a : DaoArrival) (failure : Option E) :
    let result := process n.flash (m, rx) verified a failure
    let processedAt := (n.settle m verified a.timing.nowSeconds result).processedAt
    result.2.1 = m ∧ processedAt = n.processedAt ∨
    ∃ updates s originSequences routes originHighWater,
      m.Processed a.order verified a.timing updates s originSequences routes ∧
      result.2.1 = { m.withProposal s originSequences routes with originHighWater } ∧
      processedAt = a.timing.nowSeconds := by
  have hcases := processCases_process n.flash m rx verified a failure
  dsimp only
  generalize process n.flash (m, rx) verified a failure = result at hcases ⊢
  cases hcases with
  | rejected => exact .inl ⟨rfl, rfl⟩
  | known hextract hknown =>
    have hrepeats : repeats m verified = true := by rw [repeats, hextract]; exact hknown
    exact .inl ⟨rfl, if_pos hrepeats⟩
  | restored hprocessed hknown =>
    have hrepeats : repeats m verified = false := by
      rw [repeats, hprocessed.extracted]
      exact hknown
    exact .inr ⟨_, _, _, _, _, hprocessed, rfl, if_neg (by simp [hrepeats])⟩
  | @fresh s originSequences routes _ _ hprocessed =>
    obtain ⟨result, flash, hcommit, hresult⟩ | ⟨_, _, hcommit⟩ := m.commitHighWater_cases
      (m.withProposal s originSequences routes) verified rx (n.flash.withFate (writeFate failure))
    · rw [hcommit]
      obtain _ | (_ | outcome) := result
      · exact .inl ⟨rfl, rfl⟩
      · exact .inl ⟨rfl, rfl⟩
      · exact absurd rfl (hresult outcome)
    · rw [hcommit]
      exact .inr ⟨_, _, _, _, _, hprocessed, rfl, rfl⟩

theorem root_settle {n : RootNode E}
    (h : (n.settle old verified now result).root = some (m, rx)) : m = result.2.1 := by
  obtain ⟨_ | (_ | (_ | _)), _, _, _⟩ := result
  · cases h
  all_goals
    cases h
    rfl

/-- What a call does to the manager of a running root, and to the time its routes were rebuilt. -/
inductive Advance (crypto : Crypto) (m : DaoManager) (processedAt : Nat) :
    RootCall E → DaoManager → Nat → Prop
  | keep (call : RootCall E) : Advance crypto m processedAt call m processedAt
  | delegate {prefixDelegations : PrefixDelegations}
      (h : m.prefixDelegations.delegate publicKey address prefixLen = .ok prefixDelegations) :
      Advance crypto m processedAt (.delegatePrefix publicKey address prefixLen)
        { m with prefixDelegations } processedAt
  | process {a : DaoArrival} (hverified : a.verify crypto = .ok verified)
      (hprocessed : m.Processed a.order verified a.timing updates s originSequences routes)
      (originHighWater : HighWaterMap) (failure : Option E) :
      Advance crypto m processedAt (.dao a failure)
        { m.withProposal s originSequences routes with originHighWater } a.timing.nowSeconds
  | expire {routes : RoutingTable} (h : m.routingTable.rebuilt order m.nodeAddress
        (m.routeState.prune now).parents m.candidateMap = some routes) :
      Advance crypto m processedAt (.expireRoutes order now) { m with
        edgeExpiry := (m.routeState.prune now).expiry
        parentMap := (m.routeState.prune now).parents
        routingTable := routes } now

theorem root_step {n : RootNode E} (h : (n.step crypto call).root = some (m', rx')) :
    (∃ scope originHighWater, m' = { DaoManager.asRoot scope with originHighWater }) ∨
    ∃ m rx, n.root = some (m, rx) ∧
      Advance crypto m n.processedAt call m' (n.step crypto call).processedAt := by
  cases call with
  | provisionRoot scope failure =>
    simp only [step] at h ⊢
    split at h
    · cases h
    · exact .inr ⟨m', rx', h, .keep _⟩
    · rename_i hprovision
      cases h
      exact .inl ⟨scope, DaoManager.openRoot_ok (DaoManager.provisionRoot_ok hprovision)⟩
  | openRoot scope => exact .inl ⟨scope, DaoManager.openRoot_ok (toOption_eq_some.mp h)⟩
  | delegatePrefix publicKey address prefixLen =>
    cases hroot : n.root with
    | none => simp [step, hroot] at h
    | some root =>
      simp only [step, hroot, DaoManager.delegatePrefix] at h ⊢
      cases hdelegate : root.1.prefixDelegations.delegate publicKey address prefixLen with
      | error =>
        rw [hdelegate] at h
        cases h
        exact .inr ⟨_, _, rfl, .keep _⟩
      | ok =>
        rw [hdelegate] at h
        cases h
        exact .inr ⟨_, _, rfl, .delegate hdelegate⟩
  | dao a failure =>
    simp only [step] at h ⊢
    split at h
    · rename_i root verified hroot hverified
      simp only [hroot]
      rw [root_settle h]
      refine .inr ⟨root.1, root.2, rfl, ?_⟩
      obtain ⟨heq, hat⟩ | ⟨_, _, _, routes, map, hprocessed, heq, hat⟩ :=
        process_manager n root.1 root.2 verified a failure
      · rw [heq, hat]
        exact .keep _
      · rw [heq, hat]
        exact .process hverified hprocessed map failure
    · exact .inr ⟨m', rx', h, .keep _⟩
  | expireRoutes order now =>
    cases hroot : n.root with
    | none => simp [step, hroot] at h
    | some root =>
      simp only [step, hroot, DaoManager.expireRoutes] at h ⊢
      cases hrebuilt : root.1.routingTable.rebuilt order root.1.nodeAddress
          (root.1.routeState.prune now).parents root.1.candidateMap with
      | none =>
        rw [hrebuilt] at h
        cases h
        exact .inr ⟨_, _, rfl, .keep _⟩
      | some routes =>
        rw [hrebuilt] at h
        cases h
        exact .inr ⟨_, _, rfl, .expire hrebuilt⟩

def sampleCrypto : Crypto :=
  ⟨fun message => toArray 32 [byteSum message], fun message => toArray 64 [byteSum message], sumVerify⟩

def sampleKey : PublicKey := List.Vector.replicate 32 0x80

def sampleAddr (net host : UInt8) : Ipv6Addr :=
  toArray 16 [net, 0, 0, 0, 0, 0, 0, 0, 0, 0, 0, 0, 0, 0, 0, host]

def sampleLinkLocal (host : UInt8) : Ipv6Addr :=
  toArray 16 [0xfe, 0x80, 0, 0, 0, 0, 0, 0, 0, 0, 0, 0, 0, 0, 0, host]

def sampleRoot : DaoRxScope := ⟨sampleAddr 0xfd 1, 0, sampleAddr 0xfd 1⟩

def sampleGroup (targets : List Ipv6Addr) (parent : Ipv6Addr) (lifetime : UInt8) : Bytes :=
  targets.flatMap (fun target => [optRplTarget, 18, 0, 128] ++ target.toList) ++
    [optTransitInfo, 20, 0, 0x80, 1, lifetime] ++ parent.toList

def sampleArrival (key : PublicKey) (options : Bytes) (sequence : Nat) : DaoArrival where
  wire :=
    let unsigned := [0, 0, 0, 1] ++ options
    let digest := daoOriginDigest sampleCrypto (yggAddrFromPubkey key) sampleRoot.dodagId sequence
      unsigned
    unsigned ++ [optDaoOriginSignature, 56] ++ beBytes 8 sequence ++
      (sumSignature key digest.toList).toList
  origin := yggAddrFromPubkey key
  rplInstanceId := 0
  activeDodagId := sampleRoot.dodagId
  pinnedKey := some key
  senderIid := List.Vector.replicate 8 0
  timing := ⟨0, 1, 2 ^ 64 - 1⟩
  skipDaoSequenceCheck := true
  admission := ⟨sampleRoot, ⟨1, 0, 0⟩, HashSet.add HashMap.new key⟩
  order := .inserted

end RootNode

end Lichen.Rpl
