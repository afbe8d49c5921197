import Lichen.Rpl.RouteSafety
import Mathlib.Data.List.Chain
import Mathlib.Data.List.ModifyLast

namespace Lichen.Rpl

open Lichen.Lib Lichen.Core Lichen.Hal HashMap

def targetOptions (daoBytes : Bytes) : List RawOption :=
  (optionIter (Dao.optionsTail daoBytes)).1.filter (·.optType = optRplTarget)

/-- An origin may announce a prefix: its own address, or an exact delegation. -/
def MayAnnounce (d : PrefixDelegations) (publicKey : PublicKey) (origin : Ipv6Addr)
    (prefixLen : UInt8) (address : Ipv6Addr) : Prop :=
  (prefixLen = 128 ∧ address = origin) ∨ d.authorizes publicKey prefixLen address = true

section

variable {d : PrefixDelegations} {publicKey : PublicKey}

theorem authorizeOption_ok
    (h : d.authorizeOption publicKey origin sawTarget option = .ok sawTarget')
    (htarget : option.optType = optRplTarget) :
    MayAnnounce d publicKey origin (option.data.getD 1 0) (canonicalPrefix option.data) := by
  simp only [PrefixDelegations.authorizeOption, htarget, ne_eq, not_true_eq_false, if_false] at h
  repeat' split at h
  all_goals cases h
  assumption

theorem foldlM_authorizeOption_ok {options : List RawOption}
    (h : options.foldlM (d.authorizeOption publicKey origin) sawTarget = .ok sawTarget') :
    ∀ option ∈ options, option.optType = optRplTarget →
      MayAnnounce d publicKey origin (option.data.getD 1 0) (canonicalPrefix option.data) := by
  induction options generalizing sawTarget with
  | nil => simp
  | cons option options ih =>
    rw [List.foldlM_cons, bind_eq_ok] at h
    obtain ⟨_, hoption, h⟩ := h
    rintro other (_ | ⟨_, hother⟩) htarget
    · exact authorizeOption_ok hoption htarget
    · exact ih h other hother htarget

theorem authorizeDaoPrefixes_ok (h : d.authorizeDaoPrefixes unsignedDao publicKey origin = .ok ()) :
    ∀ option ∈ targetOptions unsignedDao,
      MayAnnounce d publicKey origin (option.data.getD 1 0) (canonicalPrefix option.data) := by
  rw [PrefixDelegations.authorizeDaoPrefixes, bind_eq_ok] at h
  obtain ⟨_, hfold, -⟩ := h
  intro option hoption
  obtain ⟨hmem, htarget⟩ := List.mem_filter.mp hoption
  exact foldlM_authorizeOption_ok hfold option hmem (by simpa using htarget)

end

namespace UpdateGroups

structure Targets (P : Ipv6Addr → Prop) (g : UpdateGroups) : Prop where
  updates : ∀ update ∈ g.updates, P update.target
  targets : ∀ target ∈ g.targets, P target.1

variable {P : Ipv6Addr → Prop} {g : UpdateGroups}

theorem targets_finishTarget
    (hupdates : ∀ update ∈ announced, P update.target) (htarget : P target.1)
    (h : finishTarget hops announced target = some announced') :
    ∀ update ∈ announced', P update.target := by
  rw [finishTarget] at h
  split at h
  · cases h
  cases h
  intro update hupdate
  obtain hold | hnew := List.mem_append.mp hupdate
  · exact hupdates update hold
  · obtain ⟨_, -, rfl⟩ := List.mem_map.mp hnew
    exact htarget

section

variable (hg : Targets P g)

include hg

theorem Targets.finishGroup (h : g.finishGroup = some announced) :
    ∀ update ∈ announced, P update.target := by
  rw [UpdateGroups.finishGroup] at h
  split at h
  · cases h
  exact foldlM_invariant (I := fun updates => ∀ update ∈ updates, P update.target)
    (fun target htarget _ _ hupdates hstep =>
      targets_finishTarget hupdates (hg.targets target htarget) hstep) hg.updates h

theorem Targets.addTarget (hnew : P (canonicalPrefix data))
    (h : g.addTarget data = some g') : Targets P g' := by
  simp only [UpdateGroups.addTarget, Option.bind_eq_bind, Option.bind_eq_some_iff] at h
  obtain ⟨opened, hopen, h⟩ := h
  have hopened : Targets P opened := by
    rw [openGroup] at hopen
    split at hopen
    · cases hopen
      exact hg
    · obtain ⟨updates, hfinish, rfl⟩ := Option.map_eq_some_iff.mp hopen
      exact ⟨hg.finishGroup hfinish, by simp⟩
  split at h
  · cases h
  split at h
  · cases h
  cases h
  refine ⟨hopened.updates, fun target htarget => ?_⟩
  obtain hold | hlast := List.mem_append.mp htarget
  · exact hopened.targets target hold
  · rw [List.mem_singleton.mp hlast]
    exact hnew

theorem Targets.addDescriptor (h : g.addDescriptor data = some g') : Targets P g' := by
  rw [UpdateGroups.addDescriptor] at h
  split at h
  · cases h
  cases h
  refine ⟨hg.updates, fun target htarget => ?_⟩
  have htargets := hg.targets
  obtain hnil | ⟨_, last, hconcat⟩ := List.eq_nil_or_concat g.targets
  · rw [hnil] at htarget
    cases htarget
  · rw [hconcat, List.concat_eq_append, List.modifyLast_concat, List.mem_append] at htarget
    rw [hconcat, List.concat_eq_append] at htargets
    obtain hfront | hlast := htarget
    · exact htargets target (List.mem_append_left _ hfront)
    · rw [List.mem_singleton.mp hlast]
      exact htargets last (List.mem_append_right _ (List.mem_singleton_self _))

theorem Targets.addTransit (h : g.addTransit data = some g') : Targets P g' := by
  rw [UpdateGroups.addTransit] at h
  repeat' split at h
  all_goals cases h
  · exact ⟨hg.updates, hg.targets⟩
  · exact ⟨hg.updates, hg.targets⟩

theorem Targets.addOption (hnew : option.optType = optRplTarget → P (canonicalPrefix option.data))
    (h : g.addOption option = some g') : Targets P g' := by
  rw [UpdateGroups.addOption] at h
  split at h
  · exact hg.addTarget (hnew ‹_›) h
  split at h
  · exact hg.addDescriptor h
  split at h
  · exact hg.addTransit h
  · cases h

end

end UpdateGroups

theorem target_of_extractUpdates (h : extractUpdates dao daoBytes = some announced) :
    ∀ update ∈ announced, ∃ option ∈ targetOptions daoBytes,
      update.target = canonicalPrefix option.data := by
  simp only [extractUpdates] at h
  split at h
  · cases h
  simp only [Option.bind_eq_bind, Option.bind_eq_some_iff] at h
  obtain ⟨_, hfold, h⟩ := h
  split at h
  · cases h
  refine UpdateGroups.Targets.finishGroup (P := fun target => ∃ option ∈ targetOptions daoBytes,
    target = canonicalPrefix option.data) ?_ h
  refine foldlM_invariant (I := UpdateGroups.Targets _) (fun option hoption _ _ hg hstep => ?_)
    ⟨by simp [UpdateGroups.start], by simp [UpdateGroups.start]⟩ hfold
  exact hg.addOption (fun htarget => ⟨option, List.mem_filter.mpr ⟨hoption, by simpa using htarget⟩,
    rfl⟩) hstep

theorem Incoming.get_addUpdate {incoming incoming' : Incoming}
    (hne : target ≠ update.target) (h : incoming.addUpdate update = some incoming') :
    incoming'.candidates.get target = incoming.candidates.get target := by
  simp only [addUpdate] at h
  split at h
  · cases h
  · cases h
    exact get_insert_ne _ _ hne

theorem Incoming.get_ofUpdates
    (hne : ∀ update ∈ announced, target ≠ update.target) (h : ofUpdates announced = some incoming) :
    incoming.candidates.get target = none := by
  obtain ⟨_, hadded, rfl⟩ := Option.map_eq_some_iff.mp h
  rw [get_mapValues, Option.map_eq_none_iff]
  refine foldlM_invariant (I := fun incoming : Incoming => incoming.candidates.get target = none)
    (fun update hupdate _ _ hnone hstep => ?_) get_new hadded
  rw [get_addUpdate (hne update hupdate) hstep, hnone]

theorem get_of_reserveFreshness (h : reserveFreshness map key limit now isProtected = some map')
    (hget : map'.get target = some freshness) : map.get target = some freshness := by
  rw [reserveFreshness] at h
  split at h
  · cases h
    exact hget
  rw [makeFreshnessRoom] at h
  split at h
  · cases h
    exact hget
  · obtain ⟨_, -, rfl⟩ := Option.map_eq_some_iff.mp h
    exact (get_of_get_remove hget).2

structure NothingNew (target : Ipv6Addr) (s s' : RouteState) : Prop where
  edges : ∀ parent, ParentEdge s'.parents target parent → ParentEdge s.parents target parent
  expiry : ∀ parent deadline, s'.expiry.get (target, parent) = some deadline →
    s.expiry.get (target, parent) = some deadline
  pathSequences : ∀ freshness, s'.pathSequences.get target = some freshness →
    s.pathSequences.get target = some freshness
  candidates : ∀ candidates, s'.candidates.get target = some candidates →
    s.candidates.get target = some candidates
  descriptors : ∀ descriptor, s'.descriptors.get target = some descriptor →
    s.descriptors.get target = some descriptor

namespace NothingNew

variable {target : Ipv6Addr}

theorem refl : NothingNew target s s :=
  ⟨fun _ h => h, fun _ _ h => h, fun _ h => h, fun _ h => h, fun _ h => h⟩

theorem trans (h : NothingNew target s s') (h' : NothingNew target s' s'') :
    NothingNew target s s'' where
  edges parent hedge := h.edges parent (h'.edges parent hedge)
  expiry parent deadline hget := h.expiry parent deadline (h'.expiry parent deadline hget)
  pathSequences freshness hget := h.pathSequences freshness (h'.pathSequences freshness hget)
  candidates candidates hget := h.candidates candidates (h'.candidates candidates hget)
  descriptors descriptor hget := h.descriptors descriptor (h'.descriptors descriptor hget)

theorem prune :
    NothingNew target s (s.prune now) where
  edges _ hedge := DaoManager.parentEdge_prune hedge
  expiry _ _ hget := (RouteState.get_expiry_prune.mp hget).1
  pathSequences _ hget := hget
  candidates _ hget := hget
  descriptors _ hget := hget

theorem dropEdges : NothingNew target s (s.dropEdges other) := by
  have hsame : (s.dropEdges other).pathSequences = s.pathSequences ∧
      (s.dropEdges other).candidates = s.candidates ∧
      (s.dropEdges other).descriptors = s.descriptors := by
    rw [RouteState.dropEdges]
    split
    · exact ⟨rfl, rfl, rfl⟩
    · exact ⟨rfl, rfl, rfl⟩
  obtain ⟨hsequences, hcandidates, hdescriptors⟩ := hsame
  refine ⟨?_, fun _ _ hget => RouteState.get_expiry_dropEdges hget, hsequences ▸ fun _ h => h,
    hcandidates ▸ fun _ h => h, hdescriptors ▸ fun _ h => h⟩
  rintro _ ⟨parents, hparents, hmem⟩
  rw [RouteState.dropEdges] at hparents
  split at hparents
  · exact ⟨parents, hparents, hmem⟩
  · exact ⟨parents, (get_of_get_remove hparents).2, hmem⟩

theorem announce (candidates : List DaoCandidate)
    (hne : target ≠ other) : NothingNew target s { s with
      candidates := s.candidates.insert other candidates
      descriptors := s.descriptors.insert other descriptor } where
  edges _ hedge := hedge
  expiry _ _ hget := hget
  pathSequences _ hget := hget
  candidates _ hget := by rwa [get_insert_ne _ _ hne] at hget
  descriptors _ hget := by rwa [get_insert_ne _ _ hne] at hget

theorem replaceTarget (hne : target ≠ entry.1)
    (h : RouteState.replaceTarget announced incoming p entry = some p') :
    NothingNew target p.1 p'.1 ∧
      (HashSet.contains p'.2 target = true → HashSet.contains p.2 target = true) := by
  have hadd : HashSet.contains (HashSet.add p.2 entry.1) target = true →
      HashSet.contains p.2 target = true := fun hcontains =>
    (HashSet.contains_add.mp hcontains).resolve_left hne
  obtain rfl | ⟨_, _, rfl | rfl, rfl⟩ := RouteState.replaceTarget_cases h
  · exact ⟨refl, id⟩
  · exact ⟨announce _ hne, hadd⟩
  · exact ⟨dropEdges.trans (announce _ hne), hadd⟩

theorem installEdge (hne : target ≠ update.target)
    (h : RouteState.installEdge timing changed s update = some s') : NothingNew target s s' := by
  obtain rfl | ⟨-, _, _, -, -, rfl⟩ := RouteState.installEdge_edges h
  · exact refl
  refine ⟨?_, ?_, fun _ hget => hget, fun _ hget => hget, fun _ hget => hget⟩
  · rintro parent ⟨kept, hkept, hmem⟩
    rw [get_insert_ne _ _ hne] at hkept
    exact ⟨kept, hkept, hmem⟩
  · intro parent deadline' hget
    rwa [get_insert_ne _ _ fun heq => hne (Prod.mk.inj heq).1] at hget

theorem recordFreshness (hne : target ≠ other)
    (h : RouteState.recordFreshness announced now limit incoming s other = some s') :
    NothingNew target s s' := by
  obtain ⟨_, hreserve, rfl⟩ := Option.map_eq_some_iff.mp h
  refine ⟨fun _ hedge => hedge, fun _ _ hget => hget, fun freshness hget => ?_, fun _ hget => hget,
    fun _ hget => hget⟩
  rw [get_insert_ne _ _ hne] at hget
  exact get_of_reserveFreshness hreserve hget

theorem retainFresh : NothingNew target s s.retainFresh where
  edges _ hedge := hedge
  expiry _ _ hget := hget
  pathSequences _ hget := hget
  candidates _ hget := by
    rw [RouteState.retainFresh, get_retain, Option.filter_eq_some_iff] at hget
    exact hget.1
  descriptors _ hget := by
    rw [RouteState.retainFresh, get_retain, Option.filter_eq_some_iff] at hget
    exact hget.1

theorem propose (hne : ∀ update ∈ announced, target ≠ update.target)
    (h : s.propose order announced timing limits = some (s', changed)) : NothingNew target s s' := by
  obtain ⟨_, replaced, installed, _, hincoming, -, hreplaced, hinstalled, hrecorded,
    rfl⟩ := RouteState.propose_eq_some h
  have hcandidates := Incoming.get_ofUpdates hne hincoming
  have hreplacedNew : NothingNew target s replaced ∧ HashSet.contains changed target ≠ true := by
    refine foldlM_invariant
      (I := fun p => NothingNew target s p.1 ∧ HashSet.contains p.2 target ≠ true)
      (fun entry hentry p p' hp hstep => ?_)
      ⟨prune, by simp [HashSet.contains, HashMap.containsKey]⟩ hreplaced
    have hother : target ≠ entry.1 := by
      rintro rfl
      rw [(mem_iter order).mp hentry] at hcandidates
      cases hcandidates
    obtain ⟨hnew, hcontains⟩ := replaceTarget hother hstep
    exact ⟨hp.1.trans hnew, fun hmem => hp.2 (hcontains hmem)⟩
  have hinstalledNew : NothingNew target s installed :=
    foldlM_invariant (fun update hupdate _ _ hs hstep =>
      hs.trans (installEdge (hne update hupdate) hstep)) hreplacedNew.1 hinstalled
  refine (foldlM_invariant (I := NothingNew target s) (fun other hother _ _ hs hstep =>
    hs.trans (recordFreshness ?_ hstep)) hinstalledNew hrecorded).trans retainFresh
  rintro rfl
  exact hreplacedNew.2 (HashSet.contains_eq_true.mpr ((mem_keys order).mp hother))

end NothingNew

theorem IsSourceRoute.exists_edge (h : IsSourceRoute edge root target path) :
    ∃ parent, edge target parent := by
  obtain ⟨front, rfl⟩ := List.getLast?_eq_some_iff.mp h.last
  have hhops := h.hops
  rw [← List.cons_append, List.isChain_append] at hhops
  obtain ⟨near, hnear⟩ := Option.isSome_iff_exists.mp
    (List.getLast?_isSome.mpr (List.cons_ne_nil root front))
  obtain ⟨parent, hedge, -⟩ := hhops.2.2 near hnear target rfl
  exact ⟨parent, hedge⟩

theorem maskPrefixBits_host (address : Ipv6Addr) : maskPrefixBits 128 address = address := by
  have hwhole : address.toList.take 16 = address.toList :=
    List.take_of_length_le address.toList_length.le
  change toArray 16 (address.toList.take 16) = address
  rw [hwhole, toArray_toList]

namespace PrefixDelegations

variable {d : PrefixDelegations} {key publicKey : PublicKey}

theorem authorizes_delegate {len prefixLen : UInt8}
    (h : d.delegate publicKey address prefixLen = .ok d')
    (hauthorizes : d'.authorizes key len network = true) : d.authorizes key len network = true ∨
      (key = publicKey ∧ len = prefixLen ∧ network = maskPrefixBits prefixLen address) := by
  simp only [delegate] at h
  repeat' split at h
  all_goals cases h
  · exact .inl hauthorizes
  simp only [authorizes, get_insert] at hauthorizes
  split at hauthorizes
  · rename_i hkey
    simp only [Option.any_some, HashSet.contains_add] at hauthorizes
    obtain heq | hold := hauthorizes
    · obtain ⟨rfl, rfl⟩ := Prod.mk.inj heq
      exact .inr ⟨hkey, rfl, rfl⟩
    · left
      rw [authorizes, hkey]
      cases hget : d.delegated.get publicKey with
      | none => simp [hget, HashSet.contains, HashMap.containsKey] at hold
      | some => simpa [hget] using hold
  · exact .inl hauthorizes

end PrefixDelegations

namespace RootNode

variable {E : Type} {crypto : Crypto} {n : RootNode E} {m : DaoManager}

def DelegatedBy (calls : List (RootCall E)) (d : PrefixDelegations) : Prop :=
  ∀ publicKey prefixLen network, d.authorizes publicKey prefixLen network = true →
    ∃ address, .delegatePrefix publicKey address prefixLen ∈ calls ∧
      network = maskPrefixBits prefixLen address

def Delegated (calls : List (RootCall E)) (n : RootNode E) : Prop :=
  ∀ m rx, n.root = some (m, rx) → DelegatedBy calls m.prefixDelegations

theorem DelegatedBy.append (h : DelegatedBy calls d) : DelegatedBy (calls ++ [call]) d := by
  intro publicKey prefixLen network hauthorizes
  obtain ⟨address, hmem, heq⟩ := h publicKey prefixLen network hauthorizes
  exact ⟨address, List.mem_append_left _ hmem, heq⟩

theorem DelegatedBy.delegate (h : DelegatedBy calls m.prefixDelegations)
    (hdelegate : m.prefixDelegations.delegate publicKey address prefixLen = .ok d) :
    DelegatedBy (calls ++ [.delegatePrefix publicKey address prefixLen]) d := by
  intro key len network hauthorizes
  obtain hold | ⟨rfl, rfl, rfl⟩ := PrefixDelegations.authorizes_delegate hdelegate hauthorizes
  · exact h.append key len network hold
  · exact ⟨address, List.mem_append_right _ List.mem_cons_self, rfl⟩

theorem delegated_step (calls : List (RootCall E)) (n : RootNode E) (call : RootCall E)
    (h : Delegated calls n) : Delegated (calls ++ [call]) (n.step crypto call) := by
  intro m' rx' hroot
  obtain ⟨_, _, rfl⟩ | ⟨m, rx, hold, hadvance⟩ := root_step hroot
  · intro publicKey prefixLen network hauthorizes
    cases hauthorizes
  have hby := h m rx hold
  generalize (n.step crypto call).processedAt = now at hadvance
  cases hadvance with
  | keep | process | expire => exact hby.append
  | delegate hdelegate => exact hby.delegate hdelegate

theorem delegated_run (calls : List (RootCall E)) :
    Delegated calls (run (step crypto) (blank E) calls) :=
  run_invariant_history (I := Delegated) delegated_step (by rintro _ _ ⟨⟩) calls

theorem authorized_of_processed
    (hprocessed : m.Processed order verified timing updates s originSequences routes)
    (hhosts : ∀ option ∈ targetOptions verified.envelope.unsignedBytes, option.data.getD 1 0 = 128) :
    ∀ update ∈ updates, update.target = verified.origin ∨
      m.prefixDelegations.authorizes verified.publicKey 128 update.target = true := by
  intro update hupdate
  obtain ⟨option, hoption, heq⟩ := target_of_extractUpdates hprocessed.extracted update hupdate
  have hmay := authorizeDaoPrefixes_ok hprocessed.authorized option hoption
  rw [hhosts option hoption, ← heq] at hmay
  exact hmay.imp_left And.right

theorem routeInv_process (hinv : RouteInv m old) (n : RootNode E) (rx : DaoRxState)
    (verified : SignatureVerifiedDao) (a : DaoArrival) (failure : Option E) :
    ∃ now, RouteInv (process n.flash (m, rx) verified a failure).2.1 now := by
  obtain ⟨heq, -⟩ | ⟨_, _, _, _, map, hprocessed, heq, -⟩ :=
    process_manager n m rx verified a failure
  · rw [heq]
    exact ⟨_, hinv⟩
  · rw [heq]
    exact ⟨_, DaoManager.routeInv_withProposal hinv hprocessed map⟩

theorem nothingNew_process (n : RootNode E) (m : DaoManager) (rx : DaoRxState)
    (a : DaoArrival) (failure : Option E)
    (hhosts : ∀ option ∈ targetOptions verified.envelope.unsignedBytes, option.data.getD 1 0 = 128)
    (hown : target ≠ verified.origin)
    (hforeign : m.prefixDelegations.authorizes verified.publicKey 128 target = false) :
    NothingNew target m.routeState (process n.flash (m, rx) verified a failure).2.1.routeState := by
  obtain ⟨heq, -⟩ | ⟨_, _, _, _, _, hprocessed, heq, -⟩ :=
    process_manager n m rx verified a failure
  · rw [heq]
    exact .refl
  · obtain ⟨_, hpropose⟩ := hprocessed.proposed
    rw [heq]
    refine NothingNew.propose (fun update hupdate htarget => ?_) hpropose
    obtain hself | hauthorizes := authorized_of_processed hprocessed hhosts update hupdate
    · exact hown (htarget.trans hself)
    · rw [htarget, hauthorizes] at hforeign
      cases hforeign

/-- A DAO of host targets changes the records of the origin's own address and of the addresses
delegated to it only. A route of another target leads over edges that target had before, and no
prefix route appears. -/
theorem dao_changes_own_targets (crypto : Crypto) (calls : List (RootCall E)) (m : DaoManager)
    (rx : DaoRxState) (h : (run (step crypto) (blank E) calls).root = some (m, rx)) (a : DaoArrival)
    (verified : SignatureVerifiedDao) (hverified : a.verify crypto = .ok verified)
    (hhosts : ∀ option ∈ targetOptions verified.envelope.unsignedBytes, option.data.getD 1 0 = 128)
    (failure : Option E) :
    let f := (run (step crypto) (blank E) calls).flash
    let m' := (process f (m, rx) verified a failure).2.1
    (∀ target, target ≠ yggAddrFromPubkey verified.publicKey →
      m.prefixDelegations.authorizes verified.publicKey 128 target = false →
      NothingNew target m.routeState m'.routeState ∧
      ∀ entry, m'.routingTable.routes.get (.host target) = some entry →
        ∃ parent, ParentEdge m.parentMap target parent) ∧
    (∀ target entry, m'.routingTable.routes.get target = some entry →
      ∃ address, target = .host address) ∧
    ∀ target, m.prefixDelegations.authorizes verified.publicKey 128 target = true →
      .delegatePrefix verified.publicKey target 128 ∈ calls := by
  intro f m'
  have hinv : RouteInv m _ := routed_run calls m rx h
  have horigin : verified.origin = yggAddrFromPubkey verified.publicKey :=
    (verifySignature_ok hverified).2.2
  obtain ⟨now, hinv'⟩ := routeInv_process hinv _ rx verified a failure
  refine ⟨fun target hown hforeign => ?_, fun target entry hget =>
    (hinv'.table.routes target entry hget).imp fun _ => And.left, fun target hauthorizes => ?_⟩
  · have hnew := nothingNew_process (run (step crypto) (blank E) calls) m rx a failure hhosts
      (horigin ▸ hown) hforeign
    refine ⟨hnew, fun entry hget => ?_⟩
    obtain ⟨address, heq, hroute⟩ := hinv'.table.routes _ entry hget
    obtain rfl := RouteTarget.host_injective heq
    obtain ⟨parent, hedge⟩ := hroute.exists_edge
    exact ⟨parent, hnew.edges parent hedge⟩
  · obtain ⟨address, hmem, rfl⟩ := delegated_run calls m rx h _ _ _ hauthorizes
    rwa [maskPrefixBits_host]

def sampleChildKey : PublicKey := List.Vector.replicate 32 0x81

def orphanCalls : List (RootCall Unit) :=
  [.provisionRoot sampleRoot none,
    .dao (sampleArrival sampleChildKey (sampleGroup [yggAddrFromPubkey sampleChildKey]
      (yggAddrFromPubkey sampleKey) 255) 1) none]

def adopting : DaoArrival :=
  sampleArrival sampleKey (sampleGroup [yggAddrFromPubkey sampleKey] sampleRoot.nodeAddress 255) 1

/-- The routes of the child before and after a DAO, with the outcome of the DAO. -/
def childRoutes (n : RootNode Unit) (a : DaoArrival) :
    Option (Option RouteEntry × Option (Except (DaoProcessError Unit) DaoProcessOutcome) ×
      Option RouteEntry) :=
  match n.root, a.verify sampleCrypto with
  | some root, .ok verified =>
    let child := RouteTarget.host (yggAddrFromPubkey sampleChildKey)
    let outcome := process n.flash root verified a none
    some (root.1.routingTable.routes.get child, outcome.1,
      outcome.2.1.routingTable.routes.get child)
  | _, _ => none

theorem adopting_adds_child_route :
    childRoutes (run (step sampleCrypto) (blank Unit) orphanCalls) adopting =
      some (none, some (.ok .applied),
        some (.fresh [yggAddrFromPubkey sampleKey, yggAddrFromPubkey sampleChildKey])) ∧
    yggAddrFromPubkey sampleChildKey ≠ yggAddrFromPubkey sampleKey ∧
    (run (step sampleCrypto) (blank Unit) orphanCalls).root.map (fun r =>
      r.1.prefixDelegations.authorizes sampleKey 128 (yggAddrFromPubkey sampleChildKey)) =
        some false := by
  decide +kernel

theorem adopting_changes_own_target :
    let n := run (step sampleCrypto) (blank Unit) orphanCalls
    ∃ m rx verified, n.root = some (m, rx) ∧ adopting.verify sampleCrypto = .ok verified ∧
      NothingNew (yggAddrFromPubkey sampleChildKey) m.routeState
        (process n.flash (m, rx) verified adopting none).2.1.routeState := by
  intro n
  have hrun : n.root.map (fun r =>
      r.1.prefixDelegations.authorizes sampleKey 128 (yggAddrFromPubkey sampleChildKey)) =
        some false := by
    decide +kernel
  have hverify : (adopting.verify sampleCrypto).toOption.map (fun verified =>
      (verified.publicKey, (targetOptions verified.envelope.unsignedBytes).all
        (·.data.getD 1 0 = 128))) = some (sampleKey, true) := by
    decide +kernel
  obtain ⟨⟨m, rx⟩, hroot, hforeign⟩ := Option.map_eq_some_iff.mp hrun
  obtain ⟨verified, hverified, hkey⟩ := Option.map_eq_some_iff.mp hverify
  obtain ⟨hkey, hhosts⟩ := Prod.mk.inj hkey
  have hok := toOption_eq_some.mp hverified
  refine ⟨m, rx, verified, hroot, hok, ?_⟩
  have hown := (dao_changes_own_targets sampleCrypto orphanCalls m rx hroot adopting verified hok
    (by simpa using hhosts) none).1
  exact (hown _ (by rw [hkey]; decide +kernel) (by rw [hkey]; exact hforeign)).1

end RootNode

end Lichen.Rpl
