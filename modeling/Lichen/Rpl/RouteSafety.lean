import Lichen.Rpl.RootRun
import Lichen.Rpl.SourceRoute

namespace Lichen.Rpl

open Lichen.Lib Lichen.Core Lichen.Hal DaoManager HashMap

/-- Every parent has an edge, no target is without parents, and all edges are active. -/
structure EdgesOk (parents : ParentMap) (expiry : EdgeExpiry) (now : Nat) : Prop where
  edge : ∀ target parent, ParentEdge parents target parent →
    ∃ deadline, expiry.get (target, parent) = some deadline
  nonempty : ∀ target, parents.get target ≠ some []
  active : ∀ e deadline, expiry.get e = some deadline → isActive deadline now = true

namespace RouteState

variable {s s' : RouteState} {now : Nat} {target : Ipv6Addr} {updates : List DaoUpdate}
  {descriptors : DescriptorMap} {changed : HashSet Ipv6Addr} {timing : DaoProcessTiming}

theorem get_expiry_prune : (s.prune now).expiry.get e = some deadline ↔
    s.expiry.get e = some deadline ∧ isActive deadline now = true := by
  simp only [prune, get_retain, Option.filter_eq_some_iff]

theorem get_parents_prune (h : (s.prune now).parents.get target = some kept) :
    kept ≠ [] ∧ ∃ parents, s.parents.get target = some parents ∧
      ∀ parent, parent ∈ kept ↔ parent ∈ parents ∧
        ∃ deadline, (s.prune now).expiry.get (target, parent) = some deadline := by
  simp only [prune, get_retainMut, Option.bind_eq_some_iff, keepParents] at h
  obtain ⟨parents, hparents, h⟩ := h
  split at h
  · cases h
  rename_i hne
  cases h
  refine ⟨by simpa using hne, parents, hparents, fun parent => ?_⟩
  rw [List.mem_filter, HashMap.containsKey, Option.isSome_iff_exists]
  rfl

theorem edgesOk_prune (s : RouteState) (now : Nat) :
    EdgesOk (s.prune now).parents (s.prune now).expiry now where
  edge := by
    rintro target parent ⟨_, hkept, hmem⟩
    obtain ⟨-, parents, -, hiff⟩ := get_parents_prune hkept
    exact ((hiff parent).mp hmem).2
  nonempty := fun target hget => (get_parents_prune hget).1 rfl
  active := fun e deadline hget => (get_expiry_prune.mp hget).2

theorem get_foldl_remove (expiry : EdgeExpiry) (parents : List Ipv6Addr) :
    (parents.foldl (fun expiry parent => expiry.remove (target, parent)) expiry).get e =
      if e.1 = target ∧ e.2 ∈ parents then none else expiry.get e := by
  induction parents generalizing expiry with
  | nil => simp
  | cons parent parents ih =>
    rw [List.foldl_cons, ih, get_remove]
    by_cases hmem : e.1 = target ∧ e.2 ∈ parents
    · rw [if_pos hmem, if_pos ⟨hmem.1, List.mem_cons_of_mem _ hmem.2⟩]
    · rw [if_neg hmem]
      simp only [List.mem_cons]
      by_cases he : e = (target, parent)
      · simp [he]
      · have : ¬ (e.1 = target ∧ (e.2 = parent ∨ e.2 ∈ parents)) := by
          rintro ⟨h₁, h₂ | h₂⟩
          · exact he (Prod.ext h₁ h₂)
          · exact hmem ⟨h₁, h₂⟩
        rw [if_neg he, if_neg this]

theorem get_expiry_dropEdges (h : (s.dropEdges target).expiry.get e = some deadline) :
    s.expiry.get e = some deadline := by
  rw [dropEdges] at h
  split at h
  · exact h
  · rw [get_foldl_remove] at h
    split at h
    · cases h
    · exact h

theorem edgesOk_dropEdges (h : EdgesOk s.parents s.expiry now) :
    EdgesOk (s.dropEdges target).parents (s.dropEdges target).expiry now := by
  have hactive : ∀ e deadline, (s.dropEdges target).expiry.get e = some deadline →
      isActive deadline now = true := fun e deadline hget =>
    h.active e deadline (get_expiry_dropEdges hget)
  refine ⟨?_, ?_, hactive⟩
  · rintro other parent ⟨kept, hkept, hmem⟩
    simp only [dropEdges] at hkept ⊢
    cases hparents : s.parents.get target with
    | none =>
      simp only [hparents] at hkept ⊢
      exact h.edge other parent ⟨kept, hkept, hmem⟩
    | some =>
      simp only [hparents] at hkept ⊢
      obtain ⟨hne, hkept⟩ := get_of_get_remove hkept
      rw [get_foldl_remove, if_neg fun hboth => hne hboth.1]
      exact h.edge other parent ⟨kept, hkept, hmem⟩
  · intro other hnil
    rw [dropEdges] at hnil
    split at hnil
    · exact h.nonempty other hnil
    · exact h.nonempty other (get_of_get_remove hnil).2

theorem replaceTarget_cases (h : replaceTarget updates descriptors p entry = some p') :
    p' = p ∨ ∃ s descriptor, (s = p.1 ∨ s = p.1.dropEdges entry.1) ∧ p' = ({ s with
      candidates := s.candidates.insert entry.1 entry.2
      descriptors := s.descriptors.insert entry.1 descriptor }, HashSet.add p.2 entry.1) := by
  simp only [replaceTarget] at h
  repeat' split at h
  all_goals cases h
  · exact .inr ⟨p.1, _, .inl rfl, rfl⟩
  · exact .inl rfl
  · exact .inr ⟨_, _, .inr rfl, rfl⟩

theorem edgesOk_replaceTarget (hp : EdgesOk p.1.parents p.1.expiry now)
    (h : replaceTarget updates descriptors p entry = some p') :
    EdgesOk p'.1.parents p'.1.expiry now := by
  obtain rfl | ⟨_, _, rfl | rfl, rfl⟩ := replaceTarget_cases h
  · exact hp
  · exact hp
  · exact edgesOk_dropEdges hp

theorem isActive_deadlineOf (hunit : timing.lifetimeUnitSeconds = 0 → pathLifetime = 255)
    (h : deadlineOf timing pathLifetime = some deadline) :
    isActive deadline timing.nowSeconds = true := by
  simp only [deadlineOf] at h
  split at h
  · cases h
    rfl
  rename_i hfinite
  have hpos : 0 < timing.lifetimeUnitSeconds := by
    by_contra hzero
    exact hfinite (.inr (hunit (by omega)))
  simp only [Option.ite_none_left_eq_some] at h
  obtain ⟨-, -, -, h⟩ := h
  cases h
  have hlt : 0 < max pathLifetime.toNat 1 * timing.lifetimeUnitSeconds :=
    Nat.mul_pos (by omega) hpos
  simp only [isActive, Option.all_some, decide_eq_true_iff]
  omega

theorem installEdge_edges (h : installEdge timing changed s update = some s') :
    s' = s ∨ (HashSet.contains changed update.target = true ∧ ∃ parents deadline,
      deadlineOf timing update.pathLifetime = some deadline ∧
      (∀ parent, parent ∈ parents ↔
        parent ∈ (s.parents.get update.target).getD [] ∨ parent = update.parent) ∧
      s' = { s with
        parents := s.parents.insert update.target parents
        expiry := s.expiry.insert (update.target, update.parent) deadline }) := by
  simp only [installEdge] at h
  split at h
  · cases h
    exact .inl rfl
  rename_i hchanged
  split at h
  · cases h
  rename_i deadline hdeadline
  split at h
  · cases h
    exact .inl rfl
  cases h
  refine .inr ⟨by simpa using hchanged, _, deadline, hdeadline, fun parent => ?_, rfl⟩
  split
  · exact ⟨.inl, fun hor => hor.elim id fun heq => heq ▸ ‹_›⟩
  · rw [List.mem_insertionSort, List.mem_append, List.mem_singleton]

theorem edgesOk_installEdge (hs : EdgesOk s.parents s.expiry timing.nowSeconds)
    (hunit : timing.lifetimeUnitSeconds = 0 → update.pathLifetime = 255)
    (h : installEdge timing changed s update = some s') :
    EdgesOk s'.parents s'.expiry timing.nowSeconds := by
  obtain rfl | ⟨-, parents, deadline, hdeadline, hmem, rfl⟩ := installEdge_edges h
  · exact hs
  refine ⟨?_, ?_, ?_⟩
  · rintro target parent ⟨kept, hkept, hparent⟩
    rw [get_insert]
    by_cases he : (target, parent) = (update.target, update.parent)
    · exact ⟨deadline, if_pos he⟩
    rw [if_neg he]
    rw [get_insert] at hkept
    split at hkept
    · rename_i htarget
      cases hkept
      obtain hold | rfl := (hmem parent).mp hparent
      · cases hget : s.parents.get update.target with
        | none => simp [hget] at hold
        | some old =>
          rw [hget] at hold
          exact hs.edge target parent ⟨old, htarget ▸ hget, hold⟩
      · exact absurd (by rw [htarget]) he
    · exact hs.edge target parent ⟨kept, hkept, hparent⟩
  · intro target hnil
    obtain ⟨-, hnil⟩ | ⟨-, hnil⟩ := get_of_get_insert hnil
    · cases hnil
      exact absurd ((hmem update.parent).mpr (.inr rfl)) List.not_mem_nil
    · exact hs.nonempty target hnil
  · intro e deadline' hget
    obtain ⟨-, rfl⟩ | ⟨-, hget⟩ := get_of_get_insert hget
    · exact isActive_deadlineOf hunit hdeadline
    · exact hs.active e deadline' hget

section

variable (h : s.propose order updates timing limits = some (s', changed))

include h

theorem propose_eq_some :
    ∃ incoming replaced installed recorded, Incoming.ofUpdates updates = some incoming ∧
      (timing.lifetimeUnitSeconds = 0 → ∀ update ∈ updates, update.pathLifetime = 255) ∧
      (incoming.candidates.iter order).foldlM (replaceTarget updates incoming.descriptors)
        (s.prune timing.nowSeconds, HashMap.new) = some (replaced, changed) ∧
      updates.foldlM (installEdge timing changed) replaced = some installed ∧
      (changed.keys order).foldlM (recordFreshness updates timing.nowSeconds limits.maxTargets
        incoming.candidates) installed = some recorded ∧ s' = recorded.retainFresh := by
  simp only [propose] at h
  split at h
  · cases h
  rename_i incoming hincoming
  simp only [Option.ite_none_left_eq_some, Option.bind_eq_bind, Option.bind_eq_some_iff,
    Prod.exists] at h
  obtain ⟨-, hunit, replaced, _, hreplaced, installed, hinstalled, recorded, hrecorded, heq⟩ :=
    h
  cases heq
  refine ⟨incoming, replaced, installed, recorded, hincoming, ?_, hreplaced, hinstalled, hrecorded,
    rfl⟩
  intro hzero update hupdate
  by_contra hne
  exact hunit ⟨hzero, List.any_eq_true.mpr ⟨update, hupdate, by simpa using hne⟩⟩

theorem edgesOk_propose : EdgesOk s'.parents s'.expiry timing.nowSeconds := by
  obtain ⟨_, replaced, installed, _, -, hunit, hreplaced, hinstalled, hrecorded, rfl⟩ :=
    propose_eq_some h
  have hpruned := edgesOk_prune s timing.nowSeconds
  have hreplacedOk : EdgesOk replaced.parents replaced.expiry timing.nowSeconds :=
    foldlM_invariant (I := fun p => EdgesOk p.1.parents p.1.expiry timing.nowSeconds)
      (fun _ _ _ _ hp hstep => edgesOk_replaceTarget hp hstep) hpruned hreplaced
  have hinstalledOk : EdgesOk installed.parents installed.expiry timing.nowSeconds :=
    foldlM_invariant (I := fun s => EdgesOk s.parents s.expiry timing.nowSeconds)
      (fun update hupdate _ _ hs hstep =>
        edgesOk_installEdge hs (fun hzero => hunit hzero update hupdate) hstep)
      hreplacedOk hinstalled
  exact foldlM_invariant (I := fun s => EdgesOk s.parents s.expiry timing.nowSeconds)
    (fun _ _ _ _ hs hstep => by
      obtain ⟨_, -, rfl⟩ := Option.map_eq_some_iff.mp hstep
      exact hs) hinstalledOk hrecorded

end

end RouteState

/-- A table of host routes only, all of them assembled from the parent map. -/
structure TableOk (root : Ipv6Addr) (parentMap : ParentMap) (table : RoutingTable) : Prop where
  managed : table.rplManagedPrefixes = HashMap.new
  routes : ∀ target entry, table.routes.get target = some entry →
    ∃ address, target = .host address ∧
      IsSourceRoute (ParentEdge parentMap) root address entry.path

namespace RoutingTable

variable {root : Ipv6Addr} {parentMap : ParentMap} {candidateMap : CandidateMap}
  {table existing : RoutingTable} {order : HashOrder} {target : Ipv6Addr}

theorem routes_prefixRoutes (h : TableOk root parentMap existing) (target : RouteTarget) :
    existing.prefixRoutes.routes.get target = none := by
  rw [prefixRoutes, get_retain]
  cases hget : existing.routes.get target with
  | none => rfl
  | some entry =>
    obtain ⟨_, rfl, -⟩ := h.routes target entry hget
    rfl

theorem addHost_cases (h : addHost root parentMap candidateMap table target = some table') :
    assemblePathChecked root parentMap candidateMap target = .ok none ∧ table' = table ∨
    ∃ path, assemblePathChecked root parentMap candidateMap target = .ok (some path) ∧
      table' = { table with
        routes := table.routes.insert (.host target) (.fresh path)
        rplManagedHosts := HashSet.add table.rplManagedHosts target } := by
  rw [addHost] at h
  split at h
  · cases h
  · cases h
    exact .inl ⟨‹_›, rfl⟩
  rename_i path hpath
  split at h
  · cases h
  · cases h
    exact .inr ⟨path, hpath, rfl⟩

theorem tableOk_addHost (h : TableOk root parentMap table)
    (htarget : parentMap.containsKey target = true)
    (hadd : addHost root parentMap candidateMap table target = some table') :
    TableOk root parentMap table' := by
  obtain ⟨-, rfl⟩ | ⟨_, hpath, rfl⟩ := addHost_cases hadd
  · exact h
  refine ⟨h.managed, fun target' entry hget => ?_⟩
  obtain ⟨heq, rfl⟩ | ⟨-, hget⟩ := get_of_get_insert hget
  · exact ⟨target, heq, assemblePathChecked_ok htarget hpath⟩
  · exact h.routes target' entry hget

theorem rebuilt_eq (hmanaged : existing.rplManagedPrefixes = HashMap.new) :
    existing.rebuilt order root parentMap candidateMap =
      (parentMap.keys order).foldlM (addHost root parentMap candidateMap)
        existing.prefixRoutes := by
  have hiter : (HashMap.new : HashMap RouteTarget Ipv6Addr).iter order = [] :=
    (order.perm _).eq_nil
  rw [rebuilt, hmanaged, hiter]
  simp

theorem tableOk_rebuilt (h : TableOk root oldMap existing)
    (hrebuilt : existing.rebuilt order root parentMap candidateMap = some table) :
    TableOk root parentMap table := by
  rw [rebuilt_eq h.managed] at hrebuilt
  refine foldlM_invariant (I := TableOk root parentMap) (fun target hmem _ _ htable hstep => ?_)
    ?_ hrebuilt
  · exact tableOk_addHost htable (Option.isSome_iff_exists.mpr ((mem_keys order).mp hmem))
      hstep
  · refine ⟨h.managed, fun target entry hget => ?_⟩
    cases (routes_prefixRoutes h target).symm.trans hget

theorem len_addHost (hadd : addHost root parentMap candidateMap table target = some table') :
    table'.routes.len ≤ table.routes.len + 1 := by
  obtain ⟨-, rfl⟩ | ⟨_, -, rfl⟩ := addHost_cases hadd
  · exact Nat.le_succ _
  · exact len_insert_le _ _ _

theorem addHost_eq_none (target : Ipv6Addr) (hroom : table.routes.len < maxRoutes) :
    addHost root parentMap candidateMap table target = none ↔
      Blocked root parentMap candidateMap [] target := by
  rw [← assemblePathChecked_error, addHost]
  split
  · rename_i herror
    exact iff_of_true rfl herror
  · rename_i hnone
    exact iff_of_false (by simp) (by rw [hnone]; simp)
  · rename_i hpath
    rw [if_neg (Nat.not_le.mpr hroom)]
    exact iff_of_false (by simp) (by rw [hpath]; simp)

theorem foldlM_addHost_eq_none (targets : List Ipv6Addr)
    (hroom : table.routes.len + targets.length ≤ maxRoutes) :
    targets.foldlM (addHost root parentMap candidateMap) table = none ↔
      ∃ target ∈ targets, Blocked root parentMap candidateMap [] target := by
  induction targets generalizing table with
  | nil => simp
  | cons target targets ih =>
    rw [List.length_cons] at hroom
    have hiff : addHost root parentMap candidateMap table target = none ↔
        Blocked root parentMap candidateMap [] target := addHost_eq_none target (by omega)
    rw [foldlM_option_cons, List.exists_mem_cons_iff]
    cases hadd : addHost root parentMap candidateMap table target with
    | none => exact iff_of_true rfl (.inl (hiff.mp hadd))
    | some =>
      have hnot : ¬ Blocked root parentMap candidateMap [] target := fun hblocked => by
        rw [hiff.mpr hblocked] at hadd
        cases hadd
      have hlen := len_addHost hadd
      rw [Option.bind_some, ih (by omega)]
      simp [hnot]

theorem rebuilt_eq_none (order : HashOrder) (candidateMap : CandidateMap)
    (h : TableOk root oldMap existing) (hlen : parentMap.len ≤ maxRoutes) :
    existing.rebuilt order root parentMap candidateMap = none ↔
      ∃ target, parentMap.containsKey target = true ∧
        Blocked root parentMap candidateMap [] target := by
  have hempty := len_eq_zero (routes_prefixRoutes h)
  rw [rebuilt_eq h.managed, foldlM_addHost_eq_none _ (by rw [length_keys]; omega)]
  simp only [mem_keys, HashMap.containsKey, Option.isSome_iff_exists]

end RoutingTable

/-- The invariant of a root's route state at the time its routes were last rebuilt. -/
structure RouteInv (m : DaoManager) (now : Nat) : Prop where
  edges : EdgesOk m.parentMap m.edgeExpiry now
  edges_len : m.edgeExpiry.len ≤ 256
  acyclic : ∀ node, ¬ Relation.TransGen (ParentEdge m.parentMap) node node
  table : TableOk m.nodeAddress m.parentMap m.routingTable

namespace DaoManager

variable {m : DaoManager} {order : HashOrder} {now : Nat}

theorem routeInv_asRoot (scope : DaoRxScope) :
    RouteInv { asRoot scope with originHighWater := map } now := by
  have hnone : ∀ node parent, ¬ ParentEdge HashMap.new node parent := by
    rintro node parent ⟨_, hget, -⟩
    cases hget
  refine ⟨⟨fun target parent h => absurd h (hnone target parent), by simp [asRoot],
    by simp [asRoot]⟩, Nat.zero_le _, fun node hcycle => ?_, rfl, by simp [asRoot, RoutingTable.new]⟩
  obtain ⟨_, h, -⟩ := Relation.TransGen.head'_iff.mp hcycle
  exact hnone _ _ h

theorem routeInv_withProposal (h : RouteInv m old)
    (hprocessed : m.Processed order verified timing updates s originSequences routes)
    (originHighWater : HighWaterMap) :
    RouteInv { m.withProposal s originSequences routes with originHighWater }
      timing.nowSeconds := by
  obtain ⟨-, -, ⟨_, hpropose⟩, hadmits, hroutes⟩ := hprocessed
  simp only [admits, Bool.and_eq_true, decide_eq_true_iff, Bool.not_eq_true'] at hadmits
  obtain ⟨⟨⟨⟨hlen, -⟩, -⟩, -⟩, hcycle⟩ := hadmits
  refine ⟨RouteState.edgesOk_propose hpropose, hlen, fun node hnode => ?_,
    RoutingTable.tableOk_rebuilt h.table hroutes⟩
  have := (containsCycle_iff s.parents).mpr ⟨node, hnode⟩
  rw [hcycle] at this
  cases this

theorem parentEdge_prune {s : RouteState} (h : ParentEdge (s.prune now).parents target parent) :
    ParentEdge s.parents target parent := by
  obtain ⟨_, hkept, hmem⟩ := h
  obtain ⟨-, parents, hparents, hiff⟩ := RouteState.get_parents_prune hkept
  exact ⟨parents, hparents, ((hiff parent).mp hmem).1⟩

theorem routeInv_expire (h : RouteInv m old)
    (hrebuilt : m.routingTable.rebuilt order m.nodeAddress
      (m.routeState.prune now).parents m.candidateMap = some routes) :
    RouteInv { m with
      edgeExpiry := (m.routeState.prune now).expiry
      parentMap := (m.routeState.prune now).parents
      routingTable := routes } now := by
  refine ⟨RouteState.edgesOk_prune m.routeState now,
    (len_retain_le _ _).trans h.edges_len, fun node hnode => ?_,
    RoutingTable.tableOk_rebuilt h.table hrebuilt⟩
  exact h.acyclic node (hnode.lift id fun _ _ hedge => parentEdge_prune hedge)

end DaoManager

namespace RootNode

variable {E : Type} {crypto : Crypto} {n : RootNode E}

def Routed (n : RootNode E) : Prop :=
  ∀ m rx, n.root = some (m, rx) → RouteInv m n.processedAt

theorem routed_step (n : RootNode E) (call : RootCall E) (h : Routed n) :
    Routed (n.step crypto call) := by
  intro m' rx' hroot
  obtain ⟨scope, map, rfl⟩ | ⟨m, rx, hold, hadvance⟩ := root_step hroot
  · exact routeInv_asRoot scope
  have hinv := h m rx hold
  generalize (n.step crypto call).processedAt = now at hadvance ⊢
  cases hadvance with
  | keep => exact hinv
  | delegate => exact ⟨hinv.edges, hinv.edges_len, hinv.acyclic, hinv.table⟩
  | process _ hprocessed map => exact routeInv_withProposal hinv hprocessed map
  | expire hrebuilt => exact routeInv_expire hinv hrebuilt

theorem routed_run (calls : List (RootCall E)) : Routed (run (step crypto) (blank E) calls) :=
  run_invariant routed_step (by rintro _ _ ⟨⟩) calls

end RootNode

theorem IsSourceRoute.mono (h : IsSourceRoute edge root target path)
    (hedge : ∀ target parent, edge target parent → edge' target parent) :
    IsSourceRoute edge' root target path :=
  ⟨h.nodup, h.length_le, h.last, h.hops.imp fun _ far ⟨parent, hparent, halias⟩ =>
    ⟨parent, hedge far parent hparent, halias⟩⟩

def ActiveEdge (m : DaoManager) (now : Nat) (target parent : Ipv6Addr) : Prop :=
  ParentEdge m.parentMap target parent ∧
    ∃ deadline, m.edgeExpiry.get (target, parent) = some deadline ∧ isActive deadline now = true

structure NoneExpired (m : DaoManager) (now : Nat) : Prop where
  expiry : ∀ e deadline, m.edgeExpiry.get e = some deadline → isActive deadline now = true
  edges : ∀ target parent, ParentEdge m.parentMap target parent → ActiveEdge m now target parent
  routes : ∀ target entry, m.routingTable.routes.get (.host target) = some entry →
    IsSourceRoute (ActiveEdge m now) m.nodeAddress target entry.path

theorem RouteInv.noneExpired (h : RouteInv m old)
    (hactive : ∀ e deadline, m.edgeExpiry.get e = some deadline → isActive deadline now = true) :
    NoneExpired m now := by
  have hedges : ∀ target parent, ParentEdge m.parentMap target parent →
      ActiveEdge m now target parent := fun target parent hedge => by
    obtain ⟨deadline, hget⟩ := h.edges.edge target parent hedge
    exact ⟨hedge, deadline, hget, hactive _ deadline hget⟩
  refine ⟨hactive, hedges, fun target entry hget => ?_⟩
  obtain ⟨_, heq, hroute⟩ := h.table.routes _ entry hget
  obtain rfl := RouteTarget.host_injective heq
  exact hroute.mono hedges

/-- The parents have no loop, and no edge or route outlives the deadlines. -/
def RootNode.LoopFree (n : RootNode E) : Prop :=
  ∀ m rx, n.root = some (m, rx) → m.edgeExpiry.len ≤ 256 ∧
    (∀ node, ¬Relation.TransGen (ParentEdge m.parentMap) node node) ∧ NoneExpired m n.processedAt

theorem RootNode.loopFree_run (crypto : Crypto) (calls : List (RootCall E)) :
    LoopFree (run (step crypto) (blank E) calls) := by
  intro m rx hroot
  have hinv : RouteInv m _ := routed_run calls m rx hroot
  exact ⟨hinv.edges_len, hinv.acyclic, hinv.noneExpired hinv.edges.active⟩

theorem RouteState.len_prune_le (s : RouteState) (now : Nat) :
    (s.prune now).parents.len ≤ s.expiry.len := by
  have hok := edgesOk_prune s now
  have hle : (s.prune now).parents.len ≤ (s.prune now).expiry.len := by
    refine len_le_of_injOn
      (fun target => (target, (((s.prune now).parents.get target).getD []).headD target))
      (fun target parents hget => ?_) fun _ _ _ _ _ _ heq => (Prod.mk.inj heq).1
    cases parents with
    | nil => exact absurd hget (hok.nonempty target)
    | cons parent rest =>
      simp only [hget]
      exact hok.edge target parent ⟨_, hget, List.mem_cons_self⟩
  exact hle.trans (len_retain_le _ _)

namespace RootNode

variable {E : Type}

/-- A node below a link-local target that expires at time 1 and shares its interface identifier
with two other targets. -/
def sharedAliasCalls : List (RootCall Unit) :=
  let origin := yggAddrFromPubkey sampleKey
  let root := sampleRoot.nodeAddress
  [.provisionRoot sampleRoot none,
    .delegatePrefix sampleKey (sampleLinkLocal 7) 128,
    .delegatePrefix sampleKey (sampleAddr 0x20 7) 128,
    .delegatePrefix sampleKey (sampleAddr 0x21 7) 128,
    .dao (sampleArrival sampleKey (sampleGroup [origin] (sampleLinkLocal 7) 255 ++
      sampleGroup [sampleLinkLocal 7] root 1 ++
      sampleGroup [sampleAddr 0x20 7, sampleAddr 0x21 7] root 255) 1) none]

/-- Every host route of a root is a path of active parent edges, and these have no cycle. -/
theorem host_routes_are_paths (crypto : Crypto) (calls : List (RootCall E)) (m : DaoManager)
    (rx : DaoRxState) (h : (run (step crypto) (blank E) calls).root = some (m, rx)) :
    let now := (run (step crypto) (blank E) calls).processedAt
    (∀ target entry, m.routingTable.routes.get (.host target) = some entry →
      IsSourceRoute (ActiveEdge m now) m.nodeAddress target entry.path) ∧
    ∀ node, ¬ Relation.TransGen (ActiveEdge m now) node node := by
  have hinv := routed_run calls m rx h
  refine ⟨(hinv.noneExpired hinv.edges.active).routes, fun node hcycle => ?_⟩
  exact hinv.acyclic node (hcycle.lift id fun _ _ hedge => hedge.1)

theorem host_routes_are_paths_of_shared_alias :
    ∃ m rx entry, (run (step sampleCrypto) (blank Unit) sharedAliasCalls).root = some (m, rx) ∧
      m.routingTable.routes.get (.host (yggAddrFromPubkey sampleKey)) = some entry ∧
      IsSourceRoute (ActiveEdge m 0) m.nodeAddress (yggAddrFromPubkey sampleKey) entry.path := by
  have hrun : ((run (step sampleCrypto) (blank Unit) sharedAliasCalls).root.bind fun r =>
      r.1.routingTable.routes.get (.host (yggAddrFromPubkey sampleKey))).isSome = true := by
    decide +kernel
  obtain ⟨entry, hentry⟩ := Option.isSome_iff_exists.mp hrun
  obtain ⟨⟨m, rx⟩, hroot, hentry⟩ := Option.bind_eq_some_iff.mp hentry
  have hpaths := (host_routes_are_paths sampleCrypto sharedAliasCalls m rx hroot).1
  have hnow : (run (step sampleCrypto) (blank Unit) sharedAliasCalls).processedAt = 0 := by
    decide +kernel
  rw [hnow] at hpaths
  exact ⟨m, rx, entry, hroot, hentry, hpaths _ entry hentry⟩

/-- `expire_routes` removes what is expired exactly if nothing is, or no remaining target is
blocked. -/
theorem expireRoutes_removes_iff (crypto : Crypto) (calls : List (RootCall E)) (m : DaoManager)
    (rx : DaoRxState) (h : (run (step crypto) (blank E) calls).root = some (m, rx))
    (order : HashOrder) (now : Nat) :
    NoneExpired (m.expireRoutes order now).2 now ↔
      (∀ e deadline, m.edgeExpiry.get e = some deadline → isActive deadline now = true) ∨
      ∀ target, (m.routeState.prune now).parents.containsKey target = true →
        ¬ Blocked m.nodeAddress (m.routeState.prune now).parents m.candidateMap [] target := by
  have hinv := routed_run calls m rx h
  have hiff := RoutingTable.rebuilt_eq_none order m.candidateMap hinv.table
    ((RouteState.len_prune_le m.routeState now).trans hinv.edges_len)
  cases hrebuilt : m.routingTable.rebuilt order m.nodeAddress
      (m.routeState.prune now).parents m.candidateMap with
  | none =>
    obtain ⟨target, htarget, hblocked⟩ := hiff.mp hrebuilt
    simp only [DaoManager.expireRoutes, hrebuilt]
    constructor
    · exact fun hnone => .inl hnone.expiry
    · rintro (hactive | hfree)
      · exact hinv.noneExpired hactive
      · exact absurd hblocked (hfree target htarget)
  | some routes =>
    have hnew := DaoManager.routeInv_expire hinv hrebuilt
    simp only [DaoManager.expireRoutes, hrebuilt]
    refine iff_of_true (hnew.noneExpired hnew.edges.active) (.inr fun target htarget hblocked => ?_)
    rw [hiff.mpr ⟨target, htarget, hblocked⟩] at hrebuilt
    cases hrebuilt

/-- A node and a target of it, which expires at time 1. -/
def shortLivedCalls : List (RootCall Unit) :=
  let root := sampleRoot.nodeAddress
  [.provisionRoot sampleRoot none, .delegatePrefix sampleKey (sampleAddr 0x20 7) 128,
    .dao (sampleArrival sampleKey (sampleGroup [yggAddrFromPubkey sampleKey] root 255 ++
      sampleGroup [sampleAddr 0x20 7] root 1) 1) none]

theorem expireRoutes_removes_expired_edge :
    let edge := (sampleAddr 0x20 7, sampleRoot.nodeAddress)
    ∃ m rx, (run (step sampleCrypto) (blank Unit) shortLivedCalls).root = some (m, rx) ∧
      m.edgeExpiry.get edge = some (some 1) ∧
      (m.expireRoutes .inserted 1).2.edgeExpiry.get edge = none ∧
      NoneExpired (m.expireRoutes .inserted 1).2 1 := by
  intro edge
  have hrun : (run (step sampleCrypto) (blank Unit) shortLivedCalls).root.map (fun r =>
      (r.1.edgeExpiry.get edge, (r.1.expireRoutes .inserted 1).2.edgeExpiry.get edge,
        (r.1.routingTable.rebuilt .inserted r.1.nodeAddress (r.1.routeState.prune 1).parents
          r.1.candidateMap).isNone)) = some (some (some 1), none, false) := by
    decide +kernel
  obtain ⟨⟨m, rx⟩, hroot, heq⟩ := Option.map_eq_some_iff.mp hrun
  simp only [Prod.mk.injEq, Option.isNone_eq_false_iff] at heq
  obtain ⟨hold, hnew, hrebuilt⟩ := heq
  refine ⟨m, rx, hroot, hold, hnew, (expireRoutes_removes_iff sampleCrypto shortLivedCalls m rx
    hroot .inserted 1).mpr (.inr fun target htarget hblocked => ?_)⟩
  have hinv := routed_run shortLivedCalls m rx hroot
  have hnone := (RoutingTable.rebuilt_eq_none .inserted m.candidateMap hinv.table
    ((RouteState.len_prune_le m.routeState 1).trans hinv.edges_len)).mpr ⟨target, htarget, hblocked⟩
  rw [hnone] at hrebuilt
  cases hrebuilt

theorem expired_edge_stays :
    (run (step sampleCrypto) (blank Unit) sharedAliasCalls).processedAt = 0 ∧
    (run (step sampleCrypto) (blank Unit) sharedAliasCalls).root.map (fun r =>
      (r.1.expireRoutes .inserted 1).2.edgeExpiry.get (sampleLinkLocal 7, sampleRoot.nodeAddress)) =
        some (some (some 1)) := by
  decide +kernel

end RootNode

end Lichen.Rpl
