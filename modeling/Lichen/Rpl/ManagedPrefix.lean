import Lichen.Rpl.Lookup
import Lichen.Rpl.RouteSafety

namespace Lichen.Rpl

open Lichen.Lib Lichen.Core Lichen.Hal DaoManager HashMap

def HasPath (root : Ipv6Addr) (parentMap : ParentMap) (candidateMap : CandidateMap)
    (egress : Ipv6Addr) : Prop :=
  parentMap.containsKey egress = true ∧
    ∃ path, assemblePathChecked root parentMap candidateMap egress = .ok (some path)

namespace RoutingTable

def usablePath (table : RoutingTable) (target : RouteTarget) : Option (List Ipv6Addr) :=
  ((table.routes.get target).filter (·.isUsable)).map (·.path)

/-- The prefix is usable exactly when its egress has a usable host route, and along its path. -/
def Follows (table : RoutingTable) (target : RouteTarget) (egress : Ipv6Addr) : Prop :=
  table.usablePath target = table.usablePath (.host egress)

/-- Every managed prefix is in use for an egress that once had a host route. -/
structure Managing (table : RoutingTable) : Prop where
  keyed : table.Keyed
  shorter : ∀ target egress, table.rplManagedPrefixes.get target = some egress →
    target.prefixLen < 128
  host : ∀ target egress, table.rplManagedPrefixes.get target = some egress →
    HashSet.contains table.rplManagedHosts egress = true
  usable : ∀ target egress, table.rplManagedPrefixes.get target = some egress →
    ∃ path, table.usablePath target = some path

section

variable {table table' : RoutingTable} {target : RouteTarget} {egress : Ipv6Addr}
  {path : List Ipv6Addr}

theorem usablePath_congr (h : table'.routes.get target = table.routes.get target) :
    table'.usablePath target = table.usablePath target := by
  rw [usablePath, usablePath, h]

theorem usablePath_fresh (h : table.routes.get target = some (.fresh path)) :
    table.usablePath target = some path := by
  rw [usablePath, h]
  rfl

theorem get_of_usablePath (h : table.usablePath target = some path) :
    ∃ entry, table.routes.get target = some entry := by
  rw [usablePath, Option.map_eq_some_iff] at h
  obtain ⟨entry, hentry, -⟩ := h
  exact ⟨entry, (Option.filter_eq_some_iff.mp hentry).1⟩

theorem ne_host_of_lt (h : target.prefixLen < 128) (address : Ipv6Addr) :
    target ≠ .host address := by
  rintro rfl
  exact UInt8.lt_irrefl 128 h

theorem Keyed.lookup_of_host (h : table.Keyed) (order : HashOrder)
    (hpath : table.usablePath (.host egress) = some path) :
    table.lookup order egress = some path := by
  obtain ⟨entry, hcovers, rfl⟩ := covers_of_exactHost hpath
  rw [h.lookup_eq_scan]
  cases hscan : table.scan order egress with
  | none => exact absurd hcovers (scan_eq_none.mp hscan _ _)
  | some =>
    rw [h.longestMatch_unique (scan_eq_some hscan) ⟨_, entry, hcovers, rfl, ?_⟩]
    intro other entry' hother
    exact (h.canonical _ _ hother.get_eq).len_le

theorem managing_of_none (hkeyed : table.Keyed) (h : table.rplManagedPrefixes = HashMap.new) :
    table.Managing where
  keyed := hkeyed
  shorter := by
    rw [h]
    rintro _ _ ⟨⟩
  host := by
    rw [h]
    rintro _ _ ⟨⟩
  usable := by
    rw [h]
    rintro _ _ ⟨⟩

theorem managing_new : new.Managing := managing_of_none keyed_new rfl

end

section Delegation

variable {table next : RoutingTable} {target : RouteTarget} {egress : Ipv6Addr}
  {path : List Ipv6Addr}

def delegated (table : RoutingTable) (target : RouteTarget) (egress : Ipv6Addr)
    (path : List Ipv6Addr) : RoutingTable :=
  { table.installed target path with
    rplManagedPrefixes :=
      if table.rplManagedPrefixes.get target = some egress ∨
          HashSet.contains table.rplManagedHosts egress
      then table.rplManagedPrefixes.insert target egress
      else table.rplManagedPrefixes.remove target
    unavailableManagedPrefixes := table.unavailableManagedPrefixes.remove target }

theorem addPrefixRoute_cases (h : table.addPrefixRoute target egress path = some (added, next)) :
    added = false ∧ next = table ∨
      added = true ∧ target.prefixLen ≠ 128 ∧ next = table.delegated target egress path := by
  rw [addPrefixRoute] at h
  split at h
  · cases h
    exact .inl ⟨rfl, rfl⟩
  rename_i hguard
  obtain hadd | hadd := table.addTargetRoute_cases target path
  · simp only [hadd] at h
    cases h
    exact .inl ⟨rfl, rfl⟩
  · simp only [hadd] at h
    cases h
    exact .inr ⟨rfl, fun hlen => hguard (.inl hlen), rfl⟩

theorem usablePath_delegated :
    (table.delegated target egress path).usablePath target = some path :=
  usablePath_fresh (get_insert_self _ _ _)

theorem usablePath_delegated_ne (h : other ≠ target) :
    (table.delegated target egress path).usablePath other = table.usablePath other :=
  usablePath_congr (get_insert_ne _ _ h)

theorem follows_delegated (hlen : target.prefixLen ≠ 128) :
    ((table.delegated target egress path).Follows target egress ↔
      table.usablePath (.host egress) = some path) ∧
    ∀ other e, other ≠ target →
      ((table.delegated target egress path).Follows other e ↔ table.Follows other e) := by
  have hhost : ∀ address, RouteTarget.host address ≠ target := by
    rintro address rfl
    exact hlen rfl
  refine ⟨?_, fun other e hne => ?_⟩
  · rw [Follows, usablePath_delegated, usablePath_delegated_ne (hhost egress), eq_comm]
  · rw [Follows, usablePath_delegated_ne hne, usablePath_delegated_ne (hhost e), Follows]

theorem get_managed_delegated
    (h : (table.delegated target egress path).rplManagedPrefixes.get other = some e) :
    other = target ∧ e = egress ∧ (table.rplManagedPrefixes.get target = some egress ∨
        HashSet.contains table.rplManagedHosts egress = true) ∨
      other ≠ target ∧ table.rplManagedPrefixes.get other = some e := by
  rw [delegated] at h
  split at h
  · rename_i hmanaged
    obtain ⟨heq, rfl⟩ | hold := get_of_get_insert h
    · exact .inl ⟨heq, rfl, hmanaged⟩
    · exact .inr hold
  · exact .inr (get_of_get_remove h)

theorem Managing.delegated (h : table.Managing) (hcanonical : target.Canonical)
    (hlen : target.prefixLen ≠ 128) :
    (table.delegated target egress path).Managing where
  keyed :=
    have hkeyed := h.keyed.installed hcanonical
    ⟨hkeyed.count_eq, hkeyed.canonical⟩
  shorter := by
    intro other e hother
    obtain ⟨rfl, -, -⟩ | ⟨-, hold⟩ := get_managed_delegated hother
    · exact UInt8.lt_of_le_of_ne hcanonical.len_le hlen
    · exact h.shorter other e hold
  host := by
    intro other e hother
    obtain ⟨rfl, rfl, hmanaged⟩ | ⟨-, hold⟩ := get_managed_delegated hother
    · exact hmanaged.elim (h.host other e) id
    · exact h.host other e hold
  usable := by
    intro other e hother
    obtain ⟨rfl, -, -⟩ | ⟨hne, hold⟩ := get_managed_delegated hother
    · exact ⟨path, usablePath_delegated⟩
    · rw [usablePath_delegated_ne hne]
      exact h.usable other e hold

end Delegation

section Rebuild

variable {root : Ipv6Addr} {parentMap : ParentMap} {candidateMap : CandidateMap}
  {table existing : RoutingTable} {order : HashOrder} {target : RouteTarget} {egress : Ipv6Addr}
  {path : List Ipv6Addr}

theorem usablePath_prefixRoutes (h : target.prefixLen < 128) :
    existing.prefixRoutes.usablePath target = existing.usablePath target := by
  apply usablePath_congr
  rw [prefixRoutes, get_retain, decide_eq_true h]
  cases existing.routes.get target <;> rfl

theorem Managing.prefixRoutes (h : existing.Managing) : existing.prefixRoutes.Managing where
  keyed := by
    refine ⟨?_, ?_⟩
    · refine (countKeys_eq_len _ fun target entry hget => ?_).symm
      rw [get_retain] at hget
      exact (Option.filter_eq_some_iff.mp hget).2
    · intro target entry hget
      rw [RoutingTable.prefixRoutes, get_retain] at hget
      exact h.keyed.canonical target entry (Option.filter_eq_some_iff.mp hget).1
  shorter := h.shorter
  host := h.host
  usable := by
    intro target egress hget
    rw [usablePath_prefixRoutes (h.shorter target egress hget)]
    exact h.usable target egress hget

/-- Only hosts with a path over the edges have a route, along that path. -/
structure Hosting (root : Ipv6Addr) (parentMap : ParentMap) (candidateMap : CandidateMap)
    (managed : HashMap RouteTarget Ipv6Addr) (table : RoutingTable) : Prop where
  managing : table.Managing
  managed_eq : table.rplManagedPrefixes = managed
  hosts : ∀ address path, table.usablePath (.host address) = some path →
    parentMap.containsKey address = true ∧
      assemblePathChecked root parentMap candidateMap address = .ok (some path)

theorem hosting_prefixRoutes (h : existing.Managing) :
    Hosting root parentMap candidateMap existing.rplManagedPrefixes existing.prefixRoutes where
  managing := h.prefixRoutes
  managed_eq := rfl
  hosts := by
    intro address path hpath
    obtain ⟨_, hget⟩ := get_of_usablePath hpath
    rw [RoutingTable.prefixRoutes, get_retain] at hget
    exact absurd (Option.filter_eq_some_iff.mp hget).2 (by simp [RouteTarget.host])

theorem Hosting.addHost (h : Hosting root parentMap candidateMap managed table)
    (hkey : parentMap.containsKey address = true)
    (hadd : addHost root parentMap candidateMap table address = some table') :
    Hosting root parentMap candidateMap managed table' := by
  obtain ⟨-, rfl⟩ | ⟨path, hpath, rfl⟩ := addHost_cases hadd
  · exact h
  have hkeyed := h.managing.keyed.insert_host address (.fresh path)
  refine ⟨⟨⟨hkeyed.count_eq, hkeyed.canonical⟩, h.managing.shorter, ?_, ?_⟩, h.managed_eq, ?_⟩
  · intro target egress hget
    exact HashSet.contains_add.mpr (.inr (h.managing.host target egress hget))
  · intro target egress hget
    obtain ⟨old, hold⟩ := h.managing.usable target egress hget
    refine ⟨old, (usablePath_congr (get_insert_ne _ _ ?_)).trans hold⟩
    exact ne_host_of_lt (h.managing.shorter target egress hget) address
  · intro other found hfound
    by_cases heq : RouteTarget.host other = .host address
    · cases RouteTarget.host_injective heq
      rw [usablePath_fresh (get_insert_self _ _ _)] at hfound
      cases hfound
      exact ⟨hkey, hpath⟩
    · rw [usablePath_congr (get_insert_ne _ _ heq)] at hfound
      exact h.hosts other found hfound

theorem usablePath_addHost
    (hpath : assemblePathChecked root parentMap candidateMap address = .ok (some path))
    (hadd : addHost root parentMap candidateMap table address = some table') :
    table'.usablePath (.host address) = some path := by
  obtain ⟨hnone, -⟩ | ⟨_, hfound, rfl⟩ := addHost_cases hadd
  · rw [hpath] at hnone
    cases hnone
  · rw [hpath] at hfound
    cases hfound
    exact usablePath_fresh (get_insert_self _ _ _)

theorem usablePath_addHost_ne (hne : address ≠ other)
    (hadd : addHost root parentMap candidateMap table other = some table') :
    table'.usablePath (.host address) = table.usablePath (.host address) := by
  obtain ⟨-, rfl⟩ | ⟨_, -, rfl⟩ := addHost_cases hadd
  · rfl
  · exact usablePath_congr (get_insert_ne _ _ fun heq => hne (RouteTarget.host_injective heq))

theorem usablePath_foldlM_addHost {targets : List Ipv6Addr}
    (hpath : assemblePathChecked root parentMap candidateMap address = .ok (some path))
    (h : targets.foldlM (addHost root parentMap candidateMap) table = some table')
    (hmem : address ∈ targets ∨ table.usablePath (.host address) = some path) :
    table'.usablePath (.host address) = some path := by
  induction targets generalizing table with
  | nil =>
    cases h
    exact hmem.resolve_left List.not_mem_nil
  | cons other targets ih =>
    rw [foldlM_option_cons, Option.bind_eq_some_iff] at h
    obtain ⟨_, hadd, h⟩ := h
    apply ih h
    by_cases heq : address = other
    · subst heq
      exact .inr (usablePath_addHost hpath hadd)
    · rw [usablePath_addHost_ne heq hadd]
      exact hmem.imp_left fun hmem => (List.mem_cons.mp hmem).resolve_left heq

section

variable (h : HashSet.contains table.rplManagedHosts egress = true)

include h

theorem reconcilePrefix_cases (order : HashOrder) (target : RouteTarget) :
    reconcilePrefix order table (target, egress) = table ∧
      (∀ path, table.lookup order egress = some path → path = []) ∨
    ∃ path, table.lookup order egress = some path ∧
      reconcilePrefix order table (target, egress) = { table with
        routes := table.routes.insert target (.fresh path)
        unavailableManagedPrefixes := table.unavailableManagedPrefixes.remove target } := by
  simp only [reconcilePrefix, h, Bool.not_true, Bool.false_eq_true, if_false]
  cases hlookup : table.lookup order egress with
  | none => exact .inl ⟨rfl, by simp⟩
  | some path =>
    cases path with
    | nil => exact .inl ⟨rfl, by simp⟩
    | cons => exact .inr ⟨_, rfl, rfl⟩

theorem get_reconcilePrefix_ne (hne : other ≠ target) :
    (reconcilePrefix order table (target, egress)).usablePath other = table.usablePath other := by
  obtain ⟨heq, -⟩ | ⟨_, -, heq⟩ := reconcilePrefix_cases h order target
  · rw [heq]
  · rw [heq]
    exact usablePath_congr (get_insert_ne _ _ hne)

theorem usablePath_reconcilePrefix (hkeyed : table.Keyed)
    (hpath : table.usablePath (.host egress) = some path) (hne : path ≠ []) :
    (reconcilePrefix order table (target, egress)).usablePath target = some path := by
  have hlookup := hkeyed.lookup_of_host order hpath
  obtain ⟨-, hnil⟩ | ⟨_, hfound, heq⟩ := reconcilePrefix_cases h order target
  · exact absurd (hnil path hlookup) hne
  · rw [hlookup] at hfound
    cases hfound
    rw [heq]
    exact usablePath_fresh (get_insert_self _ _ _)

end

section

variable (h : Hosting root parentMap candidateMap managed table)

include h

theorem Hosting.reconcilePrefix (order : HashOrder) (hget : managed.get target = some egress) :
    Hosting root parentMap candidateMap managed (reconcilePrefix order table (target, egress)) := by
  rw [← h.managed_eq] at hget
  have hhost := h.managing.host target egress hget
  obtain ⟨heq, -⟩ | ⟨path, -, heq⟩ := reconcilePrefix_cases hhost order target
  · rw [heq]
    exact h
  obtain ⟨_, hold⟩ := h.managing.usable target egress hget
  obtain ⟨_, hentry⟩ := get_of_usablePath hold
  have hkeyed := keyed_insert_of_get h.managing.keyed hentry (.fresh path)
  rw [heq]
  refine ⟨⟨⟨hkeyed.count_eq, hkeyed.canonical⟩, h.managing.shorter, h.managing.host, ?_⟩,
    h.managed_eq, ?_⟩
  · intro other e hother
    by_cases hne : other = target
    · subst hne
      exact ⟨path, usablePath_fresh (get_insert_self _ _ _)⟩
    · obtain ⟨found, hfound⟩ := h.managing.usable other e hother
      exact ⟨found, (usablePath_congr (get_insert_ne _ _ hne)).trans hfound⟩
  · intro address found hfound
    have hne := (ne_host_of_lt (h.managing.shorter target egress hget) address).symm
    rw [usablePath_congr (get_insert_ne _ _ hne)] at hfound
    exact h.hosts address found hfound

theorem hosting_reconcile (order : HashOrder)
    (l : List (RouteTarget × Ipv6Addr)) (hl : ∀ e ∈ l, managed.get e.1 = some e.2) :
    Hosting root parentMap candidateMap managed (l.foldl (RoutingTable.reconcilePrefix order) table) ∧
      ∀ other, (∀ e ∈ l, e.1 ≠ other) →
        (l.foldl (RoutingTable.reconcilePrefix order) table).usablePath other =
          table.usablePath other := by
  induction l generalizing table with
  | nil => exact ⟨h, fun _ _ => rfl⟩
  | cons e l ih =>
    have hget := hl e List.mem_cons_self
    obtain ⟨hhosting, hframe⟩ := ih (h.reconcilePrefix order hget)
      fun e he => hl e (List.mem_cons_of_mem _ he)
    refine ⟨hhosting, fun other hother => ?_⟩
    rw [List.foldl_cons, hframe other fun e he => hother e (List.mem_cons_of_mem _ he)]
    rw [← h.managed_eq] at hget
    exact get_reconcilePrefix_ne (h.managing.host e.1 e.2 hget) (hother e List.mem_cons_self).symm

theorem usablePath_reconcile {l : List (RouteTarget × Ipv6Addr)}
    (hl : ∀ e ∈ l, managed.get e.1 = some e.2) (hnodup : (l.map Prod.fst).Nodup)
    (hmem : (target, egress) ∈ l) (hpath : table.usablePath (.host egress) = some path)
    (hne : path ≠ []) :
    (l.foldl (RoutingTable.reconcilePrefix order) table).usablePath target = some path := by
  induction l generalizing table with
  | nil => cases hmem
  | cons e l ih =>
    rw [List.map_cons, List.nodup_cons] at hnodup
    have hget := hl e List.mem_cons_self
    have htail : ∀ e ∈ l, managed.get e.1 = some e.2 := fun e he => hl e (List.mem_cons_of_mem _ he)
    have hnext := h.reconcilePrefix order hget
    rw [← h.managed_eq] at hget
    have hhost := h.managing.host e.1 e.2 hget
    rw [List.foldl_cons]
    obtain rfl | hmem := List.mem_cons.mp hmem
    · rw [(hosting_reconcile hnext order l htail).2 target]
      · exact usablePath_reconcilePrefix hhost h.managing.keyed hpath hne
      · rintro e he rfl
        exact hnodup.1 (List.mem_map.mpr ⟨e, he, rfl⟩)
    · refine ih hnext htail hnodup.2 hmem ?_
      rw [← hpath]
      exact get_reconcilePrefix_ne hhost
        (ne_host_of_lt (h.managing.shorter e.1 e.2 hget) egress).symm

end

theorem rebuilt_follows (h : existing.Managing)
    (hrebuilt : existing.rebuilt order root parentMap candidateMap = some table) :
    table.Managing ∧ table.rplManagedPrefixes = existing.rplManagedPrefixes ∧
      ∀ target egress, existing.rplManagedPrefixes.get target = some egress →
        (table.Follows target egress ↔ HasPath root parentMap candidateMap egress) := by
  rw [rebuilt, Option.bind_eq_bind, Option.bind_eq_some_iff] at hrebuilt
  obtain ⟨hosts, hhosts, heq⟩ := hrebuilt
  cases heq
  have hkeys : ∀ address ∈ parentMap.keys order, parentMap.containsKey address = true :=
    fun address hmem => Option.isSome_iff_exists.mpr ((mem_keys order).mp hmem)
  have hhosting : Hosting root parentMap candidateMap existing.rplManagedPrefixes hosts :=
    foldlM_invariant (I := Hosting root parentMap candidateMap existing.rplManagedPrefixes)
      (fun address hmem _ _ htable hadd => htable.addHost (hkeys address hmem) hadd)
      (hosting_prefixRoutes h) hhosts
  have hl : ∀ e ∈ existing.rplManagedPrefixes.iter order,
      existing.rplManagedPrefixes.get e.1 = some e.2 := fun e he => (mem_iter order).mp he
  obtain ⟨hfinal, hframe⟩ := hosting_reconcile hhosting order _ hl
  refine ⟨hfinal.managing, hfinal.managed_eq, fun target egress hget => ?_⟩
  have hhost : (hosts.usablePath (.host egress)) =
      (List.foldl (RoutingTable.reconcilePrefix order) hosts
        (existing.rplManagedPrefixes.iter order)).usablePath (.host egress) :=
    (hframe (.host egress) fun e he =>
      ne_host_of_lt (h.shorter e.1 e.2 (hl e he)) egress).symm
  rw [Follows, ← hhost]
  constructor
  · intro hfollows
    rw [← hfinal.managed_eq] at hget
    obtain ⟨path, hpath⟩ := hfinal.managing.usable target egress hget
    rw [hpath] at hfollows
    obtain ⟨hkey, hassemble⟩ := hhosting.hosts egress path hfollows.symm
    exact ⟨hkey, path, hassemble⟩
  · rintro ⟨hkey, path, hassemble⟩
    have hmem : egress ∈ parentMap.keys order :=
      (mem_keys order).mpr (Option.isSome_iff_exists.mp hkey)
    have hpath := usablePath_foldlM_addHost hassemble hhosts (.inl hmem)
    have hne : path ≠ [] := by
      rintro rfl
      cases (assemblePathChecked_ok hkey hassemble).last
    rw [hpath]
    exact usablePath_reconcile hhosting hl (nodup_keys _ order)
      ((mem_iter order).mpr hget) hpath hne

end Rebuild

end RoutingTable

def DaoManager.addPrefixRoute (m : DaoManager) (target : RoutingTable.CanonicalTarget)
    (egress : Ipv6Addr) (path : List Ipv6Addr) : Option DaoManager :=
  (m.routingTable.addPrefixRoute target egress path).map fun result =>
    { m with routingTable := result.2 }

inductive PrefixCall (E : Type) where
  | root (call : RootCall E)
  | addPrefixRoute (target : RoutingTable.CanonicalTarget) (egress : Ipv6Addr)
      (path : List Ipv6Addr)

namespace RootNode

variable {E : Type} {crypto : Crypto} {n : RootNode E} {m m' : DaoManager} {rx rx' : DaoRxState}

def prefixStep (crypto : Crypto) (n : RootNode E) : PrefixCall E → RootNode E
  | .root call => n.step crypto call
  | .addPrefixRoute target egress path =>
    { n with root := n.root.bind fun (m, rx) => (m.addPrefixRoute target egress path).map (·, rx) }

def Proposes (crypto : Crypto) (m : DaoManager) : RootCall E → RouteState → Prop
  | .dao a _, s => ∃ verified updates changed, a.verify crypto = .ok verified ∧
      extractUpdates verified.envelope.dao verified.envelope.unsignedBytes = some updates ∧
      m.routeState.propose a.order updates a.timing .production = some (s, changed)
  | .expireRoutes _ nowSeconds, s => s = m.routeState.prune nowSeconds
  | _, _ => False

theorem step_routes (h : (n.step crypto call).root = some (m', rx')) :
    m'.routingTable = RoutingTable.new ∨ ∃ m rx, n.root = some (m, rx) ∧
      (m'.routingTable = m.routingTable ∨ ∃ s order, Proposes crypto m call s ∧
        m.routingTable.rebuilt order m.nodeAddress s.parents s.candidates =
          some m'.routingTable) := by
  obtain ⟨_, _, rfl⟩ | ⟨m, rx, hold, hadvance⟩ := root_step h
  · exact .inl rfl
  refine .inr ⟨m, rx, hold, ?_⟩
  generalize (n.step crypto call).processedAt = now at hadvance
  cases hadvance with
  | keep | delegate => exact .inl rfl
  | @process verified updates s _ _ a hverified hprocessed =>
    obtain ⟨changed, hpropose⟩ := hprocessed.proposed
    exact .inr ⟨s, a.order, ⟨verified, updates, changed, hverified, hprocessed.extracted, hpropose⟩,
      hprocessed.rebuilt⟩
  | @expire order now _ hrebuilt => exact .inr ⟨_, order, rfl, hrebuilt⟩

def ManagingRoot (n : RootNode E) : Prop :=
  ∀ m rx, n.root = some (m, rx) → m.routingTable.Managing

theorem managing_addPrefixRoute (h : m.routingTable.Managing)
    (hadd : m.addPrefixRoute target egress path = some next) : next.routingTable.Managing := by
  obtain ⟨⟨_, _⟩, htable, rfl⟩ := Option.map_eq_some_iff.mp hadd
  obtain ⟨-, rfl⟩ | ⟨-, hlen, rfl⟩ := RoutingTable.addPrefixRoute_cases htable
  · exact h
  · exact h.delegated target.2 hlen

theorem managing_prefixStep (h : n.ManagingRoot) : (n.prefixStep crypto call).ManagingRoot := by
  intro m' rx' hroot
  cases call with
  | root =>
    obtain hnew | ⟨m, rx, hold, heq | ⟨_, _, -, hrebuilt⟩⟩ := step_routes hroot
    · rw [hnew]
      exact RoutingTable.managing_new
    · rw [heq]
      exact h m rx hold
    · exact (RoutingTable.rebuilt_follows (h m rx hold) hrebuilt).1
  | addPrefixRoute =>
    obtain ⟨⟨m, rx⟩, hold, hadd⟩ := Option.bind_eq_some_iff.mp hroot
    obtain ⟨_, hnext, heq⟩ := Option.map_eq_some_iff.mp hadd
    cases heq
    exact managing_addPrefixRoute (h m _ hold) hnext

theorem managing_run :
    (run (prefixStep crypto) (blank E) calls).ManagingRoot :=
  run_invariant (I := ManagingRoot) (fun _ call h => managing_prefixStep h)
    (by rintro _ _ ⟨⟩) calls

def FollowingRoot (n : RootNode E) : Prop :=
  ∀ m rx, n.root = some (m, rx) → ∀ target egress,
    m.routingTable.rplManagedPrefixes.get target = some egress →
      m.routingTable.Follows target egress

/-- A prefix is routed along the host route of its egress, and each egress of a managed prefix
keeps a path over the edges that are proposed. -/
def KeepsEgress (crypto : Crypto) (n : RootNode E) : PrefixCall E → Prop
  | .addPrefixRoute target egress path => ∀ m rx next, n.root = some (m, rx) →
      m.routingTable.addPrefixRoute target egress path = some (true, next) →
      next.rplManagedPrefixes.get target = some egress →
        m.routingTable.usablePath (.host egress) = some path
  | .root call => ∀ m rx s, n.root = some (m, rx) → Proposes crypto m call s →
      ∀ target egress, m.routingTable.rplManagedPrefixes.get target = some egress →
        HasPath m.nodeAddress s.parents s.candidates egress

theorem following_prefixStep (hmanaging : n.ManagingRoot) (h : n.FollowingRoot)
    (hcall : n.KeepsEgress crypto call) : (n.prefixStep crypto call).FollowingRoot := by
  intro m' rx' hroot target egress hget
  cases call with
  | root =>
    obtain hnew | ⟨m, rx, hold, heq | ⟨s, _, hproposes, hrebuilt⟩⟩ := step_routes hroot
    · rw [hnew] at hget
      cases hget
    · rw [heq] at hget ⊢
      exact h m rx hold target egress hget
    · obtain ⟨-, hmanaged, hfollows⟩ :=
        RoutingTable.rebuilt_follows (hmanaging m rx hold) hrebuilt
      rw [hmanaged] at hget
      exact (hfollows target egress hget).mpr (hcall m rx s hold hproposes target egress hget)
  | addPrefixRoute routed _ path =>
    obtain ⟨⟨m, rx⟩, hold, hadd⟩ := Option.bind_eq_some_iff.mp hroot
    obtain ⟨_, hnext, heq⟩ := Option.map_eq_some_iff.mp hadd
    cases heq
    obtain ⟨⟨_, _⟩, htable, rfl⟩ := Option.map_eq_some_iff.mp hnext
    obtain ⟨-, rfl⟩ | ⟨rfl, hlen, rfl⟩ := RoutingTable.addPrefixRoute_cases htable
    · exact h m _ hold target egress hget
    obtain ⟨hrouted, hother⟩ := RoutingTable.follows_delegated hlen
    obtain ⟨rfl, rfl, -⟩ | ⟨hne, hold'⟩ := RoutingTable.get_managed_delegated hget
    · exact hrouted.mpr (hcall m _ _ hold htable hget)
    · exact (hother target egress hne).mpr (h m _ hold target egress hold')

/-- When a managed prefix follows its egress, in any state of a root. A prefix that is routed
anew follows exactly if the path given is the host route of the egress. A call that rebuilds the
routes leaves every managed prefix in use, so the prefix follows exactly if the egress still has a
path over the proposed edges. While every call keeps to that, every managed prefix follows. -/
theorem managed_prefix_follows_iff (crypto : Crypto) (calls : List (PrefixCall E))
    (m : DaoManager) (rx : DaoRxState)
    (h : (run (prefixStep crypto) (blank E) calls).root = some (m, rx)) :
    (∀ (target : RoutingTable.CanonicalTarget) egress path added next,
      m.routingTable.addPrefixRoute target egress path = some (added, next) →
      if added then
        (next.rplManagedPrefixes.get target = some egress →
          (next.Follows target egress ↔ m.routingTable.usablePath (.host egress) = some path)) ∧
        ∀ other e, other ≠ target.1 → next.rplManagedPrefixes.get other = some e →
          (next.Follows other e ↔ m.routingTable.Follows other e)
      else next = m.routingTable) ∧
    (∀ call m' rx',
      ((run (prefixStep crypto) (blank E) calls).step crypto call).root = some (m', rx') →
      m'.routingTable = RoutingTable.new ∨ m'.routingTable = m.routingTable ∨
        ∃ s, Proposes crypto m call s ∧
          m'.routingTable.rplManagedPrefixes = m.routingTable.rplManagedPrefixes ∧
          ∀ target egress, m'.routingTable.rplManagedPrefixes.get target = some egress →
            (m'.routingTable.Follows target egress ↔
              HasPath m.nodeAddress s.parents s.candidates egress)) ∧
    (Steps (KeepsEgress crypto) (prefixStep crypto) (blank E) calls → ∀ target egress,
      m.routingTable.rplManagedPrefixes.get target = some egress →
        m.routingTable.Follows target egress) := by
  have hmanaging := managing_run m rx h
  refine ⟨fun target egress path added next hadd => ?_, fun call m' rx' hroot => ?_,
    fun hcalls => ?_⟩
  · obtain ⟨rfl, rfl⟩ | ⟨rfl, hlen, rfl⟩ := RoutingTable.addPrefixRoute_cases hadd
    · exact if_neg Bool.false_ne_true ▸ rfl
    obtain ⟨hrouted, hother⟩ := RoutingTable.follows_delegated hlen
    exact if_pos rfl ▸ ⟨fun _ => hrouted, fun other e hne _ => hother other e hne⟩
  · obtain hnew | ⟨_, _, hold, heq | ⟨s, _, hproposes, hrebuilt⟩⟩ := step_routes hroot
    · exact .inl hnew
    · cases hold.symm.trans h
      exact .inr (.inl heq)
    · cases hold.symm.trans h
      obtain ⟨-, hmanaged, hfollows⟩ := RoutingTable.rebuilt_follows hmanaging hrebuilt
      rw [hmanaged]
      exact .inr (.inr ⟨s, hproposes, rfl, hfollows⟩)
  · refine (run_invariant_of_steps (I := fun n : RootNode E => n.ManagingRoot ∧ n.FollowingRoot)
      (fun _ _ h hcall => ⟨managing_prefixStep h.1, following_prefixStep h.1 h.2 hcall⟩) ?_ calls
      hcalls).2 m rx h
    exact ⟨by rintro _ _ ⟨⟩, by rintro _ _ ⟨⟩⟩

def samplePrefix : RoutingTable.CanonicalTarget := ⟨⟨sampleAddr 0x20 0, 64⟩, by decide⟩

def joiningCalls : List (PrefixCall Unit) :=
  [.root (.provisionRoot sampleRoot none),
    .root (.dao (sampleArrival sampleKey
      (sampleGroup [yggAddrFromPubkey sampleKey] sampleRoot.nodeAddress 1) 1) none)]

theorem delegated_prefix_follows :
    ∃ m rx next, (run (prefixStep sampleCrypto) (blank Unit) joiningCalls).root = some (m, rx) ∧
      m.routingTable.addPrefixRoute samplePrefix (yggAddrFromPubkey sampleKey)
        [yggAddrFromPubkey sampleKey] = some (true, next) ∧
      next.Follows samplePrefix (yggAddrFromPubkey sampleKey) := by
  have hrun : ((run (prefixStep sampleCrypto) (blank Unit) joiningCalls).root.bind fun r =>
      (r.1.routingTable.addPrefixRoute samplePrefix (yggAddrFromPubkey sampleKey)
        [yggAddrFromPubkey sampleKey]).map fun result =>
        (result.1, result.2.rplManagedPrefixes.get samplePrefix,
          r.1.routingTable.usablePath (.host (yggAddrFromPubkey sampleKey)))) =
      some (true, some (yggAddrFromPubkey sampleKey), some [yggAddrFromPubkey sampleKey]) := by
    decide +kernel
  obtain ⟨⟨m, rx⟩, hroot, hadd⟩ := Option.bind_eq_some_iff.mp hrun
  obtain ⟨⟨_, next⟩, hadd, heq⟩ := Option.map_eq_some_iff.mp hadd
  obtain ⟨rfl, heq⟩ := Prod.mk.inj heq
  obtain ⟨hmanaged, hpath⟩ := Prod.mk.inj heq
  exact ⟨m, rx, next, hroot, hadd, (((managed_prefix_follows_iff sampleCrypto joiningCalls m rx
    hroot).1 samplePrefix _ _ true next hadd).1 hmanaged).mpr hpath⟩

theorem prefix_outlives_egress :
    (run (prefixStep sampleCrypto) (blank Unit) (joiningCalls ++
      [.addPrefixRoute samplePrefix (yggAddrFromPubkey sampleKey) [yggAddrFromPubkey sampleKey],
        .root (.expireRoutes .inserted 1)])).root.map (fun r =>
      (r.1.routingTable.rplManagedPrefixes.get samplePrefix,
        r.1.routingTable.usablePath samplePrefix,
        r.1.routingTable.usablePath (.host (yggAddrFromPubkey sampleKey)))) =
      some (some (yggAddrFromPubkey sampleKey), some [yggAddrFromPubkey sampleKey], none) := by
  decide +kernel

end RootNode

end Lichen.Rpl
