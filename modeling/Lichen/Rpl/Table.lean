import Lichen.Core.Types
import Lichen.Lib.Fold
import Lichen.Lib.HashMap

namespace Lichen.Rpl

open Lichen.Lib Lichen.Core

def maxRoutes : Nat := 256
def maxRouteHops : Nat := 8

inductive RouteEntryState where
  | fresh
  | stale
  | expired
  deriving DecidableEq

def RouteEntryState.canTransitionTo : RouteEntryState → RouteEntryState → Bool
  | .fresh, _ => true
  | .stale, _ => true
  | .expired, next => next = .expired

structure InvalidRouteEntryTransition where
  source : RouteEntryState
  target : RouteEntryState

structure RouteEntry where
  path : List Ipv6Addr
  state : RouteEntryState
  deriving DecidableEq

namespace RouteEntry

def fresh (path : List Ipv6Addr) : RouteEntry := ⟨path, .fresh⟩

section

variable (entry : RouteEntry)

def transitionTo (next : RouteEntryState) :
    Except InvalidRouteEntryTransition RouteEntry :=
  if entry.state.canTransitionTo next then .ok { entry with state := next }
  else .error ⟨entry.state, next⟩

def markStale : Except InvalidRouteEntryTransition RouteEntry :=
  entry.transitionTo .stale

def markExpired : Except InvalidRouteEntryTransition RouteEntry :=
  entry.transitionTo .expired

def refresh (path : List Ipv6Addr) :
    Except InvalidRouteEntryTransition RouteEntry :=
  if entry.state = .expired then .error ⟨entry.state, .fresh⟩
  else { entry with path := path }.transitionTo .fresh

def isUsable : Bool := entry.state ≠ .expired

end

theorem refresh_of_usable {entry : RouteEntry} (h : entry.state ≠ .expired)
    (path : List Ipv6Addr) : entry.refresh path = .ok (fresh path) := by
  rw [refresh, if_neg h]
  cases entry with | mk old state => cases state with
  | expired => exact absurd rfl h
  | fresh | stale => rfl

end RouteEntry

structure RouteTarget where
  address : Ipv6Addr
  prefixLen : UInt8
  deriving DecidableEq

namespace RouteTarget

def new (address : Ipv6Addr) (prefixLen : UInt8) : Option RouteTarget :=
  if prefixLen > 128 then none
  else
    let wholeBytes := prefixLen.toNat / 8
    let remainingBits := prefixLen % 8
    let usedBytes := wholeBytes + if remainingBits ≠ 0 then 1 else 0
    let masked := if remainingBits ≠ 0
      then address.toList.modify wholeBytes (· &&& (0xff <<< (8 - remainingBits)))
      else address.toList
    some ⟨toArray 16 (masked.take usedBytes), prefixLen⟩

def host (address : Ipv6Addr) : RouteTarget := ⟨address, 128⟩

def contains (target : RouteTarget) (address : Ipv6Addr) : Bool :=
  let wholeBytes := target.prefixLen.toNat / 8
  let remainingBits := target.prefixLen % 8
  let ours := target.address.toList
  let theirs := address.toList
  ours.take wholeBytes = theirs.take wholeBytes && (remainingBits = 0 ||
    (ours.getD wholeBytes 0 ^^^ theirs.getD wholeBytes 0) &&& (0xff <<< (8 - remainingBits)) = 0)

theorem host_injective (h : host a = host b) : a = b := (RouteTarget.mk.inj h).1

end RouteTarget

/-- Root-side map from route target to an ordered root-to-egress hop list. -/
structure RoutingTable where
  routes : HashMap RouteTarget RouteEntry
  prefixRouteCount : Nat
  rplManagedHosts : HashSet Ipv6Addr
  rplManagedPrefixes : HashMap RouteTarget Ipv6Addr
  unavailableManagedPrefixes : HashSet RouteTarget

namespace RoutingTable

def new : RoutingTable := ⟨HashMap.new, 0, HashMap.new, HashMap.new, HashMap.new⟩

/-- The entry a route is added as: a usable entry is refreshed; `none` if that panics. -/
def refreshed (table : RoutingTable) (target : RouteTarget) (path : List Ipv6Addr) :
    Option RouteEntry :=
  match (table.routes.get target).filter (·.state ≠ .expired) with
  | some entry => (entry.refresh path).toOption
  | none => some (.fresh path)

/-- Add or replace a route; `false` if a new entry would exceed capacity, `none` on a panic. -/
def addTargetRoute (table : RoutingTable) (target : RouteTarget) (path : List Ipv6Addr) :
    Option (Bool × RoutingTable) :=
  if path = [] ∨ path.length > maxRouteHops then some (false, table)
  else
    let isNew := !table.routes.containsKey target
    if isNew ∧ table.routes.len = maxRoutes then some (false, table)
    else (table.refreshed target path).map fun entry =>
      (true,
        { table with
          routes := table.routes.insert target entry
          prefixRouteCount := if isNew ∧ target.prefixLen < 128 then table.prefixRouteCount + 1
            else table.prefixRouteCount })

def addRoute (table : RoutingTable) (target : Ipv6Addr) (path : List Ipv6Addr) :
    Option (Bool × RoutingTable) :=
  table.addTargetRoute (.host target) path

def addPrefixRoute (table : RoutingTable) (target : RouteTarget) (egress : Ipv6Addr)
    (path : List Ipv6Addr) : Option (Bool × RoutingTable) :=
  if target.prefixLen = 128 ∨ path.getLast? ≠ some egress ∨ target.address ∈ path then
    some (false, table)
  else
    let wasManaged := table.rplManagedPrefixes.get target = some egress
    let isManaged := wasManaged ∨ HashSet.contains table.rplManagedHosts egress
    (table.addTargetRoute target path).map fun (added, next) =>
      if added then
        (true,
          { next with
            rplManagedPrefixes := if isManaged then next.rplManagedPrefixes.insert target egress
              else next.rplManagedPrefixes.remove target
            unavailableManagedPrefixes := next.unavailableManagedPrefixes.remove target })
      else (false, next)

def removeRoute (table : RoutingTable) (target : Ipv6Addr) : RoutingTable :=
  { table with routes := table.routes.remove (.host target) }

/-- Remove a prefix route; `none` when the count of prefix routes would drop below zero. -/
def removePrefixRoute (table : RoutingTable) (target : RouteTarget) : Option RoutingTable :=
  if target.prefixLen < 128 ∧ table.routes.containsKey target then
    if table.prefixRouteCount = 0 then none
    else some
      { table with
        routes := table.routes.remove target
        prefixRouteCount := table.prefixRouteCount - 1
        rplManagedPrefixes := table.rplManagedPrefixes.remove target
        unavailableManagedPrefixes := table.unavailableManagedPrefixes.remove target }
  else some table

/-- Move an entry to another state, if the table has it and its state allows that. -/
def transition (table : RoutingTable) (target : RouteTarget)
    (mark : RouteEntry → Except InvalidRouteEntryTransition RouteEntry) :
    Option (Except InvalidRouteEntryTransition Unit) × RoutingTable :=
  match table.routes.get target with
  | none => (none, table)
  | some entry => match mark entry with
    | .ok next => (some (.ok ()), { table with routes := table.routes.insert target next })
    | .error error => (some (.error error), table)

def markStale (table : RoutingTable) (target : Ipv6Addr) :
    Option (Except InvalidRouteEntryTransition Unit) × RoutingTable :=
  table.transition (.host target) RouteEntry.markStale

def markExpired (table : RoutingTable) (target : Ipv6Addr) :
    Option (Except InvalidRouteEntryTransition Unit) × RoutingTable :=
  table.transition (.host target) RouteEntry.markExpired

def markPrefixExpired (table : RoutingTable) (target : RouteTarget) :
    Option (Except InvalidRouteEntryTransition Unit) × RoutingTable :=
  if target.prefixLen < 128 then table.transition target RouteEntry.markExpired
  else (none, table)

def lookup (table : RoutingTable) (order : HashOrder) (target : Ipv6Addr) :
    Option (List Ipv6Addr) :=
  if table.prefixRouteCount = 0 then
    ((table.routes.get (.host target)).filter (·.isUsable)).map (·.path)
  else
    let matching := (table.routes.iter order).filter fun e => e.1.contains target && e.2.isUsable
    (minBy (fun e best => best.1.prefixLen ≤ e.1.prefixLen) matching).map (·.2.path)

end RoutingTable

end Lichen.Rpl
