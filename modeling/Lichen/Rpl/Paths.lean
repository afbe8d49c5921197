import Lichen.Lib.CycleSearch
import Lichen.Rpl.DaoUpdate
import Lichen.Rpl.Table

namespace Lichen.Rpl

open Lichen.Lib Lichen.Core

def pathControlSize : UInt8 := 7

structure DaoCandidate where
  parent : Ipv6Addr
  pathControl : UInt8
  pathLifetime : UInt8
  deriving DecidableEq

abbrev ParentMap := HashMap Ipv6Addr (List Ipv6Addr)
abbrev CandidateMap := HashMap Ipv6Addr (List DaoCandidate)

def pathControlRank (pathControl : UInt8) : Option Nat :=
  let masked := pathControl &&& (0xff <<< (7 - pathControlSize))
  [6, 4, 2, 0].findIdx? fun shift => masked &&& ((0x03 : UInt8) <<< shift) ≠ 0

def namesRoot (root name : Ipv6Addr) : Bool :=
  name = root || (isCanonicalLinkLocal name && interfaceId name = interfaceId root)

def onlyAlias : List Ipv6Addr → Except Unit (Option Ipv6Addr)
  | [] => .ok none
  | [aliased] => .ok (some aliased)
  | _ => .error ()

/-- The node a name stands for: a target of that address, or else the only target that a
link-local name shares its interface identifier with. -/
def resolveNode (parentMap : ParentMap) (name : Ipv6Addr) : Except Unit (Option Ipv6Addr) :=
  if parentMap.containsKey name then .ok (some name)
  else if isCanonicalLinkLocal name then
    onlyAlias ((parentMap.keys .inserted).filter fun key => interfaceId key = interfaceId name)
  else .ok none

def eligible (activeParents : List Ipv6Addr) (candidates : List DaoCandidate) :
    List (Nat × Ipv6Addr) :=
  candidates.filterMap fun candidate =>
    if candidate.parent ∈ activeParents then
      (pathControlRank candidate.pathControl).map fun rank => (rank, candidate.parent)
    else none

def choiceLt (left right : Nat × List Ipv6Addr) : Bool :=
  left.1 < right.1 || (left.1 = right.1 &&
    left.2.map List.Vector.toList < right.2.map List.Vector.toList)

def choice (result : Nat × Except Unit (Option (List Ipv6Addr))) :
    Option (Nat × List Ipv6Addr) :=
  match result.2 with
  | .ok (some path) => some (result.1, path)
  | _ => none

def selectPath (results : List (Nat × Except Unit (Option (List Ipv6Addr)))) :
    Except Unit (Option (List Ipv6Addr)) :=
  if results.any fun result => !result.2.isOk then .error ()
  else .ok ((minBy choiceLt (results.filterMap choice)).map Prod.snd)

/-- Follow parents from `name` to the root. `path` has the nodes so far, the last one first; they
are also the visited ones. The fuel is never used up, as a path has at most `maxRouteHops` nodes. -/
def assemblePathFrom (root : Ipv6Addr) (parentMap : ParentMap) (candidateMap : CandidateMap) :
    Nat → Ipv6Addr → List Ipv6Addr → Except Unit (Option (List Ipv6Addr))
  | 0, _, _ => .error ()
  | fuel + 1, name, path =>
    if namesRoot root name then .ok (some path)
    else
      match resolveNode parentMap name with
      | .error () => .error ()
      | .ok none => .ok none
      | .ok (some node) =>
        if path.length = maxRouteHops then .error ()
        else if node ∈ path then .ok none
        else
          match parentMap.get node, candidateMap.get node with
          | some activeParents, some candidates =>
            selectPath ((eligible activeParents candidates).map fun (rank, parent) =>
              (rank, assemblePathFrom root parentMap candidateMap fuel parent (node :: path)))
          | _, _ => .ok none

def assemblePathChecked (root : Ipv6Addr) (parentMap : ParentMap) (candidateMap : CandidateMap)
    (target : Ipv6Addr) : Except Unit (Option (List Ipv6Addr)) :=
  match assemblePathFrom root parentMap candidateMap (maxRouteHops + 1) target [] with
  | .error () => .error ()
  | .ok none => .ok none
  | .ok (some path) => .ok (if path.isEmpty then none else some path)

def hasCycleFrom (parentMap : ParentMap) (fuel : Nat) (node : Ipv6Addr)
    (search : CycleSearch Ipv6Addr) : Bool × CycleSearch Ipv6Addr :=
  CycleSearch.fromNode (fun node => (parentMap.get node).getD []) fuel node search

/-- A path of parents without repetition is no longer than the map, which bounds the fuel. -/
def containsCycle (parentMap : ParentMap) : Bool :=
  (CycleSearch.any (hasCycleFrom parentMap (parentMap.len + 1)) (parentMap.keys .inserted)
    ⟨[], []⟩).1

end Lichen.Rpl
