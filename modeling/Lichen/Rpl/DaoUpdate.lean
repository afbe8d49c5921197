import Lichen.Lib.HashMap
import Lichen.Rpl.Message

namespace Lichen.Rpl

open Lichen.Lib Lichen.Core

/-- Why an authenticated DAO origin may not advertise a Target prefix. -/
inductive UnauthorizedPrefixReason where
  | defaultRoute
  | foreignPrefix

inductive PrefixAuthorizationError where
  | malformedTarget
  | unauthorized (reason : UnauthorizedPrefixReason)

def maxPrefixDelegations : Nat := 64

inductive PrefixDelegationError where
  | defaultRoute
  | prefixLength
  | capacity

def maskPrefixBits (prefixLen : UInt8) (address : Ipv6Addr) : Ipv6Addr :=
  let full := prefixLen.toNat / 8
  let rem := prefixLen % 8
  let whole := address.toList.take full
  toArray 16 (if rem = 0 then whole
    else whole ++ [address.toList.getD full 0 &&& (0xff <<< (8 - rem))])

def hostOctets (prefixLen : UInt8) : Nat := (prefixLen.toNat + 7) / 8

def canonicalPrefix (data : Bytes) : Ipv6Addr :=
  let prefixLen := data.getD 1 0
  maskPrefixBits prefixLen (toArray 16 (data.extract 2 (2 + hostOctets prefixLen)))

structure PrefixDelegations where
  delegated : HashMap PublicKey (HashSet (UInt8 × Ipv6Addr))

namespace PrefixDelegations

def new : PrefixDelegations := ⟨HashMap.new⟩

section

variable (d : PrefixDelegations)

def authorizes (publicKey : PublicKey) (prefixLen : UInt8)
    (address : Ipv6Addr) : Bool :=
  (d.delegated.get publicKey).any fun set => HashSet.contains set (prefixLen, address)

def len : Nat := (d.delegated.toPairs.map fun e => e.2.len).sum

def delegate (publicKey : PublicKey) (address : Ipv6Addr)
    (prefixLen : UInt8) : Except PrefixDelegationError PrefixDelegations :=
  if prefixLen = 0 then .error .defaultRoute
  else if prefixLen > 128 then .error .prefixLength
  else
    let canonical := maskPrefixBits prefixLen address
    if d.authorizes publicKey prefixLen canonical then .ok d
    else if d.len ≥ maxPrefixDelegations then .error .capacity
    else
      let set := (d.delegated.get publicKey).getD HashMap.new
      .ok ⟨d.delegated.insert publicKey (HashSet.add set (prefixLen, canonical))⟩

/-- One option of the loop of `authorize_dao_prefixes`: whether a Target was seen. -/
def authorizeOption (publicKey : PublicKey) (origin : Ipv6Addr)
    (sawTarget : Bool) (option : RawOption) : Except PrefixAuthorizationError Bool :=
  if option.optType ≠ optRplTarget then .ok sawTarget
  else if option.data.length < 2 then .error .malformedTarget
  else
    let prefixLen := option.data.getD 1 0
    if prefixLen > 128 then .error .malformedTarget
    else if option.data.length - 2 < hostOctets prefixLen then .error .malformedTarget
    else
      let canonical := canonicalPrefix option.data
      if prefixLen = 0 then .error (.unauthorized .defaultRoute)
      else if (prefixLen = 128 ∧ canonical = origin) ∨ d.authorizes publicKey prefixLen canonical then
        .ok true
      else .error (.unauthorized .foreignPrefix)

/-- Authorize every RPL Target in an unsigned DAO against the verified origin. -/
def authorizeDaoPrefixes (unsignedDao : Bytes) (publicKey : PublicKey)
    (origin : Ipv6Addr) : Except PrefixAuthorizationError Unit := do
  let (options, error) := optionIter (Dao.optionsTail unsignedDao)
  let sawTarget ← options.foldlM (d.authorizeOption publicKey origin) false
  if error.isSome || !sawTarget then throw .malformedTarget

end

end PrefixDelegations

def maxDaoUpdates : Nat := 64

structure DaoUpdate where
  target : Ipv6Addr
  parent : Ipv6Addr
  pathControl : UInt8
  pathSequence : UInt8
  pathLifetime : UInt8
  descriptor : Option UInt32

/-- The loop state of `extract_updates`: the finished updates and the group that is being read,
each target with its descriptor. -/
structure UpdateGroups where
  updates : List DaoUpdate
  targets : List (Ipv6Addr × Option UInt32)
  transits : List TransitInfo
  descriptorAllowed : Bool

namespace UpdateGroups

def start : UpdateGroups := ⟨[], [], [], false⟩

def update (target : Ipv6Addr × Option UInt32) (transit : TransitInfo) : DaoUpdate :=
  ⟨target.1, transit.parentAddress, transit.pathControl, transit.pathSequence,
    transit.pathLifetime, target.2⟩

def finishTarget (transits : List TransitInfo) (updates : List DaoUpdate)
    (target : Ipv6Addr × Option UInt32) : Option (List DaoUpdate) :=
  if updates.any (·.target = target.1) then none
  else some (updates ++ transits.map (update target))

section

variable (g : UpdateGroups)

def finishGroup : Option (List DaoUpdate) :=
  if g.targets.isEmpty || g.transits.isEmpty ||
      g.updates.length + g.targets.length * g.transits.length > maxDaoUpdates then none
  else g.targets.foldlM (finishTarget g.transits) g.updates

def openGroup : Option UpdateGroups :=
  if g.transits.isEmpty then some g
  else g.finishGroup.map fun updates => ⟨updates, [], [], g.descriptorAllowed⟩

def addTarget (data : Bytes) : Option UpdateGroups := do
  let g ← g.openGroup
  if data.length < 2 ∨ data.getD 0 0 ≠ 0 then none
  else
    let prefixLen := data.getD 1 0
    if prefixLen = 0 ∨ prefixLen > 128 ∨ data.length - 2 < hostOctets prefixLen ∨
        g.targets.length = maxDaoUpdates then none
    else some { g with
      targets := g.targets ++ [(canonicalPrefix data, none)]
      descriptorAllowed := true }

def addDescriptor (data : Bytes) : Option UpdateGroups :=
  if !g.descriptorAllowed ∨ data.length ≠ 4 then none
  else some { g with
    targets := g.targets.modifyLast fun target => (target.1, some (UInt32.ofNat (beNat data)))
    descriptorAllowed := false }

def addTransit (data : Bytes) : Option UpdateGroups :=
  if g.targets.isEmpty then none
  else
    match TransitInfo.fromBytes data with
    | .error _ => none
    | .ok parsed =>
      if parsed.external then none
      else if g.transits.any fun first => first.pathSequence ≠ parsed.pathSequence ||
          first.pathLifetime ≠ parsed.pathLifetime then none
      else
        match g.transits.find? (·.parentAddress = parsed.parentAddress) with
        | some existing =>
          if existing ≠ parsed then none else some { g with descriptorAllowed := false }
        | none =>
          if g.transits.length = maxDaoUpdates then none
          else some { g with transits := g.transits ++ [parsed], descriptorAllowed := false }

def addOption (option : RawOption) : Option UpdateGroups :=
  if option.optType = optRplTarget then g.addTarget option.data
  else if option.optType = optRplTargetDescriptor then g.addDescriptor option.data
  else if option.optType = optTransitInfo then g.addTransit option.data
  else none

end

end UpdateGroups

def extractUpdates (dao : Dao) (daoBytes : Bytes) : Option (List DaoUpdate) :=
  if dao.flags ≠ 0 ∨ daoBytes[2]? ≠ some 0 then none
  else do
    let (options, error) := optionIter (Dao.optionsTail daoBytes)
    let groups ← options.foldlM UpdateGroups.addOption UpdateGroups.start
    if error.isSome then none
    groups.finishGroup

def isCanonicalLinkLocal (address : Ipv6Addr) : Bool :=
  address.toList.take 8 = [0xfe, 0x80, 0, 0, 0, 0, 0, 0]

def interfaceId (address : Ipv6Addr) : Bytes := address.toList.drop 8

/-- The sender of a link-local origin's DAO must be the origin, or the parent it names. -/
def senderIsAuthorized (updates : List DaoUpdate) (origin root : Ipv6Addr) (senderIid : Iid) :
    Bool :=
  let linkLocalOrigin := origin.toList.getD 0 0 = 0xfe && origin.toList.getD 1 0 &&& 0xc0 = 0x80
  let own := updates.filter (·.target = origin)
  !own.isEmpty && own.all fun update =>
    !linkLocalOrigin || (isCanonicalLinkLocal update.parent &&
      if interfaceId update.parent = interfaceId root then interfaceId origin = senderIid.toList
      else interfaceId update.parent = senderIid.toList)

end Lichen.Rpl
