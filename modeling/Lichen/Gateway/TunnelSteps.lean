import Lichen.Gateway.TunnelAuth
import Lichen.Lib.Guard
import Lichen.Lib.Readers

namespace Lichen.Gateway

open Lichen.Lib Lichen.Core

namespace Reader

theorem avoids_byte : Avoids byte .clockRollback
  | [] => nofun
  | _ :: _ => nofun

theorem avoids_take : Avoids (take n) .clockRollback := by
  intro input
  rw [take]
  split <;> exact nofun

theorem avoids_exact (expected : UInt8) : Avoids (exact expected) .clockRollback :=
  avoids_byte.bind fun _ => (avoids_pure ()).ite (avoids_throw nofun)

theorem avoids_argument : Avoids (argument additional) .clockRollback := by
  rw [argument]
  refine (avoids_pure _).ite (.ite ?_ (.ite ?_ (.ite ?_ (.ite ?_ (avoids_throw nofun)))))
  · exact avoids_byte.bind fun _ => avoids_pure _
  all_goals exact avoids_take.bind fun _ => avoids_pure _

theorem avoids_head (major : UInt8) : Avoids (head major) .clockRollback := by
  rw [head]
  refine avoids_byte.bind fun first => .guard nofun ?_
  exact avoids_argument.bind fun _ => .guard nofun (avoids_pure _)

theorem avoids_uintExact (expected : UInt64) : Avoids (uintExact expected) .clockRollback :=
  (avoids_head 0).bind fun _ => (avoids_pure ()).ite (avoids_throw nofun)

theorem avoids_bstr : Avoids bstr .clockRollback :=
  (avoids_head 2).bind fun _ => avoids_take

theorem avoids_array (n : Nat) (error : TunnelAuthError) (h : error ≠ .clockRollback) :
    Avoids (array n error) .clockRollback :=
  avoids_bstr.bind fun _ => (avoids_pure _).ite (avoids_throw h)

end Reader

theorem TunnelAuthorization.new_ne_clockRollback (prefixBytes : Ipv6Addr) (prefixLen : UInt8)
    (routeHash : RouteHash) (pathSeq expiry : UInt64) (egressIid : Iid) :
    new prefixBytes prefixLen routeHash pathSeq expiry egressIid ≠ .error .clockRollback := by
  rw [new]
  split
  · exact nofun
  · split <;> exact nofun

open Reader in
theorem avoids_readPayload : Avoids readPayload .clockRollback := by
  rw [readPayload]
  refine (avoids_exact _).bind fun _ => (avoids_uintExact _).bind fun _ => ?_
  refine avoids_bstr.bind fun prefixBytes => (avoids_uintExact _).bind fun _ => ?_
  refine (avoids_head 0).bind fun prefixLen => .guard nofun ?_
  refine (avoids_uintExact _).bind fun _ => (avoids_array 16 .invalidRoute nofun).bind fun _ => ?_
  refine (avoids_uintExact _).bind fun _ => (avoids_head 0).bind fun _ => ?_
  refine (avoids_uintExact _).bind fun _ => (avoids_head 0).bind fun _ => ?_
  refine (avoids_uintExact _).bind fun _ => (avoids_array 8 .wrongEgress nofun).bind fun _ => ?_
  refine Avoids.bind (fun _ => nofun) fun _ => .guard nofun (avoids_lift ?_)
  exact TunnelAuthorization.new_ne_clockRollback _ _ _ _ _ _

open Reader in
theorem avoids_readSign1 : Avoids readSign1 .clockRollback := by
  rw [readSign1]
  refine (avoids_exact _).bind fun _ => avoids_bstr.bind fun header => .guard ?_ ?_
  · split <;> exact nofun
  refine (avoids_exact _).bind fun _ => (avoids_exact _).bind fun _ => ?_
  refine (avoids_array 8 .malformedCbor nofun).bind fun _ => avoids_bstr.bind fun _ => ?_
  refine (avoids_array 48 .malformedCbor nofun).bind fun _ => ?_
  exact Avoids.bind (fun _ => nofun) fun _ => .guard nofun (avoids_pure _)

theorem decodeAndHashSign1_ne_clockRollback :
    decodeAndHashSign1 crypto wire ≠ .error .clockRollback := by
  rw [decodeAndHashSign1]
  split
  · exact nofun
  refine bind_ne_error (avoids_readSign1.run' wire) fun envelope => ?_
  refine bind_ne_error (avoids_readPayload.run' envelope.2.1) fun claim => ?_
  refine bind_ne_error ?_ fun _ => nofun
  rw [signatureDigest]
  split <;> exact nofun

theorem validateRoute_eq_ok (h : validateRoute hops = .ok u) :
    1 ≤ hops.length ∧ hops.length ≤ maxRouteHops ∧ hops.Nodup := by
  rw [validateRoute] at h
  split at h
  · cases h
  · rename_i hlength
    rw [not_or, Nat.not_lt] at hlength
    split at h
    · cases h
    · rename_i hnodup
      exact ⟨List.length_pos_iff.mpr hlength.1, hlength.2, not_not.mp hnodup⟩

theorem validateRoute_ne_clockRollback : validateRoute hops ≠ .error .clockRollback := by
  rw [validateRoute]
  split
  · exact nofun
  · split <;> exact nofun

namespace TunnelAuthorizationTable

variable {N : Nat} {table : TunnelAuthorizationTable N} {crypto : Crypto}

def observed (table : TunnelAuthorizationTable N) (now : UInt64) : TunnelAuthorizationTable N :=
  { table with lastNow := some now }

section

variable (table : TunnelAuthorizationTable N)

theorem ensures_checkTime : Ensures (checkTime now) table fun result table' =>
      match result with
      | .ok _ => table' = table.observed now
      | .error e => e = .clockRollback ∧ table' = table.clearEntries := by
  rw [checkTime, ensures_bind, ensures_get]
  dsimp only
  split
  · rw [ensures_bind, ensures_modify]
    exact ensures_throw.mpr ⟨rfl, rfl⟩
  · exact ensures_modify.mpr rfl

theorem ensures_revoke (key : TunnelKey) (pathSeq : UInt64) :
    Ensures (revoke key pathSeq) table fun result table' =>
      match result with
      | .ok _ => table' = table.revoked key pathSeq
      | .error _ => table' = table ∧ (N = 0 ∨ table.floor key = none) := by
  rw [revoke, ensures_bind, ensures_check]
  refine ⟨fun hzero => ⟨rfl, .inl hzero⟩, fun _ => ?_⟩
  rw [ensures_bind, ensures_get]
  dsimp only
  rw [ensures_bind, ensures_check]
  refine ⟨fun hfull => ⟨rfl, .inr hfull.1⟩, fun _ => ?_⟩
  rw [ensures_modify]

/-- What a request leaves behind that is refused with an error. -/
inductive Refusal (table : TunnelAuthorizationTable N) (now : UInt64) :
    TunnelAuthError → TunnelAuthorizationTable N → Prop
  | refused (h : e ≠ .clockRollback) : Refusal table now e table
  | late (h : e ≠ .clockRollback) : Refusal table now e (table.observed now)
  | rolledBack : Refusal table now .clockRollback table.clearEntries
  | expired (index : Nat) : Refusal table now .expired ((table.observed now).setEntry index none)

def PostEffect (table : TunnelAuthorizationTable N) (now : UInt64) :
    Except TunnelAuthError TunnelAuthorization → TunnelAuthorizationTable N → Prop
  | .error e, table' => Refusal table now e table'
  | .ok claim, table' => (∀ floor, table.floor claim.key = some floor → floor.pathSeq < claim.pathSeq) ∧
    table' = (table.observed now).accepted claim now

theorem ensures_checkFloor :
    Ensures (checkFloor claim) table fun result table' => table' = table ∧
      match result with
      | .ok _ => ∀ floor, table.floor claim.key = some floor → floor.pathSeq < claim.pathSeq
      | .error e => e ≠ .clockRollback := by
  rw [checkFloor, ensures_bind, ensures_get]
  dsimp only
  cases hfloor : table.floor claim.key with
  | none =>
    rw [ensures_check]
    exact ⟨fun _ => ⟨rfl, nofun⟩, fun _ => ⟨rfl, nofun⟩⟩
  | some floor =>
    rw [ensures_check]
    refine ⟨fun _ => ⟨rfl, ?_⟩, fun hseq => ⟨rfl, ?_⟩⟩
    · change (if floor.revoked then TunnelAuthError.revoked else .replay) ≠ _
      split <;> exact nofun
    · rintro _ ⟨⟩
      exact UInt64.not_le.mp hseq

theorem ensures_acceptPost (crypto : Crypto) (wire : Bytes)
    (authenticated : AuthenticatedRoot) (ownIid : Iid) (now : UInt64) :
    Ensures (acceptPost crypto wire authenticated ownIid now) table (PostEffect table now) := by
  rw [acceptPost]
  refine .check_bind (.refused nofun) fun _ => ?_
  rw [ensures_bind, ensures_get]
  refine .check_bind (.refused nofun) fun _ => .check_bind (.refused nofun) fun _ => ?_
  refine .check_bind (.refused nofun) fun _ => ?_
  refine .ofExcept_bind (fun e he => .refused ?_) fun decoded _ => ?_
  · rintro rfl
    exact decodeAndHashSign1_ne_clockRollback he
  refine .check_bind (.refused nofun) fun _ => .check_bind (.refused nofun) fun _ => ?_
  refine .check_bind (.refused nofun) fun _ => ?_
  refine (ensures_checkTime table).bind ?_ ?_
  · rintro _ _ ⟨rfl, rfl⟩
    exact .rolledBack
  · rintro _ _ rfl
    refine .check_bind (.late nofun) fun _ => ?_
    refine (ensures_checkFloor _).bind ?_ ?_
    · rintro e _ ⟨rfl, he⟩
      exact .late he
    · rintro _ _ ⟨rfl, hfloor⟩
      rw [ensures_bind, ensures_modify]
      exact ensures_pure.mpr ⟨hfloor, rfl⟩

def Selectable (table : TunnelAuthorizationTable N) (routeHash : RouteHash) (source : Ipv6Addr)
    (entry : Entry) (index : Nat) : Prop :=
  table.entries.toList[index]? = some (some entry) ∧ entry.claim.routeHash = routeHash ∧
    entry.claim.matchesSource source = true

theorem selectable_of_select {routeHash : RouteHash} :
    ∀ entry index, table.select routeHash source = some (entry, index) →
      table.Selectable routeHash source entry index := by
  rw [select]
  refine List.foldlRecOn (motive := fun selected => ∀ entry index,
    selected = some (entry, index) → table.Selectable routeHash source entry index) _ _ nofun ?_
  rintro selected hselected ⟨slot, i⟩ hslot
  cases slot with
  | none => exact hselected
  | some candidate =>
    have hcandidate := List.mem_zipIdx_iff_getElem?.mp hslot
    dsimp only
    split
    · rename_i hmatches
      have htaken : ∀ entry index, some (candidate, i) = some (entry, index) →
          table.Selectable routeHash source entry index := by
        rintro _ _ ⟨⟩
        exact ⟨hcandidate, hmatches⟩
      cases selected with
      | none => exact htaken
      | some =>
        dsimp only
        split
        · exact htaken
        · exact hselected
    · exact hselected

structure Permits (crypto : Crypto) (request : DecapsulationRequest) (now : UInt64)
    (claim : TunnelAuthorization) : Prop where
  live : now < claim.expiry
  route : routeHash crypto request.route = .ok claim.routeHash
  source : claim.matchesSource request.innerSource = true
  length : 1 ≤ request.route.length ∧ request.route.length ≤ maxRouteHops
  distinct : request.route.Nodup
  egress : request.route.getLast? = some request.egressAddr
  sourceScope : ¬(unsafeAddr request.innerSource ∨ isLinkLocal request.innerSource)
  destinationScope : ¬(unsafeAddr request.innerDestination ∨ isLinkLocal request.innerDestination ∨
    request.innerDestination.toList.getD 0 0 = 0x02)

def RequestEffect (crypto : Crypto) (table : TunnelAuthorizationTable N)
    (request : DecapsulationRequest) (now : UInt64) :
    Except TunnelAuthError Unit → TunnelAuthorizationTable N → Prop
  | .error e, table' => Refusal table now e table'
  | .ok _, table' => ∃ entry index, table.entries.toList[index]? = some (some entry) ∧
    Permits crypto request now entry.claim ∧ table' = (table.observed now).touched entry index now

theorem ensures_authorizeDecapsulation (crypto : Crypto)
    (request : DecapsulationRequest) (now : UInt64) :
    Ensures (authorizeDecapsulation crypto request now) table
      (RequestEffect crypto table request now) := by
  rw [authorizeDecapsulation]
  refine .check_bind (.refused nofun) fun _ => .check_bind (.refused nofun) fun _ => ?_
  refine .check_bind (.refused nofun) fun _ => .check_bind (.refused nofun) fun hegress => ?_
  refine .ofExcept_bind (fun e he => .refused ?_) fun u hvalid => ?_
  · rintro rfl
    exact validateRoute_ne_clockRollback he
  refine .ofExcept_bind (fun e he => ?_) fun requestRouteHash hhash => ?_
  · rw [routeHash, hvalid] at he
    cases he
  refine (ensures_checkTime table).bind ?_ ?_
  · rintro _ _ ⟨rfl, rfl⟩
    exact .rolledBack
  rintro _ _ rfl
  rw [ensures_bind, ensures_get]
  dsimp only
  cases hselect : (table.observed now).select requestRouteHash request.innerSource with
  | none => exact ensures_throw.mpr (.late nofun)
  | some selected =>
    obtain ⟨entry, index⟩ := selected
    obtain ⟨hslot, hroute, hsource⟩ := selectable_of_select _ entry index hselect
    dsimp only
    split
    · rw [ensures_bind, ensures_modify]
      exact ensures_throw.mpr (.expired index)
    · rename_i hlive
      refine .check_bind (.late nofun) fun hsourceScope => ?_
      refine .check_bind (.late nofun) fun hdestinationScope => ?_
      obtain ⟨hpos, hle, hnodup⟩ := validateRoute_eq_ok hvalid
      refine ensures_modify.mpr ⟨entry, index, hslot, ?_, rfl⟩
      exact {
        live := UInt64.not_le.mp hlive
        route := hroute ▸ hhash
        source := hsource
        length := ⟨hpos, hle⟩
        distinct := hnodup
        egress := not_not.mp hegress
        sourceScope := hsourceScope
        destinationScope := hdestinationScope }

end

end TunnelAuthorizationTable

end Lichen.Gateway
