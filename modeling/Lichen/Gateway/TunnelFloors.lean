import Lichen.Gateway.TunnelSteps
import Mathlib.Logic.Function.Basic

namespace Lichen.Gateway

open Lichen.Lib Lichen.Core

namespace TunnelAuthorizationTable

variable {N : Nat} {table : TunnelAuthorizationTable N} {key : TunnelKey} {p q : UInt64}

def floorSeq (table : TunnelAuthorizationTable N) (key : TunnelKey) : Option UInt64 :=
  (table.floor key).map ReplayFloor.pathSeq

section

variable (table : TunnelAuthorizationTable N)

section

variable (floor : ReplayFloor)

theorem floor_setFloor_self :
    (table.setFloor floor).floor floor.key = some floor :=
  find?_upsert_self (p := fun other : ReplayFloor => other.key = floor.key) (decide_eq_true rfl) _

theorem floor_setFloor_of_ne
    (h : key ≠ floor.key) : (table.setFloor floor).floor key = table.floor key := by
  refine find?_upsert_of_ne (p := fun other : ReplayFloor => other.key = floor.key) ?_ ?_ _
  · exact fun hkey => h (of_decide_eq_true hkey).symm
  · exact fun other hother hkey =>
      h ((of_decide_eq_true hkey).symm.trans (of_decide_eq_true hother))

theorem floorSeq_setFloor : (table.setFloor floor).floorSeq =
      Function.update table.floorSeq floor.key (some floor.pathSeq) := by
  funext key
  by_cases h : key = floor.key
  · subst h
    rw [Function.update_self, floorSeq, floor_setFloor_self]
    rfl
  · rw [Function.update_of_ne h, floorSeq, floor_setFloor_of_ne table floor h]
    rfl

end

theorem floorSeq_touched : (table.touched entry index now).floorSeq = table.floorSeq := by
  funext key
  exact map_find?_modifyFirst (q := fun floor : ReplayFloor => floor.key = key)
    (f := fun floor => { floor with used := table.tick.clock }) (g := ReplayFloor.pathSeq)
    (fun _ => rfl) (fun _ => rfl) table.replayFloors

theorem floorSeq_accepted :
    (table.accepted claim now).floorSeq =
      Function.update table.floorSeq claim.key (some claim.pathSeq) :=
  floorSeq_setFloor table.tick _

theorem floorSeq_revoked : (table.revoked key p).floorSeq =
      Function.update table.floorSeq key (some ((table.floorSeq key).elim p (max · p))) := by
  rw [revoked, floorSeq_setFloor, floorSeq]
  cases table.floor key <;> rfl

end

theorem lt_of_floorSeq {claim : TunnelAuthorization}
    (h : ∀ floor, table.floor claim.key = some floor → floor.pathSeq < claim.pathSeq) :
    ∀ q, table.floorSeq claim.key = some q → q < claim.pathSeq := by
  intro q hq
  obtain ⟨floor, hfloor, rfl⟩ := Option.map_eq_some_iff.mp hq
  exact h floor hfloor

theorem Refusal.floors (h : Refusal table now e table') :
    table'.rootIid = table.rootIid ∧ table'.floorSeq = table.floorSeq := by
  cases h <;> exact ⟨rfl, rfl⟩

end TunnelAuthorizationTable

inductive TunnelCall where
  | setRoot (rootIid : Iid)
  | acceptPost (wire : Bytes) (authenticated : AuthenticatedRoot) (ownIid : Iid) (now : UInt64)
  | revoke (key : TunnelKey) (pathSeq : UInt64)
  | authorizeDecapsulation (request : DecapsulationRequest) (now : UInt64)

inductive TunnelAnswer where
  | rootSet
  | posted (result : Except TunnelAuthError TunnelAuthorization)
  | revoked (result : Except TunnelAuthError Unit)
  | authorized (result : Except TunnelAuthError Unit)
  deriving DecidableEq

def TunnelAnswer.granted : TunnelAnswer → Option (TunnelKey × UInt64)
  | posted (.ok claim) => some (claim.key, claim.pathSeq)
  | _ => none

def TunnelAnswer.settled : TunnelCall → TunnelAnswer → Option (TunnelKey × UInt64)
  | .revoke key pathSeq, revoked (.ok _) => some (key, pathSeq)
  | _, answer => answer.granted

def TunnelCall.KeepsRoot (root : Iid) : TunnelCall → Prop
  | setRoot rootIid => rootIid = root
  | _ => True

namespace TunnelAuthorizationTable

variable {N : Nat} {crypto : Crypto} {table : TunnelAuthorizationTable N} {key : TunnelKey}
  {root : Iid} {p q : UInt64} {call : TunnelCall}

def answer (crypto : Crypto) (table : TunnelAuthorizationTable N) :
    TunnelCall → TunnelAnswer × TunnelAuthorizationTable N
  | .setRoot rootIid => (.rootSet, table.setRoot rootIid)
  | .acceptPost wire authenticated ownIid now =>
    let done := execute (acceptPost crypto wire authenticated ownIid now) table
    (.posted done.1, done.2)
  | .revoke key pathSeq =>
    let done := execute (revoke key pathSeq) table
    (.revoked done.1, done.2)
  | .authorizeDecapsulation request now =>
    let done := execute (authorizeDecapsulation crypto request now) table
    (.authorized done.1, done.2)

def step (crypto : Crypto) (table : TunnelAuthorizationTable N) (call : TunnelCall) :
    TunnelAuthorizationTable N :=
  (table.answer crypto call).2

def raised (floors : TunnelKey → Option UInt64) (key : TunnelKey) (p : UInt64) :
    TunnelKey → Option UInt64 :=
  Function.update floors key (some ((floors key).elim p (max · p)))

theorem raised_of_lt
    (h : ∀ q, floors key = some q → q < p) :
    raised floors key p = Function.update floors key (some p) := by
  rw [raised]
  cases hfloor : floors key with
  | none => rfl
  | some q =>
    have hmax : max q p = p := if_pos (UInt64.le_of_lt (h q hfloor))
    rw [Option.elim_some, hmax]

/-- What a call answers and leaves behind. -/
inductive CallEffect (crypto : Crypto) (table : TunnelAuthorizationTable N) :
    TunnelCall → TunnelAnswer → TunnelAuthorizationTable N → Prop
  | setRoot : CallEffect crypto table (.setRoot iid) .rootSet (table.setRoot iid)
  | postRefused (h : Refusal table now e table') :
    CallEffect crypto table (.acceptPost wire authenticated ownIid now) (.posted (.error e)) table'
  | granted (h : ∀ floor, table.floor claim.key = some floor → floor.pathSeq < claim.pathSeq) :
    CallEffect crypto table (.acceptPost wire authenticated ownIid now) (.posted (.ok claim))
      ((table.observed now).accepted claim now)
  | revokeRefused (h : N = 0 ∨ table.floor k = none) :
    CallEffect crypto table (.revoke k pathSeq) (.revoked (.error e)) table
  | revoked :
    CallEffect crypto table (.revoke k pathSeq) (.revoked (.ok ())) (table.revoked k pathSeq)
  | requestRefused (h : Refusal table now e table') :
    CallEffect crypto table (.authorizeDecapsulation request now) (.authorized (.error e)) table'
  | authorized (hslot : table.entries.toList[index]? = some (some entry))
    (hpermits : Permits crypto request now entry.claim) :
    CallEffect crypto table (.authorizeDecapsulation request now) (.authorized (.ok ()))
      ((table.observed now).touched entry index now)

theorem callEffect (crypto : Crypto) (table : TunnelAuthorizationTable N) (call : TunnelCall) :
    CallEffect crypto table call (table.answer crypto call).1 (table.step crypto call) := by
  rw [step]
  cases call with
  | setRoot => exact .setRoot
  | acceptPost wire authenticated ownIid now =>
    have hpost := ensures_iff_execute.mp
      (ensures_acceptPost table crypto wire authenticated ownIid now)
    rw [answer]
    revert hpost
    rcases execute (acceptPost crypto wire authenticated ownIid now) table with ⟨_ | claim, table'⟩
    · exact .postRefused
    · rintro ⟨hfloor, rfl⟩
      exact .granted hfloor
  | revoke key pathSeq =>
    have hrevoke := ensures_iff_execute.mp (ensures_revoke table key pathSeq)
    rw [answer]
    revert hrevoke
    rcases execute (revoke key pathSeq) table with ⟨_ | _, table'⟩
    · rintro ⟨rfl, hnone⟩
      exact .revokeRefused hnone
    · rintro rfl
      exact .revoked
  | authorizeDecapsulation request now =>
    have hrequest := ensures_iff_execute.mp
      (ensures_authorizeDecapsulation table crypto request now)
    rw [answer]
    revert hrequest
    rcases execute (authorizeDecapsulation crypto request now) table with ⟨_ | _, table'⟩
    · exact .requestRefused
    · rintro ⟨entry, index, hslot, hpermits, rfl⟩
      exact .authorized hslot hpermits

theorem setRoot_same (h : table.rootIid = some root) : table.setRoot root = table :=
  if_neg (not_not_intro h)

theorem CallEffect.floors (h : CallEffect crypto table call reply table')
    (hroot : table.rootIid = some root) (hkeeps : call.KeepsRoot root) :
    table'.rootIid = some root ∧ table'.floorSeq = (reply.settled call).elim table.floorSeq
      fun settled => raised table.floorSeq settled.1 settled.2 := by
  cases h with
  | setRoot =>
    cases hkeeps
    rw [setRoot_same hroot]
    exact ⟨hroot, rfl⟩
  | postRefused h | requestRefused h => exact ⟨h.floors.1.trans hroot, h.floors.2⟩
  | granted h =>
    refine ⟨hroot, (floorSeq_accepted (table.observed _)).trans ?_⟩
    exact (raised_of_lt (lt_of_floorSeq h)).symm
  | revokeRefused => exact ⟨hroot, rfl⟩
  | revoked => exact ⟨hroot, floorSeq_revoked table⟩
  | authorized => exact ⟨hroot, floorSeq_touched (table.observed _)⟩

theorem CallEffect.lt_of_granted (h : CallEffect crypto table call reply table')
    (hgranted : reply.granted = some (key, q)) (hfloor : table.floorSeq key = some p) : p < q := by
  cases h with
  | granted h =>
    cases hgranted
    exact lt_of_floorSeq h p hfloor
  | setRoot | postRefused | revokeRefused | revoked | requestRefused | authorized => cases hgranted

theorem le_max_pair (a b : UInt64) : a ≤ max a b ∧ b ≤ max a b := by
  simp only [Max.max]
  split_ifs with h
  · exact ⟨h, UInt64.le_refl b⟩
  · exact ⟨UInt64.le_refl a, UInt64.le_of_lt (UInt64.not_le.mp h)⟩

section

variable (floors : TunnelKey → Option UInt64)

def SettledIn (key : TunnelKey) (p : UInt64) : Prop :=
  ∃ q, floors key = some q ∧ p ≤ q

theorem settledIn_raised (key : TunnelKey) (p : UInt64) :
    SettledIn (raised floors key p) key p := by
  refine ⟨_, Function.update_self .., ?_⟩
  cases floors key with
  | none => exact UInt64.le_refl p
  | some q => exact (le_max_pair q p).2

end

theorem SettledIn.raised (h : SettledIn floors key p) (other : TunnelKey) (r : UInt64) :
    SettledIn (TunnelAuthorizationTable.raised floors other r) key p := by
  obtain ⟨q, hq, hle⟩ := h
  by_cases hkey : key = other
  · subst hkey
    refine ⟨_, Function.update_self .., ?_⟩
    rw [hq]
    exact UInt64.le_trans hle (le_max_pair q r).1
  · exact ⟨q, (Function.update_of_ne hkey ..).trans hq, hle⟩

theorem SettledIn.step (crypto : Crypto) (h : SettledIn table.floorSeq key p)
    (hroot : table.rootIid = some root) (hkeeps : call.KeepsRoot root) :
    SettledIn (table.step crypto call).floorSeq key p := by
  rw [((callEffect crypto table call).floors hroot hkeeps).2]
  cases (table.answer crypto call).1.settled call with
  | none => exact h
  | some settled => exact h.raised settled.1 settled.2

theorem settledIn_step (hroot : table.rootIid = some root) (hkeeps : call.KeepsRoot root)
    (h : (table.answer crypto call).1.settled call = some (key, p)) :
    SettledIn (table.step crypto call).floorSeq key p := by
  rw [((callEffect crypto table call).floors hroot hkeeps).2, h]
  exact settledIn_raised table.floorSeq key p

theorem keepsRoot_of_settled (h : (table.answer crypto call).1.settled call = some settled) :
    call.KeepsRoot root := by
  cases call with
  | setRoot => cases h
  | acceptPost | revoke | authorizeDecapsulation => trivial

def sampleCrypto : Crypto where
  sha256 message := toArray 32 (List.replicate 16 1 ++ [byteSum message])
  sha512 _ := List.Vector.replicate 64 0
  verify := sumVerify

def sampleRoot : Iid := List.Vector.replicate 8 0

def sampleKey : TunnelKey := ⟨toArray 16 [0x20, 0x01], 16, List.Vector.replicate 16 1⟩

def samplePost (pathSeq : UInt8) : TunnelCall :=
  let payload : Bytes := [0xA6, 0x01, 0x42, 0x20, 0x01, 0x02, 0x10, 0x03, 0x50] ++
    List.replicate 16 1 ++ [0x04, pathSeq, 0x05, 0x19, 0x27, 0x10, 0x06, 0x48] ++
    List.replicate 8 9
  let signature : Bytes := match signatureDigest sampleCrypto payload with
    | .ok digest => (sumSignature (List.Vector.replicate 32 0) digest.toList).toList
    | .error _ => []
  let wire : Bytes := [0x84, 0x47] ++ protectedHeader ++ [0xA1, 0x04, 0x48] ++ sampleRoot.toList ++
    [0x58, UInt8.ofNat payload.length] ++ payload ++ [0x58, 0x30] ++ signature
  .acceptPost wire ⟨sampleRoot, List.Vector.replicate 32 0, true⟩ (List.Vector.replicate 8 9) 100

theorem lt_of_granted_later (crypto : Crypto) (before between : List TunnelCall)
    (call later : TunnelCall) (root : Iid) (key : TunnelKey) (p q : UInt64)
    (hroot : (run (step crypto) (default : TunnelAuthorizationTable N) before).rootIid = some root)
    (hsettled : ((run (step crypto) (default : TunnelAuthorizationTable N) before).answer crypto
      call).1.settled call = some (key, p))
    (hkeeps : ∀ c ∈ between, c.KeepsRoot root)
    (hgranted : ((run (step crypto) (default : TunnelAuthorizationTable N)
      (before ++ call :: between)).answer crypto later).1.granted = some (key, q)) : p < q := by
  rw [run_append, run_cons] at hgranted
  generalize run (step crypto) (default : TunnelAuthorizationTable N) before = table at *
  have hcall : call.KeepsRoot root := keepsRoot_of_settled hsettled
  have hrun := run_invariant_of_steps (I := fun table : TunnelAuthorizationTable N =>
      table.rootIid = some root ∧ SettledIn table.floorSeq key p)
    (fun table c h hc => ⟨((callEffect crypto table c).floors h.1 hc).1, h.2.step crypto h.1 hc⟩)
    ⟨((callEffect crypto table call).floors hroot hcall).1, settledIn_step hroot hcall hsettled⟩
    between (steps_of_forall _ hkeeps)
  obtain ⟨_, hfloor, hle⟩ := hrun.2
  exact UInt64.lt_of_le_of_lt hle ((callEffect crypto _ later).lt_of_granted hgranted hfloor)

theorem lt_of_granted_later_of_revoked :
    ((run (step sampleCrypto) (default : TunnelAuthorizationTable 1)
      [.setRoot sampleRoot, samplePost 5, .revoke sampleKey 7, .setRoot sampleRoot]).answer
        sampleCrypto (samplePost 8)).1.granted = some (sampleKey, 8) ∧ (7 : UInt64) < 8 := by
  refine ⟨by decide +kernel, ?_⟩
  refine lt_of_granted_later (N := 1) sampleCrypto [.setRoot sampleRoot, samplePost 5]
    [.setRoot sampleRoot] (.revoke sampleKey 7) (samplePost 8) sampleRoot sampleKey 7 8
    (by decide +kernel) (by decide +kernel) ?_ (by decide +kernel)
  intro c hc
  rw [List.mem_singleton.mp hc]
  rfl

/-- The same grant is accepted twice when the root changes and changes back. -/
theorem granted_again_after_root_change :
    ¬∀ (crypto : Crypto) (before between : List TunnelCall) (call later : TunnelCall) (root : Iid)
      (key : TunnelKey) (p q : UInt64),
      (run (step crypto) (default : TunnelAuthorizationTable 1) before).rootIid = some root →
      ((run (step crypto) (default : TunnelAuthorizationTable 1) before).answer crypto
        call).1.settled call = some (key, p) →
      (run (step crypto) (default : TunnelAuthorizationTable 1)
        (before ++ call :: between)).rootIid = some root →
      ((run (step crypto) (default : TunnelAuthorizationTable 1)
        (before ++ call :: between)).answer crypto later).1.granted = some (key, q) → p < q := by
  intro h
  have hlt := h sampleCrypto [.setRoot sampleRoot]
    [.setRoot (List.Vector.replicate 8 4), .setRoot sampleRoot] (samplePost 7) (samplePost 7)
    sampleRoot sampleKey 7 7 (by decide +kernel) (by decide +kernel) (by decide +kernel)
    (by decide +kernel)
  exact absurd hlt (by decide)

end TunnelAuthorizationTable

end Lichen.Gateway
