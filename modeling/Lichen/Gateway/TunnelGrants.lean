import Lichen.Gateway.TunnelFloors
import Lichen.Lib.Slots
import Mathlib.Data.FinEnum

namespace Lichen.Gateway

open Lichen.Lib Lichen.Core List

def TunnelAuthorization.Covers (claim : TunnelAuthorization) (source : Ipv6Addr) : Prop :=
  ∀ i < claim.prefixLen.toNat, bitAt claim.prefixBytes.toList i = bitAt source.toList i

theorem testBit_eq_of_xor_and {a b mask : UInt8} (h : (a ^^^ b) &&& mask = 0)
    (hi : mask.toNat.testBit i = true) : a.toNat.testBit i = b.toNat.testBit i := by
  have hbit : ((a ^^^ b) &&& mask).toNat.testBit i = false := by
    rw [h]
    exact Nat.zero_testBit i
  rw [UInt8.toNat_and, UInt8.toNat_xor, Nat.testBit_and, Nat.testBit_xor, hi, Bool.and_true] at hbit
  exact bne_eq_false_iff_eq.mp hbit

theorem testBit_mask : ∀ rem : UInt8, rem < 8 → ∀ i < rem.toNat,
    ((0xFF : UInt8) <<< (8 - rem)).toNat.testBit (7 - i) = true := by
  decide +kernel

theorem TunnelAuthorization.covers_of_matchesSource {claim : TunnelAuthorization}
    (h : claim.matchesSource source = true) : claim.Covers source := by
  intro i hi
  have hdiv : (claim.prefixLen / 8).toNat = claim.prefixLen.toNat / 8 := rfl
  have hmod : (claim.prefixLen % 8).toNat = claim.prefixLen.toNat % 8 := rfl
  rw [matchesSource, hdiv] at h
  split at h
  · cases h
  rename_i htake
  rw [bitAt, bitAt]
  by_cases hwhole : i / 8 < claim.prefixLen.toNat / 8
  · have hbyte := congrArg (·[i / 8]?) (not_not.mp htake)
    simp only [List.getElem?_take_of_lt hwhole] at hbyte
    rw [getD_eq_getElem?_getD, getD_eq_getElem?_getD, hbyte]
  · have hlast : i / 8 = claim.prefixLen.toNat / 8 := by omega
    have hrem : (claim.prefixLen % 8).toNat ≠ 0 := by omega
    obtain hzero | hxor := of_decide_eq_true h
    · exact absurd (congrArg UInt8.toNat hzero) hrem
    · rw [hlast]
      refine testBit_eq_of_xor_and hxor (testBit_mask _ ?_ _ ?_)
      · rw [UInt8.lt_iff_toNat_lt, hmod]
        exact Nat.mod_lt _ (by decide)
      · omega

namespace TunnelAuthorizationTable

variable {N : Nat} {table table' : TunnelAuthorizationTable N} {crypto : Crypto}
  {claim : TunnelAuthorization}

section

variable (table : TunnelAuthorizationTable N)

def clear : TunnelAuthorizationTable N :=
  { table with
    entries := List.Vector.replicate N none, replayFloors := [], clock := 0, lastNow := none }

def claims : List (Option TunnelAuthorization) :=
  table.entries.toList.map (Option.map Entry.claim)

end

theorem claims_replicate (h : table.entries = List.Vector.replicate N none) :
    table.claims = List.replicate N none := by
  rw [claims, h]
  exact map_replicate

section

variable (table : TunnelAuthorizationTable N)

theorem claims_setEntry (index : Nat) (entry : Option Entry) :
    (table.setEntry index entry).claims = table.claims.set index (entry.map Entry.claim) :=
  map_set

theorem claims_accepted (claim : TunnelAuthorization)
    (now : UInt64) :
    (table.accepted claim now).claims = table.claims.set (table.slotFor claim) (some claim) :=
  claims_setEntry _ _ _

end

theorem claims_touched (h : table.entries.toList[index]? = some (some entry)) (now : UInt64) :
    ((table.observed now).touched entry index now).claims = table.claims := by
  have hset : ((table.observed now).touched entry index now).claims =
      table.claims.set index (some entry.claim) := claims_setEntry _ _ _
  have hclaim : table.claims[index]? = some (some entry.claim) := by
    rw [claims, List.getElem?_map, h]
    rfl
  obtain ⟨hlt, heq⟩ := List.getElem?_eq_some_iff.mp hclaim
  rw [hset, ← heq, set_getElem_self]

theorem claims_revoked : (table.revoked key pathSeq).claims =
      table.claims.map fun slot => if slot.any (·.key = key) then none else slot := by
  change (table.entries.map _).toList.map _ = _
  rw [List.Vector.toList_map, claims, map_map, map_map]
  congr 1
  funext slot
  cases slot with
  | none => rfl
  | some =>
    simp only [Function.comp_apply, Option.map_some, Option.any_some]
    split <;> rfl

theorem mem_claims_revoked {i : Nat}
    (h : (table.revoked key pathSeq).claims[i]? = some (some claim)) :
    table.claims[i]? = some (some claim) ∧ claim.key ≠ key := by
  rw [claims_revoked, List.getElem?_map, Option.map_eq_some_iff] at h
  obtain ⟨_, hslot, h⟩ := h
  split at h
  · cases h
  · rename_i hany
    subst h
    rw [Option.any_some, decide_eq_true_eq] at hany
    exact ⟨hslot, hany⟩

theorem eq_slotFor (h : DistinctKeys TunnelAuthorization.key table.claims) (i : Nat)
    (other : TunnelAuthorization) (hother : table.claims[i]? = some (some other))
    (hkey : other.key = claim.key) : i = table.slotFor claim := by
  have hfind : table.claims.findIdx? (·.any (·.key = claim.key)) =
      table.entries.toList.findIdx? (·.any (·.claim.key = claim.key)) := by
    rw [claims, List.findIdx?_map]
    congr 1
    funext slot
    cases slot <;> rfl
  rw [slotFor, ← hfind]
  cases hown : table.claims.findIdx? (·.any (·.key = claim.key)) with
  | some => exact h.eq_findIdx? hown hother hkey
  | none =>
    have hany := List.findIdx?_eq_none_iff.mp hown _ (mem_of_getElem? hother)
    rw [Option.any_some, decide_eq_false_iff_not] at hany
    exact absurd hkey hany

end TunnelAuthorizationTable

inductive TunnelEvent where
  | call (call : TunnelCall)
  | clear

def TunnelAnswer.rolledBack : TunnelAnswer → Bool
  | posted (.error e) => e = .clockRollback
  | authorized (.error e) => e = .clockRollback
  | _ => false

namespace TunnelAuthorizationTable

variable {N : Nat} {table : TunnelAuthorizationTable N} {crypto : Crypto}
  {claim : TunnelAuthorization}

section

variable (crypto : Crypto)

def stepEvent (table : TunnelAuthorizationTable N) :
    TunnelEvent → TunnelAuthorizationTable N
  | .call call => table.step crypto call
  | .clear => table.clear

/-- The event is no root change, clear or detected clock rollback, and it neither revokes nor
replaces the grant. -/
def Undisturbed (claim : TunnelAuthorization) (table : TunnelAuthorizationTable N) :
    TunnelEvent → Prop
  | .clear => False
  | .call (.setRoot rootIid) => table.rootIid = some rootIid
  | .call (.revoke key _) => key ≠ claim.key
  | .call call => (table.answer crypto call).1.rolledBack = false ∧
    ∀ granted, (table.answer crypto call).1.granted = some granted → granted.1 ≠ claim.key

/-- The claim was accepted by a post of the run, and nothing disturbed it since. -/
def Granted (start : TunnelAuthorizationTable N) (events : List TunnelEvent)
    (claim : TunnelAuthorization) : Prop :=
  ∃ before wire authenticated ownIid then' after,
    events = before ++ .call (.acceptPost wire authenticated ownIid then') :: after ∧
    ((run (stepEvent crypto) start before).answer crypto
      (.acceptPost wire authenticated ownIid then')).1 = .posted (.ok claim) ∧
    Steps (Undisturbed crypto claim) (stepEvent crypto)
      (run (stepEvent crypto) start
        (before ++ [.call (.acceptPost wire authenticated ownIid then')])) after

end

theorem Granted.concat (h : Granted crypto start events claim)
    (hevent : Undisturbed crypto claim (run (stepEvent crypto) start events) event) :
    Granted crypto start (events ++ [event]) claim := by
  obtain ⟨before, wire, authenticated, ownIid, then', after, rfl, hanswer, hsteps⟩ := h
  refine ⟨before, wire, authenticated, ownIid, then', after ++ [event], ?_, hanswer, ?_⟩
  · rw [append_assoc, cons_append]
  · refine hsteps.concat ?_
    rw [← run_append, append_assoc]
    exact hevent

structure Kept (table : TunnelAuthorizationTable N) : Prop where
  distinct : DistinctKeys TunnelAuthorization.key table.claims
  floored : ∀ claim, some claim ∈ table.claims → table.floorSeq claim.key ≠ none

theorem not_mem_of_empty (h : table.claims = List.replicate N none) : some claim ∉ table.claims := by
  intro hclaim
  rw [h] at hclaim
  cases eq_of_mem_replicate hclaim

theorem kept_of_empty (h : table.claims = List.replicate N none) : Kept table where
  distinct := h ▸ distinctKeys_replicate _ N
  floored := fun _ hclaim => absurd hclaim (not_mem_of_empty h)

theorem Kept.anti {table' : TunnelAuthorizationTable N} (h : Kept table)
    (hsub : ∀ (i : Nat) claim, table'.claims[i]? = some (some claim) →
      table.claims[i]? = some (some claim))
    (hfloor : ∀ key, table.floorSeq key ≠ none → table'.floorSeq key ≠ none) : Kept table' where
  distinct := h.distinct.anti hsub
  floored := by
    intro claim hclaim
    obtain ⟨i, hi⟩ := mem_iff_getElem?.mp hclaim
    exact hfloor _ (h.floored claim (mem_of_getElem? (hsub i claim hi)))

theorem Kept.accepted (h : Kept table) (claim : TunnelAuthorization) (now : UInt64) :
    Kept (table.accepted claim now) where
  distinct := by
    rw [claims_accepted]
    exact h.distinct.set (eq_slotFor h.distinct)
  floored := by
    intro other hother
    rw [claims_accepted] at hother
    rw [floorSeq_accepted]
    obtain hmem | heq := mem_or_eq_of_mem_set hother
    · by_cases hkey : other.key = claim.key
      · rw [hkey, Function.update_self]
        exact nofun
      · rw [Function.update_of_ne hkey]
        exact h.floored other hmem
    · cases heq
      rw [Function.update_self]
      exact nofun

theorem mem_claims_accepted (h : Kept table)
    (hother : some other ∈ (table.accepted claim now).claims) :
    other = claim ∨ some other ∈ table.claims ∧ claim.key ≠ other.key := by
  obtain ⟨i, hi⟩ := mem_iff_getElem?.mp hother
  rw [claims_accepted, List.getElem?_set] at hi
  split at hi
  · split at hi
    · cases hi
      exact .inl rfl
    · cases hi
  · rename_i hne
    refine .inr ⟨mem_of_getElem? hi, fun hkey => hne ?_⟩
    exact (eq_slotFor h.distinct i other hi hkey.symm).symm

theorem Refusal.sub (hrefusal : Refusal table now e table') (i : Nat) (claim : TunnelAuthorization)
    (hclaim : table'.claims[i]? = some (some claim)) :
    table.claims[i]? = some (some claim) ∧ e ≠ .clockRollback := by
  cases hrefusal with
  | refused hne | late hne => exact ⟨hclaim, hne⟩
  | rolledBack =>
    exact absurd (mem_of_getElem? hclaim) (not_mem_of_empty (claims_replicate rfl))
  | expired =>
    rw [claims_setEntry] at hclaim
    exact ⟨getElem?_set_none hclaim, nofun⟩

section

variable (h : Kept table)

include h

theorem Kept.observed (now : UInt64) : Kept (table.observed now) := ⟨h.distinct, h.floored⟩

theorem Kept.refused (hrefusal : Refusal table now e table') : Kept table' := by
  refine h.anti (fun i claim hclaim => (hrefusal.sub i claim hclaim).1) fun key hkey => ?_
  rw [hrefusal.floors.2]
  exact hkey

theorem Kept.revoked : Kept (table.revoked key pathSeq) := by
  refine h.anti (fun i claim hclaim => (mem_claims_revoked hclaim).1) fun other hother => ?_
  rw [floorSeq_revoked]
  by_cases hkey : other = key
  · rw [hkey, Function.update_self]
    exact nofun
  · rw [Function.update_of_ne hkey]
    exact hother

theorem CallEffect.kept (heffect : CallEffect crypto table call reply table') : Kept table' := by
  cases heffect with
  | setRoot =>
    rw [TunnelAuthorizationTable.setRoot]
    split
    · exact kept_of_empty (claims_replicate rfl)
    · exact h
  | postRefused hrefusal | requestRefused hrefusal => exact h.refused hrefusal
  | granted => exact (h.observed _).accepted _ _
  | revokeRefused => exact h
  | revoked => exact h.revoked
  | authorized hslot =>
    refine h.anti (fun _ _ hclaim => claims_touched hslot _ ▸ hclaim) fun key hkey => ?_
    rw [floorSeq_touched]
    exact hkey

theorem Kept.stepEvent : Kept (table.stepEvent crypto event) := by
  cases event with
  | clear => exact kept_of_empty (claims_replicate rfl)
  | call call => exact (callEffect crypto table call).kept h

/-- A claim of the table is one that the call granted, or was there and is undisturbed. -/
theorem CallEffect.mem_claims (heffect : CallEffect crypto table call reply table')
    (hanswer : (table.answer crypto call).1 = reply) (hclaim : some claim ∈ table'.claims) :
    (∃ wire authenticated ownIid now, call = .acceptPost wire authenticated ownIid now ∧
      reply = .posted (.ok claim)) ∨
    some claim ∈ table.claims ∧ Undisturbed crypto claim table (.call call) := by
  obtain ⟨i, hi⟩ := mem_iff_getElem?.mp hclaim
  cases heffect with
  | @setRoot iid =>
    by_cases hroot : table.rootIid = some iid
    · rw [setRoot_same hroot] at hclaim
      exact .inr ⟨hclaim, hroot⟩
    · have hcleared : (table.setRoot iid).claims = List.replicate N none :=
        claims_replicate (congrArg entries (if_pos hroot))
      exact absurd hclaim (not_mem_of_empty hcleared)
  | postRefused hrefusal | requestRefused hrefusal =>
    obtain ⟨hmem, hne⟩ := hrefusal.sub i claim hi
    refine .inr ⟨mem_of_getElem? hmem, ?_⟩
    change _ ∧ _
    rw [hanswer]
    exact ⟨decide_eq_false hne, nofun⟩
  | granted =>
    obtain rfl | ⟨hmem, hne⟩ := mem_claims_accepted (h.observed _) hclaim
    · exact .inl ⟨_, _, _, _, rfl, rfl⟩
    · refine .inr ⟨hmem, ?_⟩
      change _ ∧ _
      rw [hanswer]
      exact ⟨rfl, by rintro _ ⟨⟩; exact hne⟩
  | revokeRefused hnone =>
    refine .inr ⟨hclaim, ?_⟩
    rintro rfl
    obtain rfl | hfloor := hnone
    · exact absurd hclaim (not_mem_of_empty (claims_replicate (List.Vector.eq_nil _)))
    · exact h.floored claim hclaim (congrArg _ hfloor)
  | revoked =>
    obtain ⟨hmem, hne⟩ := mem_claims_revoked hi
    exact .inr ⟨mem_of_getElem? hmem, hne.symm⟩
  | authorized hslot =>
    rw [claims_touched hslot] at hclaim
    refine .inr ⟨hclaim, ?_⟩
    change _ ∧ _
    rw [hanswer]
    exact ⟨rfl, nofun⟩

theorem mem_claims_stepEvent (hclaim : some claim ∈ (table.stepEvent crypto event).claims) :
    (∃ wire authenticated ownIid now, event = .call (.acceptPost wire authenticated ownIid now) ∧
      (table.answer crypto (.acceptPost wire authenticated ownIid now)).1 = .posted (.ok claim)) ∨
    some claim ∈ table.claims ∧ Undisturbed crypto claim table event := by
  cases event with
  | clear => exact absurd hclaim (not_mem_of_empty (claims_replicate rfl))
  | call call =>
    refine ((callEffect crypto table call).mem_claims h rfl hclaim).imp_left ?_
    rintro ⟨wire, authenticated, ownIid, now, rfl, hanswer⟩
    exact ⟨wire, authenticated, ownIid, now, rfl, hanswer⟩

end

theorem kept_granted_run (crypto : Crypto) (events : List TunnelEvent) :
    Kept (run (stepEvent crypto) (default : TunnelAuthorizationTable N) events) ∧
      ∀ claim,
        some claim ∈ (run (stepEvent crypto) (default : TunnelAuthorizationTable N) events).claims →
        Granted crypto (default : TunnelAuthorizationTable N) events claim := by
  induction events using List.reverseRecOn with
  | nil =>
    have hempty : (default : TunnelAuthorizationTable N).claims = List.replicate N none :=
      claims_replicate rfl
    exact ⟨kept_of_empty hempty, fun claim hclaim => absurd hclaim (not_mem_of_empty hempty)⟩
  | append_singleton events event ih =>
    obtain ⟨hkept, hgranted⟩ := ih
    rw [run_append, run_cons, run_nil]
    refine ⟨hkept.stepEvent, fun claim hclaim => ?_⟩
    obtain ⟨wire, authenticated, ownIid, now, rfl, hanswer⟩ | ⟨hmem, hundisturbed⟩ :=
      mem_claims_stepEvent hkept hclaim
    · exact ⟨events, wire, authenticated, ownIid, now, [], rfl, hanswer, trivial⟩
    · exact (hgranted claim hmem).concat hundisturbed

theorem authorized_of_granted (crypto : Crypto) (events : List TunnelEvent) :
    let table := run (stepEvent crypto) (default : TunnelAuthorizationTable N) events
    (∀ request now,
      (table.answer crypto (.authorizeDecapsulation request now)).1 = .authorized (.ok ()) →
      ∃ claim, Granted crypto (default : TunnelAuthorizationTable N) events claim ∧
        claim.Covers request.innerSource ∧ Permits crypto request now claim) ∧
    ∀ (i j : Nat) entry entry', table.entries.toList[i]? = some (some entry) →
      table.entries.toList[j]? = some (some entry') → entry.claim.key = entry'.claim.key → i = j := by
  intro table
  obtain ⟨hkept, hgranted⟩ := kept_granted_run (N := N) crypto events
  have hclaims : ∀ (i : Nat) entry, table.entries.toList[i]? = some (some entry) →
      table.claims[i]? = some (some entry.claim) := by
    intro i entry hentry
    rw [claims, List.getElem?_map, hentry]
    rfl
  constructor
  · intro request now h
    have heffect := callEffect crypto table (.authorizeDecapsulation request now)
    rw [h] at heffect
    generalize table.step crypto (.authorizeDecapsulation request now) = table' at heffect
    cases heffect with
    | authorized hslot hpermits =>
      refine ⟨_, hgranted _ (mem_of_getElem? (hclaims _ _ hslot)), ?_, hpermits⟩
      exact TunnelAuthorization.covers_of_matchesSource hpermits.source
  · intro i j entry entry' hentry hentry' hkey
    exact hkept.distinct i j _ _ (hclaims i entry hentry) (hclaims j entry' hentry') hkey

theorem authorized_of_granted_of_sample :
    let events : List TunnelEvent := [.call (.setRoot sampleRoot), .call (samplePost 5),
      .call (.revoke ⟨toArray 16 [0x30], 8, List.Vector.replicate 16 1⟩ 9)]
    let request : DecapsulationRequest := ⟨.meshToExternal, toArray 16 [0x20, 0x01, 7],
      toArray 16 [0x30, 0x01], true, false, [toArray 16 [2, 1], toArray 16 [2, 2]], toArray 16 [2, 2]⟩
    ∃ claim, Granted sampleCrypto (default : TunnelAuthorizationTable 2) events claim ∧
      claim.Covers request.innerSource ∧ Permits sampleCrypto request 200 claim := by
  intro events request
  exact (authorized_of_granted (N := 2) sampleCrypto events).1 request 200 (by decide +kernel)

end TunnelAuthorizationTable

end Lichen.Gateway
