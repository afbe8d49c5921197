import Lichen.Lib.Run
import Lichen.Rpl.Dodag

namespace Lichen.Rpl

open Lichen.Lib Lichen.Core HashMap

section

variable {τ : Type} {link : LinkMetric τ} {candidate : ParentCandidate τ}

theorem le_saturatingAdd : a ≤ saturatingAdd a b := by
  rw [saturatingAdd]
  split
  · rw [UInt16.le_iff_toNat_le, UInt16.toNat_add, Nat.mod_eq_of_lt ‹_›]
    omega
  · rw [UInt16.le_iff_toNat_le]
    have := a.toNat_lt
    show a.toNat ≤ 65535
    omega

theorem toNat_saturatingAdd_le : (saturatingAdd a b).toNat ≤ a.toNat + b.toNat := by
  rw [saturatingAdd]
  split
  · rw [UInt16.toNat_add]
    exact Nat.mod_le _ _
  · show 65535 ≤ _
    omega

structure Admissible (link : LinkMetric τ) (candidate : ParentCandidate τ)
    (nodeRank lowestRank mhri maxIncrease : UInt16) : Prop where
  mhri_ne : mhri ≠ 0
  floor : mhri ≤ candidate.rank
  finite : candidate.pathCost link mhri ≠ infiniteRank
  above : candidate.rank / mhri < candidate.pathCost link mhri / mhri
  below : nodeRank = infiniteRank ∨ candidate.rank / mhri < nodeRank / mhri
  bound : maxIncrease = 0 ∨ lowestRank = infiniteRank ∨
    candidate.pathCost link mhri ≤ saturatingAdd lowestRank maxIncrease

theorem candidateAdmissible_iff :
    candidateAdmissible link candidate nodeRank lowestRank mhri maxIncrease = true ↔
      Admissible link candidate nodeRank lowestRank mhri maxIncrease := by
  simp only [candidateAdmissible]
  split
  · exact iff_of_false Bool.false_ne_true fun h => h.mhri_ne ‹_›
  rename_i hmhri
  split
  · rename_i hcost
    refine iff_of_false Bool.false_ne_true fun h => ?_
    obtain hfloor | hinfinite | habove := hcost
    · exact UInt16.not_lt.mpr h.floor hfloor
    · exact h.finite hinfinite
    · exact UInt16.not_le.mpr h.above habove
  rename_i hcost
  split
  · rename_i hbelow
    exact iff_of_false Bool.false_ne_true fun h =>
      h.below.elim hbelow.1 fun hlt => UInt16.not_le.mpr hlt hbelow.2
  rename_i hbelow
  rw [Bool.or_eq_true, Bool.or_eq_true, or_assoc, decide_eq_true_iff, decide_eq_true_iff,
    decide_eq_true_iff]
  simp only [not_or, not_and_or, not_not, UInt16.not_lt, UInt16.not_le] at hcost hbelow
  exact ⟨fun h => ⟨hmhri, hcost.1, hcost.2.1, hcost.2.2, hbelow, h⟩, Admissible.bound⟩

theorem Admissible.chosen (h : Admissible link candidate nodeRank lowestRank mhri maxIncrease) :
    let cost := candidate.pathCost link mhri
    Admissible link candidate cost (if cost < lowestRank then cost else lowestRank) mhri
      maxIncrease where
  mhri_ne := h.mhri_ne
  floor := h.floor
  finite := h.finite
  above := h.above
  below := .inr h.above
  bound := by
    split
    · exact .inr (.inr le_saturatingAdd)
    · exact h.bound

theorem lt_infiniteRank (h : rank ≠ infiniteRank) : rank < infiniteRank := by
  refine UInt16.lt_of_le_of_ne ?_ h
  rw [UInt16.le_iff_toNat_le]
  exact Nat.le_of_lt_succ rank.toNat_lt

theorem lowest_ne_infiniteRank (h : rank ≠ infiniteRank) :
    (if rank < lowest then rank else lowest) ≠ infiniteRank := by
  split
  · exact h
  · rename_i hge
    rintro rfl
    exact hge (lt_infiniteRank h)

theorem Admissible.rank_le (h : Admissible link candidate nodeRank lowestRank mhri maxIncrease)
    (hlowest : lowestRank ≠ infiniteRank) (hmax : maxIncrease ≠ 0) :
    (candidate.pathCost link mhri).toNat ≤ lowestRank.toNat + maxIncrease.toNat := by
  obtain hzero | hinfinite | hle := h.bound
  · exact absurd hzero hmax
  · exact absurd hinfinite hlowest
  · exact (UInt16.le_iff_toNat_le.mp hle).trans toNat_saturatingAdd_le

end

namespace DodagState

variable {τ : Type} {link : LinkMetric τ} {s : DodagState τ} {order : HashOrder}

/-- The candidates are listed under their own addresses, at most sixteen of them. -/
structure Listed (s : DodagState τ) : Prop where
  addr : ∀ addr candidate, s.parents.get addr = some candidate → candidate.addr = addr
  len_le : s.parents.len ≤ maxParentCandidates

structure ThroughParent (link : LinkMetric τ) (s : DodagState τ) (addr : Ipv6Addr)
    (parent : ParentCandidate τ) : Prop where
  preferred : s.preferredParent = some addr
  listed : s.parents.get addr = some parent
  rank_eq : s.rank = parent.pathCost link s.minHopRankIncrease
  above : parent.rank / s.minHopRankIncrease < s.rank / s.minHopRankIncrease
  bound : s.maxRankIncrease ≠ 0 → s.rank.toNat ≤ s.lowestRank.toNat + s.maxRankIncrease.toNat

structure Consistent (link : LinkMetric τ) (s : DodagState τ) : Prop where
  listed : s.Listed
  joined : s.role = .joined → ∃ addr parent, s.ThroughParent link addr parent
  apart : s.role ≠ .joined → s.preferredParent = none ∧ s.parents.len = 0
  unjoined : s.role = .unjoined → s.rank = infiniteRank

theorem Listed.prune (h : s.Listed) : (s.pruneInadmissibleParents link).Listed where
  addr := by
    intro addr candidate hget
    rw [pruneInadmissibleParents, get_retain] at hget
    exact h.addr addr candidate (Option.filter_eq_some_iff.mp hget).1
  len_le := (len_retain_le _ _).trans h.len_le

theorem get_prune : (s.pruneInadmissibleParents link).parents.get addr = some candidate ↔
      s.parents.get addr = some candidate ∧ s.admissible link candidate = true := by
  rw [pruneInadmissibleParents, get_retain, Option.filter_eq_some_iff]

theorem best_eq_some (h : s.best link order = some candidate) :
    ∃ addr, s.parents.get addr = some candidate ∧ s.admissible link candidate = true := by
  obtain ⟨hvalue, hadmissible⟩ := List.mem_filter.mp (mem_of_minBy h)
  obtain ⟨addr, hget⟩ := (mem_values order).mp hvalue
  exact ⟨addr, hget, hadmissible⟩

theorem best_eq_none (h : (s.pruneInadmissibleParents link).best link order = none) :
    (s.pruneInadmissibleParents link).parents.get addr = none := by
  rw [Option.eq_none_iff_forall_ne_some]
  intro candidate hget
  have hadmissible : (s.pruneInadmissibleParents link).admissible link candidate = true :=
    (get_prune.mp hget).2
  have hmem := List.mem_filter.mpr ⟨(mem_values order).mpr ⟨addr, hget⟩, hadmissible⟩
  rw [minBy_eq_none.mp h] at hmem
  cases hmem

theorem choose_spec {best : ParentCandidate τ} (haddr : s.parents.get best.addr = some best)
    (hadmissible : s.admissible link best = true) :
    ∃ candidate, s.parents.get (s.choose link best).1 = some candidate ∧
      s.admissible link candidate = true ∧
      (s.choose link best).2 = candidate.pathCost link s.minHopRankIncrease := by
  simp only [choose]
  split
  · exact ⟨best, haddr, hadmissible, rfl⟩
  split
  · exact ⟨best, haddr, hadmissible, rfl⟩
  rename_i hcost
  obtain ⟨candidate, hcandidate, heq⟩ :=
    Option.map_eq_some_iff.mp (Option.filter_eq_some_iff.mp hcost).1
  obtain ⟨hget, hcurrent⟩ := Option.filter_eq_some_iff.mp hcandidate
  exact ⟨candidate, hget, hcurrent, heq.symm⟩

theorem join_eq (hrole : s.role ≠ .root) (addr : Ipv6Addr) (cost : UInt16) :
    s.join link addr cost = { s with
      role := .joined
      preferredParent := some addr
      rank := cost
      lowestRank := if cost < s.lowestRank then cost else s.lowestRank
    }.pruneInadmissibleParents link := by
  have hjoin : s.role.canTransitionTo .joined = true := by
    cases hs : s.role with
    | root => exact absurd hs hrole
    | unjoined | joined => rfl
  rw [join, setRole, if_pos hjoin]

theorem leave_eq :
    s.leave = { s with role := .unjoined, preferredParent := none, rank := infiniteRank } := by
  have hleave : s.role.canTransitionTo .unjoined = true := by
    cases s.role <;> rfl
  rw [leave, setRole, if_pos hleave]

theorem consistent_join (h : s.Listed)
    (hrole : s.role ≠ .root) (hget : s.parents.get addr = some parent)
    (hadmissible : s.admissible link parent = true) :
    (s.join link addr (parent.pathCost link s.minHopRankIncrease)).Consistent link := by
  have hchosen := (candidateAdmissible_iff.mp hadmissible).chosen
  rw [join_eq hrole]
  refine ⟨Listed.prune ⟨h.addr, h.len_le⟩, fun _ => ⟨addr, parent, rfl, ?_, rfl, hchosen.above, ?_⟩,
    fun hne => absurd rfl hne, fun heq => by cases heq⟩
  · exact get_prune.mpr ⟨hget, candidateAdmissible_iff.mpr hchosen⟩
  · exact hchosen.rank_le (lowest_ne_infiniteRank hchosen.finite)

theorem consistent_leave (h : s.parents.len = 0) (hlisted : s.Listed) :
    s.leave.Consistent link := by
  rw [leave_eq]
  refine ⟨⟨hlisted.addr, hlisted.len_le⟩, ?_, fun _ => ⟨rfl, h⟩, fun _ => rfl⟩
  rintro ⟨⟩

theorem consistent_selectParent (h : s.Listed) (hrole : s.role ≠ .root) (order : HashOrder) :
    (s.selectParent link order).Consistent link := by
  simp only [selectParent, if_neg hrole]
  have hpruned : (s.pruneInadmissibleParents link).Listed := h.prune
  have hprunedRole : (s.pruneInadmissibleParents link).role ≠ .root := hrole
  split
  · rename_i hbest
    exact consistent_leave (len_eq_zero fun _ => best_eq_none hbest) hpruned
  · rename_i best hbest
    obtain ⟨addr, hget, hadmissible⟩ := best_eq_some hbest
    have haddr := hpruned.addr addr best hget
    rw [← haddr] at hget
    obtain ⟨_, hcandidate, hchosen, hcost⟩ := choose_spec hget hadmissible
    rw [hcost]
    exact consistent_join hpruned hprunedRole hcandidate hchosen

theorem Listed.remove (h : s.Listed) (addr : Ipv6Addr) :
    { s with parents := s.parents.remove addr }.Listed where
  addr := fun other candidate hget => h.addr other candidate (get_of_get_remove hget).2
  len_le := (len_remove_le _ _).trans h.len_le

theorem Listed.removeAll (h : s.Listed) (addrs : List Ipv6Addr) :
    { s with parents := addrs.foldl HashMap.remove s.parents }.Listed ∧
      (addrs.foldl HashMap.remove s.parents).len ≤ s.parents.len := by
  induction addrs generalizing s with
  | nil => exact ⟨h, Nat.le_refl _⟩
  | cons addr addrs ih =>
    obtain ⟨hlisted, hlen⟩ := ih (h.remove addr)
    exact ⟨hlisted, hlen.trans (len_remove_le _ _)⟩

theorem Listed.insert (h : s.Listed) (candidate : ParentCandidate τ)
    (hroom : s.parents.containsKey candidate.addr = true ∨
      s.parents.len < maxParentCandidates) :
    { s with parents := s.parents.insert candidate.addr candidate }.Listed where
  addr := by
    intro addr other hget
    obtain ⟨rfl, rfl⟩ | ⟨-, hget⟩ := get_of_get_insert hget
    · rfl
    · exact h.addr addr other hget
  len_le := by
    obtain hold | hroom := hroom
    · obtain ⟨_, hget⟩ := Option.isSome_iff_exists.mp hold
      show (s.parents.insert _ _).len ≤ _
      rw [len_insert_of_get hget]
      exact h.len_le
    · exact (len_insert_le _ _ _).trans hroom

theorem Consistent.removeParents (h : s.Consistent link) (order : HashOrder)
    (addrs : List Ipv6Addr) : (s.removeParents link order addrs).Consistent link := by
  obtain ⟨hlisted, hlen⟩ := h.listed.removeAll addrs
  rw [DodagState.removeParents]
  by_cases hrole : s.role = .root
  · have hapart := h.apart (by rw [hrole]; decide)
    rw [selectParent, if_pos hrole]
    refine ⟨hlisted, fun hjoined => ?_, fun _ => ⟨hapart.1, ?_⟩, h.unjoined⟩
    · exact absurd (hrole.symm.trans hjoined) (by decide)
    · exact Nat.eq_zero_of_le_zero (hlen.trans hapart.2.le)
  · exact consistent_selectParent hlisted hrole order

def admitDio (s : DodagState τ) (dio : Dio) (addr : Ipv6Addr) (etx : τ) : DodagState τ :=
  if s.parents.containsKey addr ∨ s.parents.len < maxParentCandidates then
    { s with parents := s.parents.insert addr ⟨addr, dio.rank, etx⟩ }
  else s

theorem considerDio_cases (link : LinkMetric τ) (s : DodagState τ) (order : HashOrder) (dio : Dio)
    (addr : Ipv6Addr) (etx : τ) :
    s.considerDio link order dio addr etx = s.dropNeighbor link order addr ∨
      s.admissible link ⟨addr, dio.rank, etx⟩ = true ∧ s.considerDio link order dio addr etx =
        (.accepted, (s.admitDio dio addr etx).selectParent link order) := by
  simp only [considerDio, admitDio]
  split
  · exact .inl rfl
  split
  · exact .inl rfl
  split
  · exact .inl rfl
  refine .inr ⟨by simpa using ‹¬(!_) = true›, ?_⟩
  split <;> rfl

theorem consistent_considerDio (h : s.Listed) (hrole : s.role ≠ .root) (order : HashOrder)
    (dio : Dio) (addr : Ipv6Addr) (etx : τ) :
    (s.considerDio link order dio addr etx).2.Consistent link := by
  obtain hdrop | ⟨-, haccept⟩ := considerDio_cases link s order dio addr etx
  · rw [hdrop]
    exact consistent_selectParent (h.remove addr) hrole order
  · rw [haccept, admitDio]
    split
    · exact consistent_selectParent (h.insert ⟨addr, dio.rank, etx⟩ ‹_›) hrole order
    · exact consistent_selectParent h hrole order

theorem adoptVersion_ok {version : UInt8} (h : s.adoptVersion version = .ok s') : s' = { s with
      version
      role := .unjoined
      parents := HashMap.new
      preferredParent := none
      rank := infiniteRank
      lowestRank := infiniteRank } := by
  rw [adoptVersion] at h
  split at h
  · cases h
  · rw [setRole] at h
    split at h
    · cases h
      rfl
    · cases h

theorem consistent_of_new (hparents : s.parents = .new) (hpreferred : s.preferredParent = none)
    (hjoined : s.role ≠ .joined) (hrank : s.role = .unjoined → s.rank = infiniteRank) :
    s.Consistent link := by
  refine ⟨⟨?_, ?_⟩, fun h => absurd h hjoined, fun _ => ⟨hpreferred, ?_⟩, hrank⟩ <;> rw [hparents]
  · rintro _ _ ⟨⟩
  · exact Nat.zero_le _
  · rfl

theorem consistent_adoptVersion {version : UInt8} (link : LinkMetric τ)
    (h : s.adoptVersion version = .ok s') : s'.Consistent link ∧ s'.role ≠ .root := by
  cases adoptVersion_ok h
  exact ⟨consistent_of_new rfl rfl nofun fun _ => rfl, nofun⟩

theorem processDio_cases (link : LinkMetric τ) (s : DodagState τ) (order : HashOrder) (dio : Dio)
    (addr : Ipv6Addr) (etx : τ) (authorized : Bool) :
    let result := s.processDioWithVersionAuthorization link order dio addr etx authorized
    result = (.rejected, s) ∨
      (versionIsNewer dio.version s.version = false ∧ s.role ≠ .root ∧
        result = s.considerDio link order dio addr etx) ∨
      versionIsNewer dio.version s.version = true ∧ ∃ next, s.adoptVersion dio.version = .ok next ∧
        (result = (.rejected, next) ∨ result = next.considerDio link order dio addr etx) := by
  intro result
  simp only [result, processDioWithVersionAuthorization]
  split
  · exact .inl rfl
  split
  · exact .inl rfl
  rename_i hrole
  split
  · exact .inl rfl
  split
  · exact .inl rfl
  split
  · exact .inl rfl
  split
  · rename_i hnewer
    split
    · exact .inl rfl
    · rename_i next hnext
      refine .inr (.inr ⟨hnewer, next, hnext, ?_⟩)
      split
      · exact .inl rfl
      · exact .inr rfl
  · rename_i hnewer
    exact .inr (.inl ⟨by simpa using hnewer, hrole, rfl⟩)

section

variable (h : s.Consistent link)

include h

section

variable (order : HashOrder)

theorem Consistent.processDio :
    (s.processDioWithVersionAuthorization link order dio addr etx authorized).2.Consistent
      link := by
  obtain hkept | ⟨-, hrole, hconsider⟩ | ⟨-, _, hnext, hadopted⟩ :=
    processDio_cases link s order dio addr etx authorized
  · rwa [hkept]
  · rw [hconsider]
    exact consistent_considerDio h.listed hrole order dio addr etx
  · obtain ⟨hconsistent, hrole⟩ := consistent_adoptVersion link hnext
    obtain hrejected | hconsider := hadopted
    · rwa [hrejected]
    · rw [hconsider]
      exact consistent_considerDio hconsistent.listed hrole order dio addr etx

theorem Consistent.commitAdmittedDio
    (hcommit : s.commitAdmittedDio link order admitted etx = .ok result) :
    result.2.Consistent link := by
  simp only [DodagState.commitAdmittedDio] at hcommit
  split at hcommit
  · cases hcommit
  split at hcommit
  · cases hcommit
    exact h.removeParents order _
  · cases hcommit
    exact h.processDio order

theorem Consistent.processAuthenticatedDio :
    (s.processAuthenticatedDio link order signerIid admission etx).2.Consistent link := by
  match admission with
  | .ok admitted =>
    rw [DodagState.processAuthenticatedDio]
    cases hcommit : s.commitAdmittedDio link order admitted etx with
    | error => exact h
    | ok => exact h.commitAdmittedDio order hcommit
  | .error .peerRevoked => exact h.removeParents order _
  | .error .malformed => exact h

theorem Consistent.setRankConfig :
    (s.setRankConfig link order mhri maxIncrease).2.Consistent link := by
  simp only [DodagState.setRankConfig]
  split
  · exact h
  split
  · exact h
  split
  · rename_i hrole
    refine ⟨⟨h.listed.addr, h.listed.len_le⟩, fun hjoined => ?_, h.apart, fun hunjoined => ?_⟩
    · exact absurd (hrole.symm.trans hjoined) (by decide)
    · exact absurd (hrole.symm.trans hunjoined) (by decide)
  · rename_i hrole
    apply consistent_selectParent
    · exact ⟨h.listed.addr, h.listed.len_le⟩
    · exact fun hroot => absurd (hrole.symm.trans hroot) (by decide)
  · rename_i hrole
    refine ⟨⟨h.listed.addr, h.listed.len_le⟩, fun hjoined => ?_, h.apart, h.unjoined⟩
    exact absurd (hrole.symm.trans hjoined) (by decide)

theorem Consistent.demote : s.demote.Consistent link := by
  rw [DodagState.demote]
  split
  · exact consistent_of_new rfl rfl nofun fun _ => rfl
  · exact h

theorem Consistent.selectParent : (s.selectParent link order).Consistent link := by
  by_cases hrole : s.role = .root
  · rw [DodagState.selectParent, if_pos hrole]
    exact h
  · exact consistent_selectParent h.listed hrole order

end

end

inductive Call (τ : Type) where
  | processDio (order : HashOrder) (dio : Dio) (neighborAddr : Ipv6Addr) (linkEtx : τ)
      (versionAuthorized : Bool)
  | processAuthenticatedDio (order : HashOrder) (signerIid : Iid)
      (admission : Except DioAdmissionError AdmittedDio) (linkEtx : τ)
  | removeParents (order : HashOrder) (addrs : List Ipv6Addr)
  | removeParentsWithIid (order : HashOrder) (signerIid : Iid)
  | demote
  | setRankConfig (order : HashOrder) (minHopRankIncrease maxRankIncrease : UInt16)
  | adoptVersion (version : UInt8)
  | selectParent (order : HashOrder)

def step (link : LinkMetric τ) (s : DodagState τ) : Call τ → DodagState τ
  | .processDio order dio neighborAddr linkEtx versionAuthorized =>
    (s.processDioWithVersionAuthorization link order dio neighborAddr linkEtx versionAuthorized).2
  | .processAuthenticatedDio order signerIid admission linkEtx =>
    (s.processAuthenticatedDio link order signerIid admission linkEtx).2
  | .removeParents order addrs => s.removeParents link order addrs
  | .removeParentsWithIid order signerIid => (s.removeParentsWithIid link order signerIid).2
  | .demote => s.demote
  | .setRankConfig order minHopRankIncrease maxRankIncrease =>
    (s.setRankConfig link order minHopRankIncrease maxRankIncrease).2
  | .adoptVersion version => (s.adoptVersion version).toOption.getD s
  | .selectParent order => s.selectParent link order

theorem Consistent.step (h : s.Consistent link) : (s.step link call).Consistent link := by
  cases call with
  | processDio order dio addr etx authorized => exact h.processDio order
  | processAuthenticatedDio order iid admission etx =>
    exact h.processAuthenticatedDio order
  | removeParents order addrs => exact h.removeParents order addrs
  | removeParentsWithIid order iid => exact h.removeParents order _
  | demote => exact h.demote
  | setRankConfig order mhri maxIncrease => exact h.setRankConfig order
  | adoptVersion version =>
    rw [DodagState.step]
    cases hadopt : s.adoptVersion version with
    | error => exact h
    | ok => exact (consistent_adoptVersion link hadopt).1
  | selectParent order => exact h.selectParent order

inductive Initial : DodagState τ → Prop
  | node (instanceId : UInt8) (dodagId : Ipv6Addr) (version : UInt8) :
      Initial (new instanceId dodagId version)
  | root {instanceId : UInt8} {dodagId : Ipv6Addr} {version : UInt8} {mhri maxIncrease : UInt16}
      {s : DodagState τ}
      (h : asRootWithRankConfig instanceId dodagId version mhri maxIncrease = some s) : Initial s

theorem consistent_initial (h : s.Initial) : s.Consistent link := by
  cases h with
  | node => exact consistent_of_new rfl rfl nofun fun _ => rfl
  | root h =>
    rw [asRootWithRankConfig] at h
    split at h
    · cases h
    cases h
    exact consistent_of_new rfl rfl nofun nofun

/-- The position of a node that is not a root, after any calls. While it is joined its rank is
bounded by the lowest rank it had; a node that has left has the infinite rank instead. -/
theorem position_consistent (link : LinkMetric τ) (start : DodagState τ) (hstart : start.Initial)
    (calls : List (Call τ)) :
    let s := run (step link) start calls
    s.parents.len ≤ 16 ∧ (s.role ≠ .root →
      (s.role = .joined ↔ s.preferredParent.isSome = true) ∧
      (s.role = .joined → ∃ addr parent, s.preferredParent = some addr ∧
        s.parents.get addr = some parent ∧
        s.rank = parent.pathCost link s.minHopRankIncrease ∧
        parent.rank / s.minHopRankIncrease < s.rank / s.minHopRankIncrease ∧
        (s.maxRankIncrease ≠ 0 →
          s.rank.toNat ≤ s.lowestRank.toNat + s.maxRankIncrease.toNat)) ∧
      (s.role = .unjoined →
        s.rank = infiniteRank ∧ s.preferredParent = none ∧ s.parents.len = 0)) := by
  intro s
  have h : s.Consistent link := run_invariant (I := Consistent link)
    (fun _ call h => h.step) (consistent_initial hstart) calls
  refine ⟨h.listed.len_le, fun hroot => ⟨⟨fun hjoined => ?_, fun hsome => ?_⟩, fun hjoined => ?_,
    fun hunjoined => ?_⟩⟩
  · obtain ⟨addr, parent, hparent⟩ := h.joined hjoined
    rw [hparent.preferred]
    rfl
  · by_contra hjoined
    rw [(h.apart hjoined).1] at hsome
    cases hsome
  · obtain ⟨addr, parent, hparent⟩ := h.joined hjoined
    exact ⟨addr, parent, hparent.preferred, hparent.listed, hparent.rank_eq, hparent.above,
      hparent.bound⟩
  · have hapart := h.apart (by rw [hunjoined]; decide)
    exact ⟨h.unjoined hunjoined, hapart.1, hapart.2⟩

def sampleLink : LinkMetric UInt16 := ⟨fun etx => 1 ≤ etx, fun etx mhri => some (etx * mhri)⟩

def sampleNeighbor : Ipv6Addr := List.Vector.replicate 16 0

def sampleNode : DodagState UInt16 := new 0 sampleNeighbor 0

def joiningDio : Call UInt16 :=
  .processDio .inserted ⟨0, 0, 256, true, 1, 0, 0, 0, sampleNeighbor⟩ sampleNeighbor 1 false

theorem joined_through_root :
    let s := run (step sampleLink) sampleNode [joiningDio]
    s.role = .joined ∧ ∃ addr parent, s.preferredParent = some addr ∧
      s.parents.get addr = some parent ∧
      s.rank = parent.pathCost sampleLink s.minHopRankIncrease := by
  intro s
  have hjoined : s.role = .joined := by decide +kernel
  obtain ⟨-, hposition⟩ :=
    position_consistent sampleLink sampleNode (.node 0 sampleNeighbor 0) [joiningDio]
  obtain ⟨addr, parent, hpreferred, hget, hrank, -⟩ :=
    (hposition (by decide +kernel)).2.1 hjoined
  exact ⟨hjoined, addr, parent, hpreferred, hget, hrank⟩

theorem unjoined_rank_above_bound :
    let s := run (step sampleLink) sampleNode [joiningDio, .removeParents .inserted [sampleNeighbor]]
    s.version = sampleNode.version ∧ s.maxRankIncrease ≠ 0 ∧
      s.rank.toNat > s.lowestRank.toNat + s.maxRankIncrease.toNat := by
  decide +kernel

/-- A candidate stays if it is still admissible at the rank the node then has. -/
theorem get_selectParent (hrole : s.role ≠ .root)
    (hadmissible : ∀ c, s.parents.get addr = some c → s.admissible link c = true) :
    (s.selectParent link order).parents.get addr =
      (s.parents.get addr).filter ((s.selectParent link order).admissible link) := by
  have hpruned : (s.pruneInadmissibleParents link).parents.get addr = s.parents.get addr := by
    rw [pruneInadmissibleParents, get_retain]
    cases hget : s.parents.get addr with
    | none => rfl
    | some c => exact Option.filter_some_pos (hadmissible c hget)
  simp only [selectParent, if_neg hrole]
  split
  · rename_i hbest
    rw [best_eq_none hbest] at hpruned
    rw [leave_eq, ← hpruned]
    exact best_eq_none hbest
  · rw [@join_eq _ _ (s.pruneInadmissibleParents link) hrole]
    exact (get_retain ..).trans (by rw [← hpruned]; rfl)

structure LeastCost (link : LinkMetric τ) (s : DodagState τ) (cost : UInt16) : Prop where
  reached : ∃ addr candidate, s.parents.get addr = some candidate ∧
    s.admissible link candidate = true ∧ candidate.pathCost link s.minHopRankIncrease = cost
  least : ∀ addr candidate, s.parents.get addr = some candidate →
    s.admissible link candidate = true → cost ≤ candidate.pathCost link s.minHopRankIncrease

/-- The rank that the candidates of a node give it: the path cost of its present parent if no other
one gains the threshold, else the least path cost. -/
def NextRank (link : LinkMetric τ) (s : DodagState τ) (rank : UInt16) : Prop :=
  ∃ cost, s.LeastCost link cost ∧ rank =
    ((((s.preferredParent.bind s.parents.get).filter (s.admissible link)).map
      (·.pathCost link s.minHopRankIncrease)).filter
        (saturatingSub · s.parentSwitchThreshold < cost)).getD cost

theorem NextRank.unique (h : s.NextRank link r) (h' : s.NextRank link r') : r = r' := by
  obtain ⟨_, ⟨⟨_, _, hget, hadmissible, rfl⟩, hleast⟩, rfl⟩ := h
  obtain ⟨_, ⟨⟨_, _, hget', hadmissible', rfl⟩, hleast'⟩, rfl⟩ := h'
  rw [UInt16.le_antisymm (hleast _ _ hget' hadmissible') (hleast' _ _ hget hadmissible)]

theorem leastCost_best {best : ParentCandidate τ} (h : s.best link order = some best) :
    s.LeastCost link (best.pathCost link s.minHopRankIncrease) := by
  obtain ⟨addr, hget, hadmissible⟩ := best_eq_some h
  refine ⟨⟨addr, best, hget, hadmissible, rfl⟩, fun other candidate hother hcandidate => ?_⟩
  have hmem := List.mem_filter.mpr ⟨(mem_values order).mpr ⟨other, hother⟩, hcandidate⟩
  refine UInt16.le_iff_toNat_le.mpr (minBy_greatest (f := fun candidate : ParentCandidate τ =>
    OrderDual.toDual (candidate.pathCost link s.minHopRankIncrease).toNat) ?_ ?_ h candidate hmem)
  · intro a b hlt
    exact Nat.le_of_lt (UInt16.lt_iff_toNat_lt.mp (of_decide_eq_true hlt))
  · intro a b hge
    exact UInt16.le_iff_toNat_le.mp (UInt16.not_lt.mp (of_decide_eq_false hge))

theorem nextRank_choose {best : ParentCandidate τ} (h : s.Listed)
    (hbest : s.best link order = some best) : s.NextRank link (s.choose link best).2 := by
  refine ⟨_, leastCost_best hbest, ?_⟩
  obtain ⟨addr, hget, hadmissible⟩ := best_eq_some hbest
  cases h.addr addr best hget
  simp only [choose]
  cases s.preferredParent with
  | none => rfl
  | some current =>
    rw [Option.bind_some]
    by_cases hcurrent : current = best.addr
    · rw [Option.filter_some_neg (by simpa using hcurrent), hcurrent, hget,
        Option.filter_some_pos hadmissible, Option.map_some, Option.filter_some]
      dsimp only
      split <;> rfl
    · rw [Option.filter_some_pos (by simpa using hcurrent)]
      dsimp only
      split <;> exact (congrArg (Option.getD · _) ‹_›).symm

theorem nextRank_prune (h : (s.pruneInadmissibleParents link).NextRank link r) :
    s.NextRank link r := by
  obtain ⟨cost, ⟨⟨addr, candidate, hget, hcandidate⟩, hleast⟩, rfl⟩ := h
  refine ⟨cost, ⟨⟨addr, candidate, (get_prune.mp hget).1, hcandidate⟩, fun other c hc hadmissible =>
    hleast other c (get_prune.mpr ⟨hc, hadmissible⟩) hadmissible⟩, ?_⟩
  simp only [pruneInadmissibleParents]
  cases s.preferredParent with
  | none => rfl
  | some current =>
    rw [Option.bind_some, Option.bind_some, get_retain, Option.filter_filter]
    simp only [Bool.and_self, admissible]
    rfl

/-- A candidate is still admissible after a selection if the rank that it gives the node allows. -/
theorem admissible_selectParent (order : HashOrder) (h : s.Listed) (hrole : s.role ≠ .root)
    (hget : s.parents.get addr = some candidate) (hadmissible : s.admissible link candidate = true) :
    ∃ r, s.NextRank link r ∧ ((s.selectParent link order).admissible link candidate = true ↔
      candidate.rank / s.minHopRankIncrease < r / s.minHopRankIncrease ∧
      (s.maxRankIncrease = 0 ∨ candidate.pathCost link s.minHopRankIncrease ≤
        saturatingAdd (if r < s.lowestRank then r else s.lowestRank) s.maxRankIncrease)) := by
  simp only [selectParent, if_neg hrole]
  split
  · rename_i hbest
    cases (best_eq_none hbest).symm.trans (get_prune.mpr ⟨hget, hadmissible⟩)
  · rename_i best hbest
    refine ⟨_, nextRank_prune (nextRank_choose h.prune hbest), ?_⟩
    have hfinite : ((s.pruneInadmissibleParents link).choose link best).2 ≠ infiniteRank := by
      obtain ⟨other, hother, hbest⟩ := best_eq_some hbest
      cases h.prune.addr other best hother
      obtain ⟨_, -, hchosen, hcost⟩ := choose_spec hother hbest
      rw [hcost]
      exact (candidateAdmissible_iff.mp hchosen).finite
    rw [@join_eq _ _ (s.pruneInadmissibleParents link) hrole]
    have hnow := candidateAdmissible_iff.mp hadmissible
    refine candidateAdmissible_iff.trans ⟨fun h => ⟨h.below.resolve_left hfinite, ?_⟩, ?_⟩
    · exact h.bound.imp_right (Or.resolve_left · (lowest_ne_infiniteRank hfinite))
    · rintro ⟨hbelow, hbound⟩
      exact ⟨hnow.mhri_ne, hnow.floor, hnow.finite, hnow.above, .inr hbelow, hbound.imp_right .inr⟩

/-- The sender of a DIO stays at the rank that the node takes with it among its candidates. -/
def Stays (link : LinkMetric τ) (s : DodagState τ) (sender : ParentCandidate τ) : Prop :=
  ∃ r, { s with parents := s.parents.insert sender.addr sender }.NextRank link r ∧
    sender.rank / s.minHopRankIncrease < r / s.minHopRankIncrease ∧
    (s.maxRankIncrease = 0 ∨ sender.pathCost link s.minHopRankIncrease ≤
      saturatingAdd (if r < s.lowestRank then r else s.lowestRank) s.maxRankIncrease)

theorem listed_of_considerDio (hlisted : s.Listed) (hrole : s.role ≠ .root)
    (h : s.considerDio link order dio addr etx = (.accepted, s')) :
    s.admissible link ⟨addr, dio.rank, etx⟩ = true ∧ (s'.parents.containsKey addr = true ↔
      (s.parents.containsKey addr = true ∨ s.parents.len < maxParentCandidates) ∧
        s.Stays link ⟨addr, dio.rank, etx⟩) := by
  obtain hdrop | ⟨hadmissible, haccept⟩ := considerDio_cases link s order dio addr etx
  · rw [hdrop, dropNeighbor] at h
    split at h <;> cases h
  cases haccept.symm.trans h
  refine ⟨hadmissible, ?_⟩
  rw [show HashMap.containsKey _ _ = Option.isSome _ from rfl, admitDio]
  split
  · rename_i hroom
    have hget := get_insert_self s.parents addr (⟨addr, dio.rank, etx⟩ : ParentCandidate τ)
    obtain ⟨r, hr, hstays⟩ := admissible_selectParent order
      (hlisted.insert ⟨addr, dio.rank, etx⟩ hroom) hrole hget hadmissible
    rw [get_selectParent, hget, Option.isSome_filter]
    · refine hstays.trans ⟨fun h => ⟨hroom, r, hr, h⟩, ?_⟩
      rintro ⟨-, _, hr', h⟩
      cases hr.unique hr'
      exact h
    · exact hrole
    · rintro c hc
      cases hget.symm.trans hc
      exact hadmissible
  · rename_i hroom
    have hget : s.parents.get addr = none := by
      simpa [HashMap.containsKey] using (not_or.mp hroom).1
    rw [get_selectParent hrole, hget]
    · exact iff_of_false Bool.false_ne_true fun h => hroom h.1
    · rintro c hc
      cases hget.symm.trans hc

theorem stays_of_new (hparents : s.parents = .new) (hpreferred : s.preferredParent = none)
    (hlowest : s.lowestRank = infiniteRank) (h : s.admissible link sender = true) :
    s.Stays link sender := by
  have hnow := candidateAdmissible_iff.mp h
  refine ⟨_, ⟨sender.pathCost link s.minHopRankIncrease,
    ⟨⟨sender.addr, sender, get_insert_self .., h, rfl⟩, fun other c hget _ => ?_⟩, rfl⟩, ?_⟩
  · obtain ⟨-, rfl⟩ | ⟨-, hget⟩ := get_of_get_insert hget
    · exact UInt16.le_refl _
    · rw [hparents] at hget
      cases hget
  · simp only [hpreferred, hlowest, Option.bind_none, Option.filter_none, Option.map_none,
      Option.getD_none, if_pos (lt_infiniteRank hnow.finite)]
    exact ⟨hnow.above, .inr le_saturatingAdd⟩

/-- An accepted sender is a parent candidate afterwards exactly if the DIO starts a new version, or
there was room for it and the rank that the node then takes lets it stay. -/
theorem accepted_dio_listed_iff (link : LinkMetric τ) (order : HashOrder) (start : DodagState τ)
    (hstart : start.Initial) (calls : List (Call τ)) (dio : Dio) (addr : Ipv6Addr) (etx : τ)
    (authorized : Bool) :
    let s := run (step link) start calls
    ∀ s', s.processDioWithVersionAuthorization link order dio addr etx authorized =
        (.accepted, s') →
      (s'.parents.containsKey addr = true ↔ versionIsNewer dio.version s.version = true ∨
        (s.parents.containsKey addr = true ∨ s.parents.len < maxParentCandidates) ∧
          s.Stays link ⟨addr, dio.rank, etx⟩) := by
  intro s s' h
  have hconsistent : s.Consistent link := run_invariant (I := Consistent link)
    (fun _ call h => h.step) (consistent_initial hstart) calls
  obtain hkept | ⟨hversion, hrole, hconsider⟩ | ⟨hversion, next, hnext, hrejected | hconsider⟩ :=
    processDio_cases link s order dio addr etx authorized
  · cases hkept.symm.trans h
  · rw [hversion, Bool.false_eq_true, false_or]
    exact (listed_of_considerDio hconsistent.listed hrole (hconsider.symm.trans h)).2
  · cases hrejected.symm.trans h
  · obtain ⟨hadopted, hrole⟩ := consistent_adoptVersion link hnext
    obtain ⟨hadmissible, hlisted⟩ :=
      listed_of_considerDio hadopted.listed hrole (hconsider.symm.trans h)
    refine iff_of_true (hlisted.mpr ?_) (.inl hversion)
    rw [adoptVersion_ok hnext] at hadmissible ⊢
    exact ⟨.inr (Nat.zero_lt_succ 15), stays_of_new rfl rfl rfl hadmissible⟩

def sampleAddr (i : Nat) : Ipv6Addr := toArray 16 (beBytes 16 i)

def sampleDio (rank : UInt16) : Dio := ⟨0, 0, rank, true, 1, 0, 0, 0, sampleNeighbor⟩

def heardBy (s : DodagState UInt16) (dios : List (Nat × UInt16)) : DodagState UInt16 :=
  dios.foldl (fun s dio =>
    (s.processDio sampleLink .inserted (sampleDio dio.2) (sampleAddr dio.1) 1).2) s

theorem first_dio_listed :
    let result := sampleNode.processDio sampleLink .inserted (sampleDio 256) (sampleAddr 0) 1
    result.1 = .accepted ∧ result.2.parents.containsKey (sampleAddr 0) = true :=
  ⟨by decide +kernel, (accepted_dio_listed_iff sampleLink .inserted sampleNode
    (.node 0 sampleNeighbor 0) [] (sampleDio 256) (sampleAddr 0) 1 false _
    (Prod.ext (by decide +kernel) rfl)).mpr (.inr ⟨.inr (by decide +kernel),
      stays_of_new rfl rfl rfl (by decide +kernel)⟩)⟩

/-- A seventeenth sender is accepted and not listed, and so is the preferred parent with a worse rank
when the node takes the rank of another parent. -/
theorem accepted_dio_dropped :
    let crowded := (heardBy sampleNode ((List.range 16).map (·, 256))).processDio sampleLink
      .inserted (sampleDio 256) (sampleAddr 16) 1
    let switched := (heardBy sampleNode [(0, 612), (1, 430)]).processDio sampleLink .inserted
      (sampleDio 700) (sampleAddr 0) 1
    crowded.1 = .accepted ∧ crowded.2.parents.containsKey (sampleAddr 16) = false ∧
      switched.1 = .accepted ∧ switched.2.parents.containsKey (sampleAddr 0) = false := by
  decide +kernel

end DodagState

end Lichen.Rpl
