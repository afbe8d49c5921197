import Lichen.Gateway.CapabilityReplay

namespace Lichen.Gateway

open Lichen.Client Lichen.Core Lichen.Lib List HashMap

namespace CapabilityTable

variable {table : CapabilityTable} {entry : CapabilityEntry}

theorem exists_makeRoom (table : CapabilityTable) (hpos : 0 < table.slots.len) (o : HashOrder) :
    ∃ room, table.makeRoom o true = some room := by
  rw [makeRoom]
  split
  · rw [evictLru]
    split
    · exact ⟨_, rfl⟩
    · rename_i hnone
      simp only [Bool.true_or, filter_true, argmin_eq_none] at hnone
      have hlen := length_keys table.slots o
      rw [HashMap.keys, hnone] at hlen
      exact absurd hpos (Nat.not_lt.mpr hlen.ge)
  · exact ⟨table, if_neg fun h => Bool.noConfusion h.1⟩

theorem raiseSeqFloor_of_absent (h : table.seqFloors.get iid = none) :
    table.raiseSeqFloor iid seq = { table with seqFloors := table.seqFloors.insert iid seq } := by
  rw [raiseSeqFloor, h]
  exact congrArg (CapabilityTable.mk _ · _) (congrArg _ (if_neg (Nat.lt_irrefl seq)))

section

variable (hentry : entry.isEgress = true) (habsent : table.slots.get entry.iid = none)

include hentry habsent

theorem insert_of_absent (hroom : { table with tick := table.tick + 1 }.makeRoom o true = some room) :
    let bounded := (room.raiseSeqFloor entry.iid entry.seq).boundSeqFloors o
    table.insert o entry = (true, { bounded with
      slots := bounded.slots.insert entry.iid ⟨entry, table.tick + 1⟩ }) := by
  rw [insert]
  rw [habsent]
  rw [hentry, hroom]

theorem insert_of_room (hfloor : table.seqFloors.get entry.iid = none)
    (hslots : table.slots.len < capabilityTableCapacity)
    (hfloors : table.seqFloors.len < capabilityTableCapacity) :
    table.insert o entry = (true, ⟨table.slots.insert entry.iid ⟨entry, table.tick + 1⟩,
      table.seqFloors.insert entry.iid entry.seq, table.tick + 1⟩) := by
  have hroom : { table with tick := table.tick + 1 }.makeRoom o true =
      some { table with tick := table.tick + 1 } := by
    rw [makeRoom]
    exact (if_neg (Nat.not_le.mpr hslots)).trans (if_neg fun h => Bool.noConfusion h.1)
  have hraise : { table with tick := table.tick + 1 }.raiseSeqFloor entry.iid entry.seq = _ :=
    raiseSeqFloor_of_absent hfloor
  rw [insert_of_absent hentry habsent hroom, hraise, boundSeqFloors_of_le]
  exact (len_insert_of_get_none hfloor).trans_le hfloors

end

theorem boundSeqFloors_of_over (hlen : table.seqFloors.len = capabilityTableCapacity + 1)
    (hfloor : table.seqFloors.get stale = some floor) (hstale : table.slots.get stale = none) :
    ∃ victim, (∃ floor, table.seqFloors.get victim = some floor) ∧
      table.slots.get victim = none ∧ beNat victim.toList ≤ beNat stale.toList ∧
      table.boundSeqFloors o = { table with seqFloors := table.seqFloors.remove victim } := by
  have hmem : (stale, floor) ∈ (table.seqFloors.iter o).filter
      fun floor => !table.slots.containsKey floor.1 := by
    rw [mem_filter, mem_iter, HashMap.containsKey, hstale]
    exact ⟨hfloor, rfl⟩
  obtain ⟨least, hmin⟩ := Option.ne_none_iff_exists'.mp
    ((argmin_eq_none (f := fun floor => beNat floor.1.toList)).not.mpr (ne_nil_of_mem hmem))
  obtain ⟨hin, hout⟩ := mem_filter.mp (argmin_mem hmin)
  have hleast := (mem_iter o).mp hin
  have hvictim : table.staleFloor o = some least.1 := congrArg (Option.map Prod.fst) hmin
  have hle := le_of_mem_argmin hmem hmin
  refine ⟨least.1, ⟨least.2, hleast⟩, ?_, hle, ?_⟩
  · rw [HashMap.containsKey, Bool.not_eq_true', Option.isSome_eq_false_iff,
      Option.isNone_iff_eq_none] at hout
    exact hout
  · have hremoved := len_remove_of_get hleast
    rw [hlen] at hremoved
    rw [boundSeqFloors, hlen, dropStale, if_pos (by omega), hvictim]
    exact dropStale_of_le (Nat.le_of_eq (Nat.succ.inj hremoved))

/-- A full table has a full ledger, so a new announcer with the highest IID costs the ledger an
announcer that is not in the table any more. -/
theorem insert_over (hentry : entry.isEgress = true)
    (hslots : table.slots.len = capabilityTableCapacity)
    (hfloors : table.seqFloors.len = capabilityTableCapacity)
    (hkeys : ∀ iid slot, table.slots.get iid = some slot →
      ∃ floor, table.seqFloors.get iid = some floor)
    (hhigh : ∀ iid floor, table.seqFloors.get iid = some floor →
      beNat iid.toList < beNat entry.iid.toList) (o : HashOrder) :
    ∃ iid next, (∃ floor, table.seqFloors.get iid = some floor) ∧
      table.insert o entry = (true, next) ∧ next.slots.get iid = none ∧
      next.seqFloors.get iid = none ∧ 0 < next.slots.len := by
  have hfloor : table.seqFloors.get entry.iid = none :=
    Option.eq_none_iff_forall_ne_some.mpr fun floor h => Nat.lt_irrefl _ (hhigh _ floor h)
  have habsent : table.slots.get entry.iid = none := by
    refine Option.eq_none_iff_forall_ne_some.mpr fun slot h => ?_
    obtain ⟨floor, h⟩ := hkeys _ slot h
    exact Nat.lt_irrefl _ (hhigh _ floor h)
  obtain ⟨room, hroom⟩ := exists_makeRoom { table with tick := table.tick + 1 }
    (hslots ▸ by decide) o
  have hevict := hroom
  rw [makeRoom, if_pos hslots.ge] at hevict
  obtain ⟨victim, slot, hslot, hnext⟩ := evictLru_eq_some hevict
  obtain ⟨floor, hvictim⟩ := hkeys victim slot hslot
  rw [boundSeqFloors_of_le ((len_insert_of_get hvictim).trans_le hfloors.le)] at hnext
  have hget : ∀ iid ≠ victim, room.seqFloors.get iid = table.seqFloors.get iid := by
    intro iid hne
    rw [hnext]
    exact get_raiseSeqFloor.trans (if_neg hne)
  have hne : entry.iid ≠ victim := by
    rintro rfl
    rw [hvictim] at hfloor
    cases hfloor
  have hlen : (room.raiseSeqFloor entry.iid entry.seq).seqFloors.len =
      capabilityTableCapacity + 1 := by
    refine (len_insert_of_get_none ((hget _ hne).trans hfloor)).trans (congrArg (· + 1) ?_)
    rw [hnext]
    exact (len_insert_of_get hvictim).trans hfloors
  have hstale : (room.raiseSeqFloor entry.iid entry.seq).slots.get victim = none := by
    rw [slots_raiseSeqFloor, hnext]
    exact get_remove_self _ _
  obtain ⟨least, ⟨_, hleast⟩, hslot, hle, hbound⟩ := boundSeqFloors_of_over (o := o) hlen
    (by rw [get_raiseSeqFloor, if_neg hne.symm, hnext]; exact get_raiseSeqFloor.trans (if_pos rfl))
    hstale
  have hother : least ≠ entry.iid := by
    rintro rfl
    exact Nat.not_le.mpr (hhigh victim floor hvictim) hle
  have hold : ∃ floor, table.seqFloors.get least = some floor := by
    by_cases heq : least = victim
    · exact ⟨floor, heq ▸ hvictim⟩
    · rw [get_raiseSeqFloor, if_neg hother, hget least heq] at hleast
      exact ⟨_, hleast⟩
  rw [insert_of_absent hentry habsent hroom, hbound]
  refine ⟨least, _, hold, rfl, ?_, get_remove_self _ _, ?_⟩
  · exact (get_insert_ne _ _ hother).trans hslot
  · exact length_pos_of_mem (mem_keys_of_get (get_insert_self _ _ _))

end CapabilityTable

namespace CapabilityWatch

open CapabilityTable

theorem beNat_announcerOf (h : n < 65536) : beNat (announcerOf n).toList = n := by
  have hlow : (UInt8.ofNat n).toNat = n % 256 := rfl
  have hhigh : (UInt8.ofNat (n / 256)).toNat = n / 256 % 256 := rfl
  have hvalue : beNat (announcerOf n).toList = (UInt8.ofNat (n / 256)).toNat * 256 +
      (UInt8.ofNat n).toNat := by
    simp [announcerOf, beNat]
  rw [hvalue, hlow, hhigh]
  omega

theorem announcerOf_inj (hn : n < 65536) (hm : m < 65536) (h : announcerOf n = announcerOf m) :
    n = m := by
  rw [← beNat_announcerOf hn, h, beNat_announcerOf hm]

/-- A map with a value for each of the first `n` announcers. -/
def flood (f : Nat → β) (n : Nat) : HashMap Iid β :=
  collect ((List.range n).map fun k => (announcerOf k, f k))

theorem flood_succ (f : Nat → β) (n : Nat) :
    flood f (n + 1) = (flood f n).insert (announcerOf n) (f n) := by
  rw [flood, range_succ, map_append, collect, foldl_append]
  rfl

section

variable {f : Nat → β} (hn : n < 65536)

include hn

theorem get_flood : (flood f n).get iid = some v ↔ ∃ k < n, announcerOf k = iid ∧ f k = v := by
  have hnodup : (((List.range n).map fun k => (announcerOf k, f k)).map Prod.fst).Nodup := by
    rw [map_map]
    refine nodup_range.map_on fun k hk m hm => announcerOf_inj ?_ ?_
    · exact (mem_range.mp hk).trans hn
    · exact (mem_range.mp hm).trans hn
  rw [flood, get_collect hnodup]
  simp

theorem get_flood_self : (flood f n).get (announcerOf n) = none := by
  refine Option.eq_none_iff_forall_ne_some.mpr fun v hv => ?_
  obtain ⟨k, hk, heq, -⟩ := (get_flood hn).mp hv
  exact hk.ne (announcerOf_inj (hk.trans hn) hn heq)

theorem len_flood : (flood f n).len = n := by
  induction n with
  | zero => rfl
  | succ n ih =>
    rw [flood_succ, len_insert_of_get_none (get_flood_self (by omega)), ih (by omega)]

end

/-- The table that the first `n` announcers fill. -/
def flooded (n : Nat) : CapabilityTable :=
  ⟨flood (fun k => ⟨(announcementOf k).intoEntry, k + 1⟩) n, flood (fun _ => 1) n, n⟩

theorem isEgress_announcementOf (n : Nat) : (announcementOf n).intoEntry.isEgress = true := by
  change decide ((1 : UInt32) &&& capabilityEgressBit ≠ 0) = true
  decide

theorem cachedSeq_flooded (hn : n < 65536) : (flooded n).cachedSeq (announcerOf n) = none :=
  cachedSeq_of_absent (get_flood_self hn) (get_flood_self hn)

theorem insert_flooded (hn : n < 256) :
    (flooded n).insert o (announcementOf n).intoEntry = (true, flooded (n + 1)) := by
  have hlt : n < 65536 := by omega
  rw [insert_of_room (isEgress_announcementOf n) (get_flood_self hlt) (get_flood_self hlt)
    ((len_flood hlt).trans_lt hn) ((len_flood hlt).trans_lt hn), flooded, flooded, flood_succ,
    flood_succ]
  rfl

theorem insert_flooded_full (hn : n = 256) : ∃ k < n, ∃ next,
    (flooded n).insert o (announcementOf n).intoEntry = (true, next) ∧
      next.slots.get (announcerOf k) = none ∧ next.seqFloors.get (announcerOf k) = none ∧
      0 < next.slots.len := by
  have hlt : n < 65536 := by omega
  have hlen := (len_flood (f := fun _ => 1) hlt).trans hn
  have hkeys : ∀ iid slot, (flooded n).slots.get iid = some slot →
      ∃ floor, (flooded n).seqFloors.get iid = some floor := by
    intro iid slot hslot
    obtain ⟨k, hk, rfl, -⟩ := (get_flood hlt).mp hslot
    exact ⟨1, (get_flood hlt).mpr ⟨k, hk, rfl, rfl⟩⟩
  have hhigh : ∀ iid floor, (flooded n).seqFloors.get iid = some floor →
      beNat iid.toList < beNat (announcerOf n).toList := by
    intro iid floor hfloor
    obtain ⟨k, hk, rfl, -⟩ := (get_flood hlt).mp hfloor
    rwa [beNat_announcerOf (hk.trans hlt), beNat_announcerOf hlt]
  obtain ⟨_, next, ⟨_, hfloor⟩, hinsert⟩ := insert_over (isEgress_announcementOf n)
    ((len_flood hlt).trans hn) hlen hkeys hhigh o
  obtain ⟨k, hk, rfl, -⟩ := (get_flood hlt).mp hfloor
  exact ⟨k, hk, next, hinsert⟩

theorem verify_postOf (n : Nat) : verifyAnnouncement plainCrypto plainReader (announcementOf n)
    (toArray 32 (announcerOf n).toList) 1000 none = .ok () := by
  refine verifyAnnouncement_eq_ok.mpr ⟨(by decide : (1 : UInt32) &&& 0xFC = 0), rfl, ?_,
    (by decide : 1000 < 2000), rfl⟩
  have hverify : plainCrypto.verify = sumVerify := rfl
  have hdigest : sigStructureDigest plainCrypto plainReader (announcementOf n).protectedHeader
      (announcementOf n).payloadBytes =
        toArray 32 [0, UInt8.ofNat (n / 256), UInt8.ofNat n, 0] := rfl
  rw [hverify, hdigest]
  exact sumVerify_sumSignature _ _

theorem step_postOf {next : CapabilityTable} (watch : CapabilityWatch) (n : Nat)
    (hnone : watch.table.cachedSeq (announcerOf n) = none)
    (hinsert : watch.table.insert .inserted (announcementOf n).intoEntry = (true, next)) :
    step plainCrypto plainReader watch (postOf n) =
      ⟨next, watch.inserted ++ [(announcerOf n, 1)]⟩ := by
  have hpost : handlePostCapabilityAnnounce plainCrypto plainReader watch.table (postOf n) =
      (.changed, next) := by
    rw [handlePostCapabilityAnnounce, fromCoseSign1_postOf]
    dsimp only [postOf, Option.getD_some]
    rw [show (announcementOf n).payload.announcerIid = announcerOf n from rfl, hnone, verify_postOf,
      hinsert]
    rfl
  rw [step, hpost, fromCoseSign1_postOf]
  exact congrArg (CapabilityWatch.mk _) (if_pos rfl)

theorem run_flood (hn : n ≤ 256) : run (step plainCrypto plainReader) new
    ((List.range n).map postOf) = ⟨flooded n, (List.range n).map fun k => (announcerOf k, 1)⟩ := by
  induction n with
  | zero => rfl
  | succ n ih =>
    rw [range_succ, map_append, run_append, ih (by omega), map_append]
    exact step_postOf _ n (cachedSeq_flooded (by omega)) (insert_flooded (by omega))

/-- 256 announcers, one more, and one of the first again with its old announcement. -/
theorem replay_of_257_announcers :
    ∃ n < 256, ¬(run (step plainCrypto plainReader) new
      ((List.range 256 ++ [256, n]).map postOf)).inserted.Pairwise fun earlier later =>
        earlier.1 = later.1 → earlier.2 < later.2 := by
  obtain ⟨n, hn, next, hinsert, hslot, hfloor, hpos⟩ := insert_flooded_full rfl
  refine ⟨n, hn, fun hrising => ?_⟩
  obtain ⟨room, hroom⟩ := exists_makeRoom { next with tick := next.tick + 1 } hpos .inserted
  have hlast := step_postOf ⟨flooded 256, (List.range 256).map fun k => (announcerOf k, 1)⟩ 256
    (cachedSeq_flooded (by decide)) hinsert
  rw [map_append, run_append, run_flood le_rfl, map_cons, run_cons, hlast, map_singleton, run_cons,
    step_postOf _ n (cachedSeq_of_absent hslot hfloor)
      (insert_of_absent (isEgress_announcementOf n) hslot hroom)] at hrising
  rw [run_nil, pairwise_append] at hrising
  have hmem : (announcerOf n, 1) ∈ (List.range 256).map fun k => (announcerOf k, 1) :=
    mem_map.mpr ⟨n, mem_range.mpr hn, rfl⟩
  exact Nat.lt_irrefl 1 (hrising.2.2 _ (mem_append_left _ hmem) _ mem_cons_self rfl)

end CapabilityWatch

end Lichen.Gateway
