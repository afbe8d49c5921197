import Lichen.Gateway.CapabilityAnnounce
import Lichen.Lib.Run

namespace Lichen.Gateway

open Lichen.Client Lichen.Core Lichen.Lib

namespace CapabilityTable

variable {table : CapabilityTable} {iid : Iid}

theorem get_raiseSeqFloor :
    (table.raiseSeqFloor iid seq).seqFloors.get other =
      if other = iid then some (max ((table.seqFloors.get iid).getD seq) seq)
      else table.seqFloors.get other := by
  rw [raiseSeqFloor, HashMap.get_insert]
  split
  · congr 1
    split <;> omega
  · rfl

@[simp] theorem slots_raiseSeqFloor : (table.raiseSeqFloor iid seq).slots = table.slots := rfl

section

variable (h : table.seqFloors.len ≤ capabilityTableCapacity)

include h

theorem dropStale_of_le : dropStale o fuel table = table := by
  cases fuel with
  | zero => rfl
  | succ => exact if_neg (Nat.not_lt.mpr h)

theorem boundSeqFloors_of_le : table.boundSeqFloors o = table :=
  dropStale_of_le h

end

theorem evictLru_eq_some (h : table.evictLru o allowEgress = some next) :
    ∃ victim slot, table.slots.get victim = some slot ∧
      let bounded := (table.raiseSeqFloor victim slot.entry.seq).boundSeqFloors o
      next = { bounded with slots := bounded.slots.remove victim } := by
  rw [evictLru] at h
  split at h
  · rename_i victim slot hmin
    cases h
    have hmem := List.mem_of_mem_filter (List.argmin_mem hmin)
    exact ⟨victim, slot, (HashMap.mem_iter o).mp hmem, rfl⟩
  · cases h

theorem makeRoom_eq_some (h : table.makeRoom o egress = some next) :
    next = table ∨ ∃ allowEgress, table.evictLru o allowEgress = some next := by
  rw [makeRoom] at h
  split at h
  · exact .inr ⟨egress, h⟩
  split at h
  · exact .inr ⟨false, h⟩
  · cases h
    exact .inl rfl

theorem insert_cases (table : CapabilityTable) (o : HashOrder) (entry : CapabilityEntry) :
    let ticked := { table with tick := table.tick + 1 }
    table.insert o entry = (false, ticked) ∨
    table.insert o entry = (true, { ticked with
      slots := table.slots.insert entry.iid ⟨entry, ticked.tick⟩ }.raiseSeqFloor entry.iid entry.seq) ∨
    ∃ room, ticked.makeRoom o entry.isEgress = some room ∧
      let bounded := (room.raiseSeqFloor entry.iid entry.seq).boundSeqFloors o
      table.insert o entry = (true, { bounded with
        slots := bounded.slots.insert entry.iid ⟨entry, ticked.tick⟩ }) := by
  intro ticked
  rw [insert]
  split
  · split
    · exact .inl rfl
    · exact .inr (.inl rfl)
  · split
    · exact .inl rfl
    · rename_i room hroom
      exact .inr (.inr ⟨room, hroom, rfl⟩)

theorem le_cachedSeq (h : table.seqFloors.get iid = some floor) :
    ∃ cached, table.cachedSeq iid = some cached ∧ floor ≤ cached := by
  rw [cachedSeq, h]
  cases (table.slots.get iid).map (·.entry.seq) with
  | some entry => exact ⟨_, rfl, Nat.le_max_right entry floor⟩
  | none => exact ⟨floor, rfl, Nat.le_refl floor⟩

theorem cachedSeq_of_absent (hslot : table.slots.get iid = none)
    (hfloor : table.seqFloors.get iid = none) : table.cachedSeq iid = none := by
  rw [cachedSeq, hslot, hfloor]
  rfl

/-- All IIDs of the table are among the announcers, and every insertion has its floor. -/
structure Covered (announcers : Finset Iid) (inserted : List (Iid × Nat)) (table : CapabilityTable) :
    Prop where
  floors : ∀ iid floor, table.seqFloors.get iid = some floor → iid ∈ announcers
  slots : ∀ iid slot, table.slots.get iid = some slot → iid ∈ announcers
  covered : ∀ entry ∈ inserted, ∃ floor, table.seqFloors.get entry.1 = some floor ∧ entry.2 ≤ floor

variable {announcers : Finset Iid} {inserted : List (Iid × Nat)}

theorem covered_new : Covered announcers [] new :=
  ⟨nofun, nofun, nofun⟩

theorem Covered.boundSeqFloors (h : Covered announcers inserted table)
    (hcard : announcers.card ≤ capabilityTableCapacity) : table.boundSeqFloors o = table :=
  boundSeqFloors_of_le (Nat.le_trans (HashMap.len_le_card h.floors) hcard)

theorem Covered.raise (h : Covered announcers inserted table) (iid : Iid) (seq : Nat)
    (hiid : iid ∈ announcers) :
    Covered announcers (inserted ++ [(iid, seq)]) (table.raiseSeqFloor iid seq) where
  floors other floor hfloor := by
    rw [get_raiseSeqFloor] at hfloor
    split at hfloor
    · rename_i heq
      exact heq ▸ hiid
    · exact h.floors other floor hfloor
  slots := h.slots
  covered entry hentry := by
    rw [get_raiseSeqFloor]
    obtain hold | hnew := List.mem_append.mp hentry
    · obtain ⟨floor, hfloor, hle⟩ := h.covered entry hold
      split
      · rename_i heq
        rw [heq] at hfloor
        rw [hfloor]
        exact ⟨_, rfl, Nat.le_trans hle (Nat.le_max_left floor seq)⟩
      · exact ⟨floor, hfloor, hle⟩
    · rw [List.mem_singleton.mp hnew, if_pos rfl]
      exact ⟨_, rfl, Nat.le_max_right _ seq⟩

theorem Covered.of_append
    (h : Covered announcers (inserted ++ more) table) : Covered announcers inserted table :=
  { h with covered := fun entry hentry => h.covered entry (List.mem_append_left more hentry) }

section

variable (h : Covered announcers inserted table)

include h

theorem Covered.evictLru (hcard : announcers.card ≤ capabilityTableCapacity)
    (hevict : table.evictLru o allowEgress = some next) : Covered announcers inserted next := by
  obtain ⟨victim, slot, hslot, hnext⟩ := evictLru_eq_some hevict
  have hraised := h.raise victim slot.entry.seq (h.slots victim slot hslot)
  rw [hnext, hraised.boundSeqFloors hcard]
  refine { hraised.of_append with slots := fun other kept hkept => ?_ }
  exact h.slots other kept (HashMap.get_of_get_remove hkept).2

theorem Covered.makeRoom (hcard : announcers.card ≤ capabilityTableCapacity)
    (hroom : table.makeRoom o egress = some next) : Covered announcers inserted next := by
  obtain rfl | ⟨_, hevict⟩ := makeRoom_eq_some hroom
  · exact h
  · exact h.evictLru hcard hevict

theorem Covered.insertSlot (hiid : iid ∈ announcers)
    (slot : CapabilitySlot) :
    Covered announcers inserted { table with slots := table.slots.insert iid slot } :=
  { h with
    slots := fun other kept hkept => by
      obtain ⟨rfl, -⟩ | ⟨-, hkept⟩ := HashMap.get_of_get_insert hkept
      · exact hiid
      · exact h.slots other kept hkept }

theorem Covered.insert (hcard : announcers.card ≤ capabilityTableCapacity) (entry : CapabilityEntry)
    (hentry : entry.iid ∈ announcers) : Covered announcers
      (if (table.insert o entry).1 then inserted ++ [(entry.iid, entry.seq)] else inserted)
      (table.insert o entry).2 := by
  have hticked : Covered announcers inserted { table with tick := table.tick + 1 } :=
    ⟨h.floors, h.slots, h.covered⟩
  obtain hinsert | hinsert | ⟨_, hroom, hinsert⟩ := table.insert_cases o entry
  · rw [hinsert]
    exact hticked
  · rw [hinsert]
    exact (hticked.insertSlot hentry _).raise entry.iid entry.seq hentry
  · have hraised := (hticked.makeRoom hcard hroom).raise entry.iid entry.seq hentry
    rw [hraised.boundSeqFloors hcard] at hinsert
    rw [hinsert]
    exact hraised.insertSlot hentry _

end

end CapabilityTable

theorem verifyAnnouncement_eq_ok :
    verifyAnnouncement crypto ciborium announcement pubkey now cachedSeq = .ok () ↔
      announcement.payload.capabilities &&& reservedBitsMask = 0 ∧
      announcement.payload.announcerIid = iidFromPubkeyBytes crypto pubkey ∧
      crypto.verify pubkey (sigStructureDigest crypto ciborium announcement.protectedHeader
        announcement.payloadBytes).toList announcement.signature = true ∧
      now < announcement.payload.expiry ∧ cachedSeq.any (announcement.payload.seq ≤ ·) = false := by
  simp only [verifyAnnouncement, guard_eq_ok]
  refine and_congr not_not (and_congr not_not (and_congr ?_ (and_congr Nat.not_le ?_)))
  · rw [Bool.not_eq_true', Bool.not_eq_false]
  · rw [← Bool.not_eq_true]
    exact ite_error_eq_ok.trans (and_iff_left rfl)

/-- What one request can do: answer without a change, or insert an announcement that passed the
replay check. -/
theorem handlePostCapabilityAnnounce_cases :
    (∃ response, response ≠ .changed ∧
      handlePostCapabilityAnnounce crypto ciborium table post = (response, table)) ∨
    ∃ announcement, fromCoseSign1 ciborium post.payload = .ok announcement ∧
      (table.cachedSeq announcement.payload.announcerIid).any
        (announcement.payload.seq ≤ ·) = false ∧
      handlePostCapabilityAnnounce crypto ciborium table post =
        (if (table.insert post.order announcement.intoEntry).1 then .changed
          else .serviceUnavailable, (table.insert post.order announcement.intoEntry).2) := by
  rw [handlePostCapabilityAnnounce]
  split
  · exact .inl ⟨.unauthorized, nofun, rfl⟩
  split
  · exact .inl ⟨.unauthorized, nofun, rfl⟩
  split
  · exact .inl ⟨.forbidden, nofun, rfl⟩
  rename_i pubkey _ announcement hdecode
  dsimp only
  split
  · exact .inl ⟨.forbidden, nofun, rfl⟩
  rename_i hverify
  refine .inr ⟨announcement, hdecode, (verifyAnnouncement_eq_ok.mp hverify).2.2.2.2, ?_⟩
  cases table.insert post.order announcement.intoEntry with
  | mk inserted next => cases inserted <;> rfl

/-- A table with the announcer and sequence of each announcement that was inserted, in order. -/
structure CapabilityWatch where
  table : CapabilityTable
  inserted : List (Iid × Nat)

namespace CapabilityWatch

open CapabilityTable

def new : CapabilityWatch := ⟨.new, []⟩

variable {F : Type} (crypto : Crypto) (ciborium : Ciborium F)

def step (watch : CapabilityWatch) (post : AnnouncePost) : CapabilityWatch :=
  let (response, table) := handlePostCapabilityAnnounce crypto ciborium watch.table post
  match fromCoseSign1 ciborium post.payload with
  | .ok announcement =>
    let payload := announcement.payload
    ⟨table, if response = .changed then watch.inserted ++ [(payload.announcerIid, payload.seq)]
      else watch.inserted⟩
  | .error _ => ⟨table, watch.inserted⟩

def Rising (inserted : List (Iid × Nat)) : Prop :=
  inserted.Pairwise fun earlier later => earlier.1 = later.1 → earlier.2 < later.2

variable {crypto ciborium} {watch : CapabilityWatch} {post : AnnouncePost}

theorem step_cases :
    step crypto ciborium watch post = watch ∨
    ∃ announcement, fromCoseSign1 ciborium post.payload = .ok announcement ∧
      let entry := announcement.intoEntry
      (watch.table.cachedSeq entry.iid).any (entry.seq ≤ ·) = false ∧
      step crypto ciborium watch post = ⟨(watch.table.insert post.order entry).2,
        if (watch.table.insert post.order entry).1 then watch.inserted ++ [(entry.iid, entry.seq)]
        else watch.inserted⟩ := by
  obtain ⟨_, hresponse, hpost⟩ | ⟨announcement, hdecode, hfresh, hpost⟩ :=
    handlePostCapabilityAnnounce_cases
  · left
    rw [step, hpost]
    cases fromCoseSign1 ciborium post.payload with
    | ok => simp [hresponse]
    | error => rfl
  · right
    refine ⟨announcement, hdecode, hfresh, ?_⟩
    rw [step, hpost, hdecode]
    cases (watch.table.insert post.order announcement.intoEntry).1 <;> rfl

theorem rising_step (hcard : announcers.card ≤ 256)
    (hposted : ∀ announcement, fromCoseSign1 ciborium post.payload = .ok announcement →
      announcement.payload.announcerIid ∈ announcers)
    (h : Covered announcers watch.inserted watch.table ∧ Rising watch.inserted) :
    let next := step crypto ciborium watch post
    Covered announcers next.inserted next.table ∧ Rising next.inserted := by
  intro next
  obtain hsame | ⟨announcement, hdecode, hfresh, hstep⟩ :=
    step_cases
  · rw [show next = watch from hsame]
    exact h
  rw [show next = _ from hstep]
  refine ⟨h.1.insert hcard _ (hposted announcement hdecode), ?_⟩
  split
  · refine List.pairwise_append.mpr ⟨h.2, List.pairwise_singleton _ _, ?_⟩
    intro earlier hearlier later hlater heq
    rw [List.mem_singleton.mp hlater] at heq ⊢
    obtain ⟨_, hfloor, hle⟩ := h.1.covered earlier hearlier
    obtain ⟨_, hcached, hfloor⟩ := le_cachedSeq (heq ▸ hfloor)
    rw [hcached, Option.any_some, decide_eq_false_iff_not] at hfresh
    exact Nat.lt_of_le_of_lt (Nat.le_trans hle hfloor) (Nat.lt_of_not_le hfresh)
  · exact h.2

/-- With at most 256 announcers no floor is dropped, and sequences of an announcer only rise. -/
theorem rising_of_few_announcers (crypto : Crypto) (ciborium : Ciborium F)
    (announcers : Finset Iid) (hcard : announcers.card ≤ 256) (posts : List AnnouncePost)
    (hposted : ∀ post ∈ posts, ∀ announcement,
      fromCoseSign1 ciborium post.payload = .ok announcement →
        announcement.payload.announcerIid ∈ announcers) :
    (run (step crypto ciborium) new posts).inserted.Pairwise fun earlier later =>
      earlier.1 = later.1 → earlier.2 < later.2 := by
  have hstart : Covered announcers new.inserted new.table ∧ Rising new.inserted :=
    ⟨covered_new, .nil⟩
  have hsteps : Steps (fun _ post => ∀ announcement,
      fromCoseSign1 ciborium post.payload = .ok announcement →
        announcement.payload.announcerIid ∈ announcers) (step crypto ciborium) new posts :=
    steps_of_forall new hposted
  exact (run_invariant_of_steps (I := fun watch : CapabilityWatch =>
    Covered announcers watch.inserted watch.table ∧ Rising watch.inserted)
    (fun _ _ h hposted => rising_step hcard hposted h) hstart posts hsteps).2

def announcerOf (n : Nat) : Iid :=
  ⟨[0, 0, 0, 0, 0, 0, UInt8.ofNat (n / 256), UInt8.ofNat n], rfl⟩

def plainCrypto : Crypto where
  sha256 := toArray 32
  sha512 := toArray 64
  verify := sumVerify

def signatureOf (hi lo : UInt8) : Signature :=
  sumSignature (toArray 32 [0, 0, 0, 0, 0, 0, hi, lo]) (toArray 32 [0, hi, lo, 0]).toList

def plainReader : Ciborium Unit where
  debug _ := ""
  intoWriter
    | .array [_, .bytes protectedBytes, _, .bytes payload] => protectedBytes ++ payload
    | _ => []
  fromReader
    | [_] => .ok (.map [(.integer 1, .integer (-65537))], 1)
    | [hi, lo] => .ok (.array [.bytes [0], .map [(.integer 4, .bytes [0, 0, 0, 0, 0, 0, hi, lo])],
      .bytes [hi, lo, 0], .bytes (signatureOf hi lo).toList], 2)
    | [hi, lo, _] => .ok (.map [(.integer 1, .integer 1), (.integer 2, .bytes []),
      (.integer 3, .integer 0), (.integer 4, .integer 2000), (.integer 5, .integer 1),
      (.integer 6, .bytes [0, 0, 0, 0, 0, 0, hi, lo])], 3)
    | _ => .error ""

def announcementOf (n : Nat) : CapabilityAnnouncement where
  protectedHeader := [0]
  payload := ⟨1, [], 0, 2000, 1, announcerOf n⟩
  payloadBytes := [UInt8.ofNat (n / 256), UInt8.ofNat n, 0]
  signature := signatureOf (UInt8.ofNat (n / 256)) (UInt8.ofNat n)

def postOf (n : Nat) : AnnouncePost where
  payload := [UInt8.ofNat (n / 256), UInt8.ofNat n]
  oscoreVerified := true
  peerPubkey := some (toArray 32 (announcerOf n).toList)
  clock := some 1000
  order := .inserted

theorem fromCoseSign1_eq_ok (hread : readValue ciborium data =
      .ok (.array [.bytes protectedBytes, unprotected, .bytes payloadBytes, .bytes signatureBytes]))
    (hsignature : asArray signatureLen signatureBytes = some signature)
    (halg : checkAlgorithm ciborium protectedBytes = .ok ())
    (hpayload : readCapabilityPayload ciborium payloadBytes = .ok payload)
    (hkid : unprotectedKid unprotected = some payload.announcerIid) :
    fromCoseSign1 ciborium data = .ok ⟨protectedBytes, payload, payloadBytes, signature⟩ := by
  rw [fromCoseSign1, hread]
  simp only [bind, Except.bind, coseParts, malformedUnless, asBytes, hsignature, halg, hpayload,
    hkid]
  exact if_neg fun hne => hne rfl

theorem readCapabilityPayload_plainReader : readCapabilityPayload plainReader [hi, lo, 0] =
      .ok ⟨1, [], 0, 2000, 1, ⟨[0, 0, 0, 0, 0, 0, hi, lo], rfl⟩⟩ := by
  simp [readCapabilityPayload, readValue, plainReader, PayloadFields.take, asInt, asUint,
    malformedUnless, asBytes, asArray, PayloadFields.payload, bind, Except.bind, pure, Except.pure]

theorem fromCoseSign1_postOf :
    fromCoseSign1 plainReader (postOf n).payload = .ok (announcementOf n) :=
  fromCoseSign1_eq_ok rfl rfl rfl readCapabilityPayload_plainReader rfl

theorem rising_of_two_announcers :
    (run (step plainCrypto plainReader) new [postOf 1, postOf 2, postOf 1]).inserted.Pairwise
      fun earlier later => earlier.1 = later.1 → earlier.2 < later.2 := by
  refine rising_of_few_announcers plainCrypto plainReader
    {announcerOf 1, announcerOf 2} (by decide) _ ?_
  intro post hpost announcement hdecode
  obtain ⟨n, hn, rfl⟩ : ∃ n ∈ [1, 2, 1], postOf n = post := List.mem_map.mp hpost
  rw [fromCoseSign1_postOf] at hdecode
  cases hdecode
  clear hpost
  revert n
  decide

end CapabilityWatch

end Lichen.Gateway
