import Lichen.Hal.Redundant
import Lichen.Lib.FirstMatch
import Lichen.Rpl.Persistence

namespace Lichen.Rpl

open Lichen.Core Lichen.Hal Lichen.Lib List

def maxRootSeqKeys : Nat := 16

inductive RootSeqReject
  | replay
  | regression
  | capacity

structure RootSeqEntry where
  dodagId : Ipv6Addr
  inst : UInt8
  rootSeq : UInt64
  deriving DecidableEq

def RootSeqEntry.key (entry : RootSeqEntry) : Ipv6Addr × UInt8 := (entry.dodagId, entry.inst)

/-- The filled slots of the table, which is filled from its front and never cleared. -/
structure RootSeqCache where
  entries : List RootSeqEntry
  deriving DecidableEq

def rootSeqKeys : SlotKeys := ⟨"rpl.rseq.a", "rpl.rseq.b", by decide⟩
def rootSeqMagic : Magic := ⟨[0x52, 0x53, 0x51, 0x31], rfl⟩
def rootSeqEntryLen : Nat := 16 + 1 + 8
def rootSeqPayloadLen : Nat := 1 + maxRootSeqKeys * rootSeqEntryLen
def rootSeqRecordLen : Nat := rootSeqPayloadLen + slotOverhead

inductive RootSeqOpenError (E : Type)
  | missing
  | corrupt
  | storage (error : E)
  deriving DecidableEq

namespace RootSeqCache

section

variable (cache : RootSeqCache)

def cached (key : Ipv6Addr × UInt8) : Option UInt64 :=
  (cache.entries.find? fun entry => entry.key = key).map (·.rootSeq)

def accept (entry : RootSeqEntry) : Except RootSeqReject RootSeqCache :=
  match cache.cached entry.key with
  | some seq =>
    if entry.rootSeq ≤ seq then .error (if entry.rootSeq = seq then .replay else .regression)
    else .ok ⟨upsert (fun known => known.key = entry.key) entry cache.entries⟩
  | none =>
    if cache.entries.length < maxRootSeqKeys then .ok ⟨cache.entries ++ [entry]⟩
    else .error .capacity

def observe (entry : RootSeqEntry) : RootSeqCache :=
  match cache.accept entry with
  | .ok next => next
  | .error _ => cache

end

def encodeEntry (entry : RootSeqEntry) : Bytes :=
  entry.dodagId.toList ++ entry.inst :: beBytes 8 entry.rootSeq.toNat

def encode (cache : RootSeqCache) : Bytes :=
  UInt8.ofNat cache.entries.length :: cache.entries.flatMap encodeEntry

def decodeEntries : Nat → Bytes → RootSeqCache → Option RootSeqCache
  | 0, _, cache => some cache
  | count + 1, payload, cache =>
    let dodagId := toArray 16 (payload.take 16)
    let inst := payload.getD 16 0
    let rootSeq := UInt64.ofNat (beNat (payload.extract 17 25))
    if rootSeq = 0 ∨ (cache.cached (dodagId, inst)).isSome then none
    else decodeEntries count (payload.drop 25) ⟨cache.entries ++ [⟨dodagId, inst, rootSeq⟩]⟩

def decode : Bytes → Option RootSeqCache
  | [] => none
  | first :: payload =>
    let count := first.toNat
    if count > maxRootSeqKeys ∨ 1 + payload.length ≠ 1 + count * rootSeqEntryLen then none
    else decodeEntries count payload ⟨[]⟩

section

variable {S E : Type} [NonVolatile S E]

def «open» (storage : S) : Except (RootSeqOpenError E) (RootSeqCache × RedundantValue) :=
  match openRedundant storage rootSeqKeys rootSeqMagic rootSeqRecordLen rootSeqRecordLen
      rootSeqPayloadLen with
  | .error .missing => .error .missing
  | .error (.storage error) => .error (.storage error)
  | .error _ => .error .corrupt
  | .ok (current, payload) =>
    match decode payload with
    | some cache => .ok (cache, current)
    | none => .error .corrupt

def persist (cache : RootSeqCache) (storage : S) (current : RedundantValue) :
    Option (Except (RedundantUpdateError E) RedundantValue) × S :=
  updateRedundant storage rootSeqKeys rootSeqMagic current cache.encode rootSeqRecordLen

end

structure Distinct (cache : RootSeqCache) : Prop where
  nodup : (cache.entries.map RootSeqEntry.key).Nodup
  length : cache.entries.length ≤ maxRootSeqKeys

variable {cache : RootSeqCache} {entry : RootSeqEntry}

theorem cached_eq_none : cache.cached entry.key = none ↔
    entry.key ∉ cache.entries.map RootSeqEntry.key := by
  simp only [cached, Option.map_eq_none_iff, List.find?_eq_none, decide_eq_true_eq, mem_map,
    not_exists, not_and]

theorem Distinct.cached_zero_iff (h : cache.Distinct) :
    (∀ key, cache.cached key ≠ some 0) ↔ ∀ entry ∈ cache.entries, entry.rootSeq ≠ 0 := by
  simp only [cached, ne_eq, Option.map_eq_some_iff, not_exists, not_and]
  constructor
  · intro hcached entry hmem
    cases hfind : cache.entries.find? fun known => known.key = entry.key with
    | none => exact absurd (List.find?_eq_none.mp hfind entry hmem) (by simp)
    | some known =>
      have hkey : known.key = entry.key := by simpa using List.find?_some hfind
      have heq := inj_on_of_nodup_map h.nodup (mem_of_find?_eq_some hfind) hmem hkey
      exact heq ▸ hcached entry.key known hfind
  · exact fun hnonzero key known hfind => hnonzero known (mem_of_find?_eq_some hfind)

theorem map_key_upsert (h : entry.key ∈ l.map RootSeqEntry.key) :
    (upsert (fun known => known.key = entry.key) entry l).map RootSeqEntry.key =
      l.map RootSeqEntry.key := by
  induction l with
  | nil => simp at h
  | cons known l ih => grind [upsert]

theorem mem_upsert (h : known ∈ upsert p entry l) : known = entry ∨ known ∈ l := by
  induction l with
  | nil => simpa [upsert] using h
  | cons first l ih => grind [upsert]

theorem Distinct.accept {next : RootSeqCache} (h : cache.Distinct)
    (hnext : cache.accept entry = .ok next) :
    next.Distinct ∧ ∀ known ∈ next.entries, known = entry ∨ known ∈ cache.entries := by
  rw [RootSeqCache.accept] at hnext
  split at hnext
  · rename_i hcached
    have hmem : entry.key ∈ cache.entries.map RootSeqEntry.key :=
      not_not.mp fun hnot => by simp [cached_eq_none.mpr hnot] at hcached
    have hkeys := map_key_upsert hmem
    have hlength := congrArg List.length hkeys
    rw [length_map, length_map] at hlength
    split at hnext
    · cases hnext
    · cases hnext
      exact ⟨⟨hkeys ▸ h.nodup, hlength ▸ h.length⟩, fun _ => mem_upsert⟩
  · rename_i hcached
    split at hnext
    · cases hnext
      refine ⟨⟨?_, by simpa using ‹_›⟩, fun known => by simp [or_comm]⟩
      have hnot := cached_eq_none.mp hcached
      rw [map_append, map_singleton, ← concat_eq_append]
      exact h.nodup.concat hnot
    · cases hnext

theorem Distinct.observe (h : cache.Distinct) (entry : RootSeqEntry) :
    (cache.observe entry).Distinct ∧
      ∀ known ∈ (cache.observe entry).entries, known = entry ∨ known ∈ cache.entries := by
  rw [RootSeqCache.observe]
  split
  · exact h.accept ‹_›
  · exact ⟨h, fun _ => .inr⟩

theorem distinct_empty : Distinct ⟨[]⟩ := ⟨.nil, Nat.zero_le _⟩

theorem distinct_run (calls : List RootSeqEntry) :
    (run observe ⟨[]⟩ calls).Distinct ∧ ∀ known ∈ (run observe ⟨[]⟩ calls).entries, known ∈ calls := by
  refine run_invariant_history (I := fun calls (cache : RootSeqCache) =>
    cache.Distinct ∧ ∀ known ∈ cache.entries, known ∈ calls) ?_ ⟨distinct_empty, nofun⟩ calls
  rintro calls cache entry ⟨h, hknown⟩
  obtain ⟨hnext, hmem⟩ := h.observe entry
  refine ⟨hnext, fun known hentry => mem_append.mpr ?_⟩
  exact (hmem known hentry).symm.imp (hknown known) mem_singleton.mpr

theorem length_encodeEntry (entry : RootSeqEntry) : (encodeEntry entry).length = 25 := by
  simp [encodeEntry]

theorem decodeEntries_flatMap (l : List RootSeqEntry) (cache : RootSeqCache)
    (hnodup : ((cache.entries ++ l).map RootSeqEntry.key).Nodup) :
    decodeEntries l.length (l.flatMap encodeEntry) cache =
      if ∀ entry ∈ l, entry.rootSeq ≠ 0 then some ⟨cache.entries ++ l⟩ else none := by
  induction l generalizing cache with
  | nil => simp [decodeEntries]
  | cons entry l ih =>
    have htake : (encodeEntry entry ++ l.flatMap encodeEntry).take 16 = entry.dodagId.toList := by
      rw [encodeEntry, append_assoc, take_left' entry.dodagId.toList_length]
    have hinst : (encodeEntry entry ++ l.flatMap encodeEntry).getD 16 0 = entry.inst := by
      simp [encodeEntry]
    have hseq : (encodeEntry entry ++ l.flatMap encodeEntry).extract 17 25 =
        beBytes 8 entry.rootSeq.toNat := by
      rw [show encodeEntry entry ++ l.flatMap encodeEntry = (entry.dodagId.toList ++ [entry.inst]) ++
        (beBytes 8 entry.rootSeq.toNat ++ l.flatMap encodeEntry) by simp [encodeEntry]]
      exact extract_field (by simp) (by simp)
    have hvalue : beNat (beBytes 8 entry.rootSeq.toNat) = entry.rootSeq.toNat :=
      beNat_beBytes_of_lt entry.rootSeq.toNat_lt
    have hnew : cache.cached (entry.dodagId, entry.inst) = none := by
      apply cached_eq_none.mpr
      rw [map_append, nodup_append] at hnodup
      exact fun hmem => hnodup.2.2 _ hmem _ (by simp) rfl
    rw [flatMap_cons, length_cons, decodeEntries, htake, hinst, hseq, hvalue,
      toArray_toList, UInt64.ofNat_toNat, hnew, drop_left' (length_encodeEntry entry)]
    by_cases hzero : entry.rootSeq = 0
    · simp [hzero]
    · simp only [hzero, Option.isSome_none, Bool.false_eq_true, or_self, if_false]
      rw [ih _ (by simpa using hnodup)]
      simp [hzero]

theorem decode_encode (h : cache.Distinct) : decode cache.encode =
    if ∀ entry ∈ cache.entries, entry.rootSeq ≠ 0 then some cache else none := by
  have hcount : (UInt8.ofNat cache.entries.length).toNat = cache.entries.length :=
    UInt8.toNat_ofNat_of_lt (Nat.lt_of_le_of_lt h.length (by decide))
  have hlength : (cache.entries.flatMap encodeEntry).length = cache.entries.length * 25 := by
    simp [length_flatMap, length_encodeEntry]
  rw [encode, decode, hcount, hlength, if_neg]
  · simpa using decodeEntries_flatMap cache.entries ⟨[]⟩ (by simpa using h.nodup)
  · have hle := h.length
    simp only [rootSeqEntryLen, not_or]
    omega

theorem length_encode_le (h : cache.Distinct) : cache.encode.length ≤ rootSeqPayloadLen := by
  have hle := h.length
  simp [encode, length_flatMap, length_encodeEntry, rootSeqPayloadLen, rootSeqEntryLen] at *
  omega

/-- What was persisted is opened again exactly if no cached sequence is zero, as none is when no call
has a zero. -/
theorem open_persist_iff (calls : List RootSeqEntry) {E : Type}
    (storage storage' : Flash E rootSeqMagic) (current value : RedundantValue)
    (hpersist : (run observe ⟨[]⟩ calls).persist storage current = (some (.ok value), storage')) :
    ((∃ cache, RootSeqCache.open storage' = .ok (cache, value) ∧
      ∀ key, cache.cached key = (run observe ⟨[]⟩ calls).cached key) ↔
        ∀ key, (run observe ⟨[]⟩ calls).cached key ≠ some 0) ∧
    ((∀ entry ∈ calls, entry.rootSeq ≠ 0) →
      ∀ key, (run observe ⟨[]⟩ calls).cached key ≠ some 0) := by
  obtain ⟨hdistinct, hcalls⟩ := distinct_run calls
  have hopen := Flash.open_of_update (length_encode_le hdistinct) hpersist
  refine ⟨?_, fun h => hdistinct.cached_zero_iff.mpr fun entry hmem => h entry (hcalls entry hmem)⟩
  rw [RootSeqCache.open, hopen]
  dsimp only
  rw [decode_encode hdistinct, hdistinct.cached_zero_iff]
  by_cases hnonzero : ∀ entry ∈ (run observe ⟨[]⟩ calls).entries, entry.rootSeq ≠ 0
  · rw [if_pos hnonzero]
    exact iff_of_true ⟨_, rfl, fun _ => rfl⟩ hnonzero
  · rw [if_neg hnonzero]
    refine iff_of_false ?_ hnonzero
    rintro ⟨_, ⟨⟩, _⟩

def provisioned : Flash Unit rootSeqMagic :=
  (provisionRedundant ⟨fun _ => none, .complete⟩ rootSeqKeys rootSeqMagic (encode ⟨[]⟩)
    rootSeqRecordLen).2

def observedSeq (rootSeq : UInt64) : RootSeqEntry := ⟨toArray 16 [], 0, rootSeq⟩

theorem open_persist_of_two :
    let persisted := (run observe ⟨[]⟩ [observedSeq 1, observedSeq 2]).persist provisioned ⟨1, 0, 1⟩
    ∃ cache, RootSeqCache.open persisted.2 = .ok (cache, ⟨2, 1, 26⟩) ∧
      ∀ key, cache.cached key = (run observe ⟨[]⟩ [observedSeq 1, observedSeq 2]).cached key := by
  intro persisted
  have hok : persisted.1 = some (.ok ⟨2, 1, 26⟩) := by decide +kernel
  obtain ⟨hiff, hnonzero⟩ :=
    open_persist_iff _ provisioned persisted.2 ⟨1, 0, 1⟩ _ (Prod.fst_eq_iff.mp hok)
  exact hiff.mpr (hnonzero (by decide))

/-- A first sequence of zero is accepted and persisted, and the record cannot be opened. -/
theorem not_open_of_zero :
    let persisted := (run observe ⟨[]⟩ [observedSeq 0]).persist provisioned ⟨1, 0, 1⟩
    persisted.1 = some (.ok ⟨2, 1, 26⟩) ∧ RootSeqCache.open persisted.2 = .error .corrupt := by
  decide +kernel

end RootSeqCache

end Lichen.Rpl
