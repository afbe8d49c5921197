import Lichen.Gateway.TrustStore
import Lichen.Lib.Guard

namespace Lichen.Gateway

open Lichen.Core Lichen.Lib StoreCursor HashMap

variable {crypto : Crypto} {rest bytes : Bytes}

namespace StoreCursor

theorem take_append (h : bs.length = n) : take n (bs ++ rest) = .ok (bs, rest) := by
  rw [take, if_neg (by rw [List.length_append]; omega), List.take_left' h, List.drop_left' h]

theorem array_append : array n (v.toList ++ rest) = .ok (v, rest) := by
  rw [array, bind_apply_of_ok (take_append v.toList_length), toArray_toList]
  rfl

theorem uint_append : uint n (beBytes n v ++ rest) = .ok (v % 256 ^ n, rest) := by
  rw [uint, bind_apply_of_ok (take_append (length_beBytes n v)), beNat_beBytes]
  rfl

theorem u64_append : u64 (beBytes 8 v.toNat ++ rest) = .ok (v, rest) := by
  have hv : v.toNat % 256 ^ 8 = v.toNat := Nat.mod_eq_of_lt v.toNat_lt
  rw [u64, bind_apply_of_ok uint_append, hv, UInt64.ofNat_toNat]
  rfl

theorem trustLevel_cons : trustLevel (level.asU8 :: rest) = .ok (level, rest) := by
  cases level <;> rfl

theorem rest_of_systemTime {seconds : UInt64}
    (h : systemTime (beBytes 8 seconds.toNat ++ rest) = .ok (time, rest')) : rest' = rest := by
  rw [systemTime, bind_apply_of_ok u64_append] at h
  cases htime : systemTimeFromSecs seconds with
  | error =>
    rw [htime] at h
    cases h
  | ok =>
    rw [htime] at h
    cases h
    rfl

end StoreCursor

def PinnedGateway.keyState (entry : PinnedGateway) : PublicKey × UInt64 :=
  (entry.pubkey, entry.rotationSequence)

theorem readPinned_of_encodeEntry (hencode : encodeEntry pinned = .ok bytes)
    (hread : readPinned crypto trustStoreVersion (bytes ++ rest) = .ok (pinned', rest')) :
    pinned'.1 = pinned.1 ∧ pinned'.2.keyState = pinned.2.keyState ∧ rest' = rest := by
  simp only [encodeEntry, bind_eq_ok, pure_eq_ok] at hencode
  obtain ⟨_, -, _, -, rfl⟩ := hencode
  simp only [List.append_assoc, List.cons_append] at hread
  rw [readPinned, bind_apply_of_ok array_append, bind_apply_of_ok array_append] at hread
  simp only [guard_apply_eq_ok] at hread
  rw [bind_apply_of_ok trustLevel_cons, bind_apply_eq_ok] at hread
  obtain ⟨-, _, _, hfirst, hread⟩ := hread
  cases rest_of_systemTime hfirst
  rw [bind_apply_eq_ok] at hread
  obtain ⟨_, _, hlast, hread⟩ := hread
  cases rest_of_systemTime hlast
  rw [bind_apply_of_ok u64_append, if_pos (Nat.le_refl _), bind_apply_of_ok u64_append] at hread
  cases hread
  exact ⟨rfl, rfl, rfl⟩

theorem readPinnedAll_of_encodeEntry {l : List (Iid × PinnedGateway)}
    (hencode : l.mapM encodeEntry = .ok chunks)
    (hread : readPinnedAll crypto trustStoreVersion l.length entries (chunks.flatten ++ rest) =
      .ok (entries', rest')) : rest' = rest ∧ ∃ l' : List (Iid × PinnedGateway),
      l'.map (fun pinned => (pinned.1, pinned.2.keyState)) =
        l.map (fun pinned => (pinned.1, pinned.2.keyState)) ∧
      entries' = l'.foldl (fun entries pinned => entries.insert pinned.1 pinned.2) entries := by
  induction l generalizing chunks entries with
  | nil =>
    cases hencode
    cases hread
    exact ⟨rfl, [], rfl, rfl⟩
  | cons pinned l ih =>
    simp only [List.mapM_cons, bind_eq_ok, pure_eq_ok] at hencode
    obtain ⟨_, hbytes, chunks, hchunks, rfl⟩ := hencode
    rw [List.length_cons, List.flatten_cons, List.append_assoc, readPinnedAll,
      bind_apply_eq_ok] at hread
    obtain ⟨pinned', _, hentry, hread⟩ := hread
    obtain ⟨hiid, hstate, rfl⟩ := readPinned_of_encodeEntry hbytes hentry
    rw [guard_apply_eq_ok] at hread
    obtain ⟨hrest, l', hl', hentries⟩ := ih hchunks hread.2
    refine ⟨hrest, pinned' :: l', ?_, hentries⟩
    rw [List.map_cons, List.map_cons, hl', hiid, hstate]

def TrustStore.keyAt (store : TrustStore) (iid : Iid) : Option (PublicKey × UInt64) :=
  (store.get iid).map PinnedGateway.keyState

structure TrustStore.SameKeys (a b : TrustStore) : Prop where
  generation : a.generation = b.generation
  keyAt : ∀ iid, a.keyAt iid = b.keyAt iid

theorem map_get_collect (h : (l.map Prod.fst).Nodup) {iid : Iid} :
    ((HashMap.collect l).get iid).map PinnedGateway.keyState = some state ↔
      (iid, state) ∈ l.map fun pinned => (pinned.1, pinned.2.keyState) := by
  rw [Option.map_eq_some_iff, List.mem_map]
  constructor
  · rintro ⟨entry, hget, rfl⟩
    exact ⟨(iid, entry), (get_collect h).mp hget, rfl⟩
  · rintro ⟨⟨_, entry⟩, hmem, heq⟩
    cases heq
    exact ⟨entry, (get_collect h).mpr hmem, rfl⟩

theorem TrustStore.sortedEntries_perm (store : TrustStore) :
    store.sortedEntries.Perm store.entries.toPairs :=
  List.mergeSort_perm _ _

theorem TrustStore.length_sortedEntries (store : TrustStore) :
    store.sortedEntries.length = store.entries.len := by
  rw [store.sortedEntries_perm.length_eq, len_eq_toPairs]

theorem TrustStore.mem_sortedEntries_keys {store : TrustStore} :
    (iid, state) ∈ store.sortedEntries.map (fun pinned => (pinned.1, pinned.2.keyState)) ↔
      store.keyAt iid = some state := by
  rw [keyAt, Option.map_eq_some_iff, List.mem_map]
  constructor
  · rintro ⟨⟨_, entry⟩, hmem, heq⟩
    cases heq
    exact ⟨entry, mem_toPairs.mp (store.sortedEntries_perm.mem_iff.mp hmem), rfl⟩
  · rintro ⟨entry, hget, rfl⟩
    exact ⟨(iid, entry), store.sortedEntries_perm.mem_iff.mpr (mem_toPairs.mpr hget), rfl⟩

theorem TrustStore.nodup_sortedEntries (store : TrustStore) :
    (store.sortedEntries.map Prod.fst).Nodup :=
  (store.sortedEntries_perm.map Prod.fst).nodup_iff.mpr (store.entries.nodup_keys .inserted)

theorem readStore_eq_ok (hread : readStore crypto minimumGeneration configuredCapacity
      (trustStoreMagic ++ (beBytes 2 version ++ (beBytes 8 generation.toNat ++
        (beBytes 4 capacity ++ (beBytes 4 count ++ body))))) = .ok (store, rest)) :
    store.generation = generation ∧
      readPinnedAll crypto (version % 256 ^ 2) (count % 256 ^ 4) .new body =
        .ok (store.entries, rest) := by
  rw [readStore, bind_apply_of_ok (take_append (show trustStoreMagic.length = 8 from rfl))] at hread
  simp only [guard_apply_eq_ok] at hread
  rw [bind_apply_of_ok uint_append] at hread
  simp only [guard_apply_eq_ok] at hread
  rw [bind_apply_of_ok u64_append] at hread
  simp only [guard_apply_eq_ok] at hread
  rw [bind_apply_of_ok uint_append] at hread
  simp only [guard_apply_eq_ok] at hread
  rw [bind_apply_of_ok uint_append] at hread
  simp only [guard_apply_eq_ok] at hread
  rw [bind_apply_eq_ok] at hread
  obtain ⟨-, -, -, -, -, entries, _, hentries, hstore⟩ := hread
  cases hstore
  exact ⟨rfl, hentries⟩

theorem TrustStore.sameKeys_of_readStore (hlen : store.entries.len < 256 ^ 4)
    (hencode : store.encodePayload = .ok payload)
    (hread : readStore crypto minimumGeneration configuredCapacity payload = .ok (store', rest)) :
    store'.SameKeys store := by
  simp only [encodePayload, bind_eq_ok, pure_eq_ok] at hencode
  obtain ⟨chunks, hchunks, rfl⟩ := hencode
  obtain ⟨hgeneration, hentries⟩ := readStore_eq_ok hread
  rw [Nat.mod_eq_of_lt hlen, ← store.length_sortedEntries, ← List.append_nil chunks.flatten]
    at hentries
  obtain ⟨-, l, hkeys, hcollect⟩ := readPinnedAll_of_encodeEntry hchunks hentries
  have hnodup : (l.map Prod.fst).Nodup := by
    have hfst := congrArg (List.map Prod.fst) hkeys
    simp only [List.map_map, Function.comp_def] at hfst
    rw [hfst]
    exact store.nodup_sortedEntries
  refine ⟨hgeneration, fun iid => Option.ext fun state => ?_⟩
  calc store'.keyAt iid = some state
      ↔ ((HashMap.collect l).get iid).map PinnedGateway.keyState = some state := by
        rw [keyAt, TrustStore.get, hcollect, HashMap.collect]
    _ ↔ (iid, state) ∈ store.sortedEntries.map (fun pinned => (pinned.1, pinned.2.keyState)) := by
        rw [map_get_collect hnodup, hkeys]
    _ ↔ store.keyAt iid = some state := mem_sortedEntries_keys

structure TrustStore.WellFormed (crypto : Crypto) (store : TrustStore) : Prop where
  capacity : store.maxEntries ≤ maxTrustedGateways
  len : store.entries.len ≤ store.maxEntries
  bound : ∀ iid key sequence, store.keyAt iid = some (key, sequence) →
    iidFromPubkeyBytes crypto key = iid

theorem validateStoreCapacity_eq_ok (h : validateStoreCapacity capacity = .ok ()) :
    capacity ≤ maxTrustedGateways := by
  rw [validateStoreCapacity, ite_error_eq_ok] at h
  exact Nat.le_of_not_lt fun hlt => h.1 (.inr (.inl hlt))

theorem TrustStore.wellFormed_newEphemeral {maxEntries : Nat}
    (h : newEphemeral maxEntries = .ok store) : store.WellFormed crypto := by
  rw [newEphemeral, bind_eq_ok] at h
  obtain ⟨_, hcapacity, hstore⟩ := h
  cases hstore
  exact ⟨validateStoreCapacity_eq_ok hcapacity, Nat.zero_le _, nofun⟩

theorem readPinned_bound (h : readPinned crypto version input = .ok (pinned, rest)) :
    iidFromPubkeyBytes crypto pinned.2.pubkey = pinned.1 := by
  simp only [readPinned, bind_apply_eq_ok, guard_apply_eq_ok] at h
  obtain ⟨_, _, -, pubkey, _, -, hbound, _, _, -, _, _, -, _, _, -, _, _, -, h⟩ := h
  split at h
  · rw [bind_apply_eq_ok] at h
    obtain ⟨_, _, -, h⟩ := h
    cases h
    exact not_not.mp hbound
  · cases h
    exact not_not.mp hbound

theorem readPinnedAll_bound
    (h : readPinnedAll crypto version count entries input = .ok (entries', rest))
    (hbound : ∀ iid entry, entries.get iid = some entry →
      iidFromPubkeyBytes crypto entry.pubkey = iid) :
    entries'.len ≤ entries.len + count ∧ ∀ iid entry, entries'.get iid = some entry →
      iidFromPubkeyBytes crypto entry.pubkey = iid := by
  induction count generalizing entries input with
  | zero =>
    cases h
    exact ⟨Nat.le_refl _, hbound⟩
  | succ count ih =>
    simp only [readPinnedAll, bind_apply_eq_ok, guard_apply_eq_ok] at h
    obtain ⟨pinned, rest₁, hentry, -, h⟩ := h
    have hinsert : ∀ iid entry, (entries.insert pinned.1 pinned.2).get iid = some entry →
        iidFromPubkeyBytes crypto entry.pubkey = iid := by
      intro iid entry hget
      obtain ⟨rfl, rfl⟩ | ⟨-, hget⟩ := get_of_get_insert hget
      · rw [readPinned_bound hentry]
      · exact hbound iid entry hget
    obtain ⟨hlen, hbound'⟩ := ih h hinsert
    have hle := entries.len_insert_le pinned.1 pinned.2
    exact ⟨by omega, hbound'⟩

section

variable (h : readStore crypto minimumGeneration configuredCapacity input = .ok (store, rest))

include h

theorem readStore_wellFormed (hcapacity : configuredCapacity ≤ maxTrustedGateways) :
    minimumGeneration ≤ store.generation ∧ store.WellFormed crypto := by
  simp only [readStore, bind_apply_eq_ok, guard_apply_eq_ok] at h
  obtain ⟨magic, _, -, -, version, _, -, -, generation, _, -, hminimum, stored, _, -, hstored,
    count, _, -, hcount, entries, _, hentries, hstore⟩ := h
  cases hstore
  obtain ⟨hlen, hbound⟩ := readPinnedAll_bound hentries nofun
  rw [len_new] at hlen
  refine ⟨UInt64.not_lt.mp hminimum, hcapacity, by dsimp only; omega, ?_⟩
  intro iid key sequence hkey
  obtain ⟨entry, hget, hstate⟩ := Option.map_eq_some_iff.mp hkey
  cases hstate
  exact hbound iid entry hget

theorem readStore_unique
    (h' : readStore crypto minimumGeneration' configuredCapacity' input = .ok (store', rest')) :
    store' = store := by
  simp only [readStore, bind_apply_eq_ok, guard_apply_eq_ok] at h h'
  obtain ⟨_, _, hmagic, -, _, _, hversion, -, _, _, hgeneration, -, _, _,
    hstored, heq, count, _, hcount, -, entries, _, hentries, hstore⟩ := h
  obtain ⟨_, _, hmagic', -, _, _, hversion', -, _, _, hgeneration', -,
    stored', _, hstored', heq', count', _, hcount', -, entries', _, hentries', hstore'⟩ := h'
  cases hmagic.symm.trans hmagic'
  cases hversion.symm.trans hversion'
  cases hgeneration.symm.trans hgeneration'
  cases hstored.symm.trans hstored'
  cases hcount.symm.trans hcount'
  cases hentries.symm.trans hentries'
  cases (not_not.mp heq).symm.trans (not_not.mp heq')
  cases hstore
  cases hstore'
  rfl

end

namespace TrustStore

variable {storeSeal : StoreSeal} {minimumGeneration : UInt64} {configuredCapacity : Nat}
  {io : Option String} {file : Option Bytes} {store : TrustStore}

section

variable (h : load crypto storeSeal minimumGeneration configuredCapacity io file = .ok store)

include h

theorem load_eq_ok : configuredCapacity ≤ maxTrustedGateways ∧ ∃ bytes, file = some bytes ∧
      readStore crypto minimumGeneration configuredCapacity
        (bytes.take (bytes.length - signatureLen)) = .ok (store, []) := by
  unfold load at h
  rw [bind_eq_ok] at h
  obtain ⟨_, hcapacity, h⟩ := h
  refine ⟨validateStoreCapacity_eq_ok hcapacity, ?_⟩
  split at h
  · cases h
  · cases h
  · rename_i bytes
    rw [decode, ite_error_eq_ok, ite_error_eq_ok] at h
    obtain ⟨-, -, h⟩ := h
    split at h
    · cases h
    · rename_i loaded rest hread
      rw [ite_error_eq_ok] at h
      obtain ⟨hrest, h⟩ := h
      cases h
      cases not_not.mp hrest
      exact ⟨bytes, rfl, hread⟩

theorem load_wellFormed : minimumGeneration ≤ store.generation ∧ store.WellFormed crypto := by
  obtain ⟨hcapacity, _, -, hread⟩ := load_eq_ok h
  exact readStore_wellFormed hread hcapacity

theorem load_unique
    (h' : load crypto storeSeal minimumGeneration' configuredCapacity' io' file = .ok store') :
    store' = store := by
  obtain ⟨-, _, hfile, hread⟩ := load_eq_ok h
  obtain ⟨-, _, hfile', hread'⟩ := load_eq_ok h'
  cases hfile.symm.trans hfile'
  exact readStore_unique hread hread'

end

theorem WellFormed.len_lt (h : store.WellFormed crypto) : store.entries.len < 256 ^ 4 :=
  Nat.lt_of_le_of_lt (Nat.le_trans h.len h.capacity) (by decide)

theorem saveAtomic_file (hwf : store.WellFormed crypto) :
    (store.saveAtomic storeSeal fate file).2 = file ∨
      ∀ minimumGeneration configuredCapacity io loaded,
        load crypto storeSeal minimumGeneration configuredCapacity io
          (store.saveAtomic storeSeal fate file).2 = .ok loaded → loaded.SameKeys store := by
  unfold saveAtomic
  split
  · exact .inl rfl
  · rename_i payload hencode
    have hloaded : ∀ minimumGeneration configuredCapacity io loaded,
        load crypto storeSeal minimumGeneration configuredCapacity io
          (some (payload ++ (storeSeal.sign payload).toList)) = .ok loaded →
        loaded.SameKeys store := by
      intro minimumGeneration configuredCapacity io loaded h
      obtain ⟨-, _, hfile, hread⟩ := load_eq_ok h
      cases hfile
      rw [List.length_append, List.Vector.toList_length, Nat.add_sub_cancel, List.take_left]
        at hread
      exact sameKeys_of_readStore hwf.len_lt hencode hread
    cases fate with
    | written | unsynced => exact .inr hloaded
    | failed => exact .inl rfl

end TrustStore

end Lichen.Gateway
