import Lichen.Lib.Fold
import Lichen.Rpl.Persistence

namespace Lichen.Rpl

open Lichen.Lib Lichen.Core List

def insertEntry (map : HighWaterMap) (e : PublicKey × List.Vector UInt8 32 × Nat) :
    Option HighWaterMap :=
  if e.2.2 = 0 ∨ map.containsKey e.1 then none else some (map.insert e.1 e.2)

variable {map : HighWaterMap} {entries : List (PublicKey × List.Vector UInt8 32 × Nat)}

@[simp] theorem length_encodeHighWaterEntry : (encodeHighWaterEntry e).length = 72 := by
  simp [encodeHighWaterEntry]

theorem decodeHighWaterEntry_encode (hdata : data = pre ++ (encodeHighWaterEntry e ++ post))
    (hpre : pre.length = 35 + i * 72) (hseq : e.2.2 < 2 ^ 64) :
    decodeHighWaterEntry data map i = insertEntry map e := by
  have hkey : data.extract (35 + i * 72) (35 + i * 72 + 32) = e.1.toList := by
    rw [hdata, encodeHighWaterEntry, append_assoc, append_assoc]
    exact extract_field hpre (by simp [hpre])
  have hsequence : data.extract (35 + i * 72 + 32) (35 + i * 72 + 40) = beBytes 8 e.2.2 := by
    rw [hdata, encodeHighWaterEntry, append_assoc, append_assoc, ← append_assoc]
    exact extract_field (by simp [hpre]) (by simp [hpre])
  have hhash : data.extract (35 + i * 72 + 40) (35 + i * 72 + 72) = e.2.1.toList := by
    rw [hdata, encodeHighWaterEntry, append_assoc, ← append_assoc]
    exact extract_field (by simp [hpre]) (by simp [hpre])
  have hvalue : beNat (beBytes 8 e.2.2) = e.2.2 := beNat_beBytes_of_lt hseq
  simp only [decodeHighWaterEntry, highWaterHeaderLen, highWaterScopeLen, highWaterEntryLen, hkey,
    hsequence, hhash, toArray_toList, hvalue, insertEntry]

theorem foldlM_decodeHighWaterEntry (hdata : data = pre ++ entries.flatMap encodeHighWaterEntry)
    (hpre : pre.length = 35 + i * 72) (hseq : ∀ e ∈ entries, e.2.2 < 2 ^ 64) :
    (List.range' i entries.length).foldlM (decodeHighWaterEntry data) map =
      entries.foldlM insertEntry map := by
  induction entries generalizing pre i map with
  | nil => rfl
  | cons e entries ih =>
    rw [flatMap_cons] at hdata
    rw [length_cons, List.range'_succ, foldlM_option_cons, foldlM_option_cons,
      decodeHighWaterEntry_encode hdata hpre (hseq e mem_cons_self)]
    congr 1
    funext map
    have hdata' : data = (pre ++ encodeHighWaterEntry e) ++
        entries.flatMap encodeHighWaterEntry := by
      rw [hdata, append_assoc]
    refine ih hdata' ?_ fun e' he' => hseq e' (mem_cons_of_mem e he')
    rw [length_append, hpre, length_encodeHighWaterEntry]
    omega

theorem foldlM_insertEntry (map : HighWaterMap) (hnodup : (entries.map Prod.fst).Nodup)
    (hseq : ∀ e ∈ entries, e.2.2 ≠ 0) (hnew : ∀ e ∈ entries, map.get e.1 = none) :
    ∃ map', entries.foldlM insertEntry map = some map' ∧
      ∀ k v, map'.get k = some v ↔ map.get k = some v ∨ (k, v) ∈ entries := by
  induction entries generalizing map with
  | nil => exact ⟨map, rfl, by simp⟩
  | cons e entries ih =>
    rw [map_cons, nodup_cons] at hnodup
    have hinsert : insertEntry map e = some (map.insert e.1 e.2) := by
      simp [insertEntry, hseq e mem_cons_self, HashMap.containsKey, hnew e mem_cons_self]
    have hrest : ∀ e' ∈ entries, (map.insert e.1 e.2).get e'.1 = none := by
      intro e' he'
      rw [HashMap.get_insert_ne, hnew e' (mem_cons_of_mem e he')]
      exact fun heq => hnodup.1 (heq ▸ mem_map_of_mem he')
    obtain ⟨map', hfold, hget⟩ := ih (map.insert e.1 e.2) hnodup.2
      (fun e' he' => hseq e' (mem_cons_of_mem e he')) hrest
    refine ⟨map', by rw [foldlM_option_cons, hinsert]; exact hfold, fun k v => ?_⟩
    rw [hget, HashMap.get_insert, mem_cons]
    by_cases hk : k = e.1
    · subst hk
      have hnone := hnew e mem_cons_self
      have hnot : (e.1, v) ∉ entries := fun hmem =>
        hnodup.1 (mem_map.mpr ⟨_, hmem, rfl⟩)
      simp [hnone, hnot, Prod.ext_iff, eq_comm]
    · have hne : (k, v) ≠ e := fun heq => hk (heq ▸ rfl)
      simp [hk, hne]

def Storable (map : HighWaterMap) : Prop :=
  ∀ k hash sequence, map.get k = some (hash, sequence) → sequence ≠ 0 ∧ sequence < 2 ^ 64

theorem decodeHighWater_encode
    (h : encodeHighWater scope map out = some payload) (hstorable : Storable map) :
    payload.length = 35 + map.len * 72 ∧ map.len ≤ maxDaoOrigins ∧
      ∃ map', decodeHighWater payload = some map' ∧ ∀ k, map'.get k = map.get k := by
  rw [encodeHighWater] at h
  split at h
  · cases h
  rename_i hlen
  split at h
  · cases h
  have hle : map.len ≤ 256 := Nat.not_lt.mp hlen
  generalize hsorted : map.toPairs.insertionSort (fun a b => a.1.toList ≤ b.1.toList) = entries at h
  have hperm : entries.Perm map.toPairs := hsorted ▸ perm_insertionSort _ _
  have hcount : entries.length = map.len := by
    rw [hperm.length_eq, HashMap.len_eq_toPairs]
  have hmem : ∀ e ∈ entries, e.2.2 ≠ 0 ∧ e.2.2 < 2 ^ 64 := fun e he =>
    hstorable e.1 e.2.1 e.2.2 (HashMap.mem_toPairs.mp (hperm.mem_iff.mp he))
  have hnodup : (entries.map Prod.fst).Nodup :=
    (hperm.map Prod.fst).nodup_iff.mpr (map.nodup_keys .inserted)
  rw [Option.some.injEq] at h
  have hbody : (entries.flatMap encodeHighWaterEntry).length = map.len * 72 := by
    rw [length_flatMap, ← hcount]
    simp
  have hlength : payload.length = 35 + map.len * 72 := by
    rw [← h, length_append, hbody]
    simp
  refine ⟨hlength, hle, ?_⟩
  obtain ⟨map', hfold, hget⟩ := foldlM_insertEntry HashMap.new hnodup
    (fun e he => (hmem e he).1) (fun _ _ => rfl)
  refine ⟨map', ?_, fun k => ?_⟩
  · have hfield : beNat (payload.extract 33 35) = map.len := by
      rw [← h, append_assoc, extract_field (by simp) (by simp), beNat_beBytes_of_lt (by omega)]
    simp only [decodeHighWater, hlength, highWaterHeaderLen, highWaterScopeLen, highWaterEntryLen,
      maxDaoOrigins, hfield]
    rw [if_neg (by omega), if_neg (by omega), range_eq_range', ← hcount, ← hfold, ← h]
    exact foldlM_decodeHighWaterEntry rfl (by simp) fun e he => (hmem e he).2
  · apply Option.ext
    intro v
    rw [hget, hperm.mem_iff, HashMap.mem_toPairs]
    simp

end Lichen.Rpl
