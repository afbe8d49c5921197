import Lichen.Gateway.CborHeads
import Lichen.Gateway.SlotClaim
import Lichen.Lib.Guard

namespace Lichen.Gateway

open Lichen.Lib Lichen.Core

variable {iid : Iid} {entries : ClaimEntries}

theorem reads_malformed (h : Reads p E) : Reads (malformed p) E :=
  h.mapError _

theorem reads_readUInt32 : Reads readUInt32 fun value bs => bs = cborUint value.toNat := by
  refine ((reads_malformed Reader.reads_uint).bind fun value => (reads_pure _).of_check).congr
    fun value bs => ?_
  constructor
  · rintro ⟨_, _, _, rfl, ⟨hlt, rfl, rfl⟩, rfl⟩
    rw [List.append_nil, cborUint, UInt64.toNat_toUInt32, Nat.mod_eq_of_lt hlt]
  · rintro rfl
    refine ⟨value.toUInt64, _, [], rfl, ⟨value.toNat_lt, ?_, rfl⟩, (List.append_nil _).symm⟩
    exact (UInt32.toUInt32_toUInt64 value).symm

theorem reads_readSlots : Reads (readSlots count) fun slots bs =>
      slots.length = count ∧ bs = slots.flatMap (cborUint ·.toNat) := by
  induction count with
  | zero =>
    refine (reads_pure _).congr fun slots bs => ?_
    constructor
    · rintro ⟨rfl, rfl⟩
      exact ⟨rfl, rfl⟩
    · rintro ⟨hlength, rfl⟩
      obtain rfl := List.length_eq_zero_iff.mp hlength
      exact ⟨rfl, rfl⟩
  | succ count ih =>
    refine (reads_readUInt32.bind fun slot => ih.bind fun slots => reads_pure _).congr
      fun slots bs => ?_
    constructor
    · rintro ⟨slot, _, _, rfl, ⟨rest, _, _, ⟨rfl, rfl⟩, ⟨rfl, rfl⟩, rfl⟩, rfl⟩
      exact ⟨rfl, by rw [List.append_nil, List.flatMap_cons]⟩
    · rintro ⟨hlength, rfl⟩
      cases slots with
      | nil => cases hlength
      | cons slot rest =>
        refine ⟨slot, _, _, rfl, ⟨rest, _, [], ⟨Nat.succ.inj hlength, rfl⟩, ⟨rfl, rfl⟩, rfl⟩, ?_⟩
        rw [List.append_nil, List.flatMap_cons]

/-- The entry of a key is one value `v` with `P`, written as `g v` and kept as `f v`. -/
def ReadsEntry (iid : Iid) (key : UInt64) (entries : ClaimEntries) (P : γ → Prop)
    (f : γ → ClaimEntries) (g : γ → Bytes) : Prop :=
  Reads (readEntry iid key entries) fun entries' bs => ∃ v, P v ∧ entries' = f v ∧ bs = g v

theorem reads_value {g : γ → Bytes} (hp : Reads p fun v bs => bs = g v) (f : γ → ClaimEntries) :
    Reads (do return f (← p) : ClaimReader ClaimEntries) fun entries' bs =>
      ∃ v, True ∧ entries' = f v ∧ bs = g v := by
  refine (hp.bind fun v => reads_pure _).congr fun entries' bs => ?_
  constructor
  · rintro ⟨v, _, _, rfl, ⟨rfl, rfl⟩, rfl⟩
    exact ⟨v, trivial, rfl, List.append_nil _⟩
  · rintro ⟨v, -, rfl, rfl⟩
    exact ⟨v, _, [], rfl, ⟨rfl, rfl⟩, (List.append_nil _).symm⟩

section

variable (iid : Iid) (entries : ClaimEntries)

theorem readsEntry_slots :
    ReadsEntry iid 1 entries (fun slots => slots.length ≤ maxSlotsPerSuperframe)
      (fun slots => { entries with slots := some slots })
      (fun slots => cborHead 4 slots.length ++ slots.flatMap (cborUint ·.toNat)) := by
  apply Reads.congr
  · exact (reads_malformed (Reader.reads_head (by decide))).bind fun count =>
      .guard (reads_readSlots.bind fun slots => reads_pure _)
  intro entries' bs
  constructor
  · rintro ⟨count, _, _, rfl, ⟨hcount, slots, _, _, ⟨hlength, rfl⟩, ⟨rfl, rfl⟩, rfl⟩, rfl⟩
    rw [List.append_nil, ← hlength]
    exact ⟨slots, hlength.trans_le (Nat.not_lt.mp hcount), rfl, rfl⟩
  · rintro ⟨slots, hslots, rfl, rfl⟩
    have hcount : (UInt64.ofNat slots.length).toNat = slots.length :=
      UInt64.toNat_ofNat_of_lt' (hslots.trans_lt (by decide))
    refine ⟨UInt64.ofNat slots.length, _, _, rfl,
      ⟨?_, slots, _, [], ⟨hcount.symm, rfl⟩, ⟨rfl, rfl⟩, rfl⟩, ?_⟩
    · rw [hcount]
      exact Nat.not_lt.mpr hslots
    · rw [hcount, List.append_nil]

theorem readsEntry_superframeEpoch :
    ReadsEntry iid 2 entries (fun _ => True) (fun v => { entries with superframeEpoch := some v })
      (fun v => cborUint v.toNat) :=
  reads_value (reads_malformed Reader.reads_uint) _

theorem readsEntry_mode :
    ReadsEntry iid 3 entries (fun _ => True) (fun v => { entries with mode := some v })
      (fun v => cborUint v.toNat) :=
  reads_value (reads_malformed Reader.reads_uint) _

theorem readsEntry_expiry :
    ReadsEntry iid 4 entries (fun _ => True) (fun v => { entries with expiry := some v })
      (fun v => cborUint v.toNat) :=
  reads_value (reads_malformed Reader.reads_uint) _

theorem readsEntry_gatewayIid : ReadsEntry iid 5 entries (fun (_ : Unit) => True) (fun _ => entries)
      (fun _ => cborBstr iid.toList) := by
  apply Reads.congr
  · exact (reads_malformed Reader.reads_bstr).bind fun bytes => .guard (reads_pure _)
  intro entries' bs
  constructor
  · rintro ⟨bytes, _, _, ⟨-, rfl⟩, ⟨hbytes, rfl, rfl⟩, rfl⟩
    rw [not_not] at hbytes
    subst hbytes
    exact ⟨(), trivial, rfl, List.append_nil _⟩
  · rintro ⟨-, -, rfl, rfl⟩
    have hlength : iid.toList.length < 2 ^ 64 := by
      rw [iid.toList_length]
      decide
    exact ⟨iid.toList, _, [], ⟨hlength, rfl⟩, ⟨not_not.mpr rfl, rfl, rfl⟩, (List.append_nil _).symm⟩

theorem readsEntry_claimSeq :
    ReadsEntry iid 6 entries (fun _ => True) (fun v => { entries with claimSeq := some v })
      (fun v => cborUint v.toNat) :=
  reads_value reads_readUInt32 _

theorem readsEntry_ordinal :
    ReadsEntry iid 7 entries (fun _ => True) (fun v => { entries with ordinal := some v })
      (fun v => cborUint v.toNat) :=
  reads_value (reads_malformed Reader.reads_uint) _

end

theorem ReadsEntry.lastKey_eq
    (h : ReadsEntry iid key entries P f g) (hf : ∀ v, (f v).lastKey = entries.lastKey)
    (hread : readEntry iid key entries input = .ok (entries', rest)) :
    entries'.lastKey = entries.lastKey := by
  obtain ⟨_, ⟨v, -, rfl, -⟩, -⟩ := (h input entries' rest).mp hread
  exact hf v

theorem lastKey_readEntry (hzero : key ≠ 0) (hle : key ≤ 7)
    (h : readEntry iid key entries input = .ok (entries', rest)) :
    entries'.lastKey = entries.lastKey := by
  have hkeys : key = 1 ∨ key = 2 ∨ key = 3 ∨ key = 4 ∨ key = 5 ∨ key = 6 ∨ key = 7 := by
    simp only [← UInt64.toNat_inj, UInt64.le_iff_toNat_le, ne_eq, UInt64.reduceToNat] at hzero hle ⊢
    omega
  obtain rfl | rfl | rfl | rfl | rfl | rfl | rfl := hkeys
  · exact (readsEntry_slots iid entries).lastKey_eq (fun _ => rfl) h
  · exact (readsEntry_superframeEpoch iid entries).lastKey_eq (fun _ => rfl) h
  · exact (readsEntry_mode iid entries).lastKey_eq (fun _ => rfl) h
  · exact (readsEntry_expiry iid entries).lastKey_eq (fun _ => rfl) h
  · exact (readsEntry_gatewayIid iid entries).lastKey_eq (fun _ => rfl) h
  · exact (readsEntry_claimSeq iid entries).lastKey_eq (fun _ => rfl) h
  · exact (readsEntry_ordinal iid entries).lastKey_eq (fun _ => rfl) h

def ClaimEntries.at (entries : ClaimEntries) (key : UInt64) : ClaimEntries :=
  { entries with lastKey := key, seen := entries.seen ||| (1 <<< key.toUInt8) }

theorem readPairs_succ :
    readPairs iid (pairs + 1) entries input = .ok r ↔ ∃ key rest entries' rest',
      input = cborUint key.toNat ++ rest ∧
      ¬(key = 0 ∨ 7 < key ∨ key ≤ entries.lastKey ∨ entries.seen &&& (1 <<< key.toUInt8) ≠ 0) ∧
      readEntry iid key (entries.at key) rest = .ok (entries', rest') ∧
      readPairs iid pairs entries' rest' = .ok r := by
  rw [readPairs, (reads_malformed Reader.reads_uint).bind_eq_ok]
  simp only [guard_apply_eq_ok, bind_apply_eq_ok]
  constructor
  · rintro ⟨key, _, rest, rfl, rfl, hkey, entries', rest', hentry, h⟩
    exact ⟨key, rest, entries', rest', rfl, hkey, hentry, h⟩
  · rintro ⟨key, rest, entries', rest', rfl, hkey, hentry, h⟩
    exact ⟨key, _, rest, rfl, rfl, hkey, entries', rest', hentry, h⟩

theorem key_bounds (hkey : ¬(key = 0 ∨ 7 < key ∨ key ≤ entries.lastKey ∨ seen))
    (hentry : readEntry iid key (entries.at key) input = .ok (entries', rest)) :
    key.toNat ≤ 7 ∧ entries.lastKey.toNat < key.toNat ∧ entries'.lastKey = key := by
  simp only [not_or, UInt64.not_lt, UInt64.not_le] at hkey
  obtain ⟨hzero, hseven, hgreater, -⟩ := hkey
  exact ⟨UInt64.le_iff_toNat_le.mp hseven, UInt64.lt_iff_toNat_lt.mp hgreater,
    lastKey_readEntry hzero hseven hentry⟩

theorem lastKey_add_le
    (h : readPairs iid pairs entries input = .ok r) (hle : entries.lastKey.toNat ≤ 7) :
    entries.lastKey.toNat + pairs ≤ 7 := by
  induction pairs generalizing entries input with
  | zero => exact hle
  | succ pairs ih =>
    obtain ⟨key, rest, entries', rest', rfl, hkey, hentry, h⟩ := readPairs_succ.mp h
    obtain ⟨hseven, hgreater, hlast⟩ := key_bounds hkey hentry
    have hnext := ih h (hlast ▸ hseven)
    rw [hlast] at hnext
    omega

theorem reads_pairs_next {F : γ → ClaimEntries → Bytes → Prop} (key : UInt64) (seen seen' : UInt8)
    (hread : ReadsEntry iid key { entries with lastKey := key, seen := seen' } P f g)
    (hlast : entries.lastKey.toNat + 1 = key.toNat) (hpairs : key.toNat + pairs = 7)
    (hseen : entries.seen = seen)
    (hbit : seen &&& (1 <<< key.toUInt8) = 0 ∧ seen ||| (1 <<< key.toUInt8) = seen')
    (hnext : ∀ v, Reads (readPairs iid pairs (f v)) (F v)) :
    Reads (readPairs iid (pairs + 1) entries) fun r bs =>
      ∃ v rest, P v ∧ F v r rest ∧ bs = cborUint key.toNat ++ g v ++ rest := by
  rw [← hbit.2, ← hseen] at hread
  rw [← hseen] at hbit
  intro input r tail
  rw [readPairs_succ]
  constructor
  · rintro ⟨key', rest, entries', rest', rfl, hkey, hentry, h⟩
    obtain ⟨hseven, hgreater, hlast'⟩ := key_bounds hkey hentry
    have hle := lastKey_add_le h (hlast' ▸ hseven)
    rw [hlast'] at hle
    obtain rfl : key' = key := UInt64.toNat_inj.mp (by omega)
    obtain ⟨_, ⟨v, hv, rfl, rfl⟩, rfl⟩ := (hread rest entries' rest').mp hentry
    obtain ⟨rest, hF, rfl⟩ := (hnext v _ _ _).mp h
    exact ⟨_, ⟨v, rest, hv, hF, rfl⟩, by simp only [List.append_assoc]⟩
  · rintro ⟨_, ⟨v, rest, hv, hF, rfl⟩, rfl⟩
    refine ⟨key, g v ++ (rest ++ tail), f v, rest ++ tail, by simp only [List.append_assoc], ?_, ?_,
      (hnext v _ _ _).mpr ⟨rest, hF, rfl⟩⟩
    · rintro (rfl | hgreater | hle | hset)
      · exact absurd hlast (Nat.succ_ne_zero _)
      · have hseven : 7 < key.toNat := UInt64.lt_iff_toNat_lt.mp hgreater
        omega
      · have hlast' := UInt64.le_iff_toNat_le.mp hle
        omega
      · exact hset hbit.1
    · exact (hread _ _ _).mpr ⟨g v, ⟨v, hv, rfl, rfl⟩, rfl⟩

/-- The values of the seven pairs. -/
structure ClaimValues where
  slots : List UInt32
  superframeEpoch : UInt64
  mode : UInt64
  expiry : UInt64
  claimSeq : UInt32
  ordinal : UInt64

section

variable (v : ClaimValues) (iid : Iid)

def ClaimValues.filled : ClaimEntries :=
  ⟨some v.slots, some v.superframeEpoch, some v.mode, some v.expiry, some v.claimSeq, some v.ordinal,
    0xFE, 7⟩

def ClaimValues.bytes : Bytes :=
  (cborUint 1 ++ (cborHead 4 v.slots.length ++ v.slots.flatMap (cborUint ·.toNat))) ++
    ((cborUint 2 ++ cborUint v.superframeEpoch.toNat) ++ ((cborUint 3 ++ cborUint v.mode.toNat) ++
    ((cborUint 4 ++ cborUint v.expiry.toNat) ++ ((cborUint 5 ++ cborBstr iid.toList) ++
    ((cborUint 6 ++ cborUint v.claimSeq.toNat) ++ (cborUint 7 ++ cborUint v.ordinal.toNat))))))

def ClaimValues.claim (mode : AllocationMode) (payload : Bytes) (signature : Signature) :
    RawSlotClaim :=
  ⟨iid, v.slots, v.superframeEpoch, v.claimSeq, mode, v.expiry, some v.ordinal, signature, .coseSign1,
    some payload⟩

end

theorem reads_pairs_seven : Reads (readPairs iid 7 .none) fun entries bs =>
    ∃ v : ClaimValues, v.slots.length ≤ maxSlotsPerSuperframe ∧ entries = v.filled ∧
      bs = v.bytes iid := by
  apply Reads.congr
  · exact reads_pairs_next 1 0 2 (readsEntry_slots iid _) rfl rfl rfl (by decide) fun slots =>
      reads_pairs_next 2 2 6 (readsEntry_superframeEpoch iid _) rfl rfl rfl (by decide) fun epoch =>
      reads_pairs_next 3 6 14 (readsEntry_mode iid _) rfl rfl rfl (by decide) fun mode =>
      reads_pairs_next 4 14 30 (readsEntry_expiry iid _) rfl rfl rfl (by decide) fun expiry =>
      reads_pairs_next 5 30 62 (readsEntry_gatewayIid iid _) rfl rfl rfl (by decide) fun _ =>
      reads_pairs_next 6 62 126 (readsEntry_claimSeq iid _) rfl rfl rfl (by decide) fun claimSeq =>
      reads_pairs_next 7 126 254 (readsEntry_ordinal iid _) rfl rfl rfl (by decide) fun ordinal =>
      reads_pure _
  intro entries bs
  constructor
  · rintro ⟨slots, _, hslots, ⟨epoch, _, -, ⟨mode, _, -, ⟨expiry, _, -, ⟨-, _, -, ⟨claimSeq, _, -,
      ⟨ordinal, _, -, ⟨rfl, rfl⟩, rfl⟩, rfl⟩, rfl⟩, rfl⟩, rfl⟩, rfl⟩, rfl⟩
    refine ⟨⟨slots, epoch, mode, expiry, claimSeq, ordinal⟩, hslots, rfl, ?_⟩
    rw [List.append_nil]
    rfl
  · rintro ⟨v, hslots, rfl, rfl⟩
    exact ⟨v.slots, _, hslots, ⟨v.superframeEpoch, _, trivial, ⟨v.mode, _, trivial, ⟨v.expiry, _,
      trivial, ⟨(), _, trivial, ⟨v.claimSeq, _, trivial, ⟨v.ordinal, [], trivial, ⟨rfl, rfl⟩,
      (List.append_nil _).symm⟩, rfl⟩, rfl⟩, rfl⟩, rfl⟩, rfl⟩, rfl⟩

theorem finished_eq_ok :
    malformed Reader.finished input = .ok (finished, rest) ↔
      finished = input.isEmpty ∧ rest = input := by
  change Except.ok (input.isEmpty, input) = .ok (finished, rest) ↔ _
  rw [Except.ok.injEq, Prod.mk.injEq]
  exact and_congr eq_comm eq_comm

theorem finished_bind_eq_ok :
    (do
      if ¬(← malformed Reader.finished) then throw .malformedClaim
      return a : ClaimReader α) input = .ok (b, rest) ↔ b = a ∧ input = [] ∧ rest = [] := by
  rw [bind_apply_eq_ok]
  simp only [finished_eq_ok, guard_apply_eq_ok]
  constructor
  · rintro ⟨_, _, ⟨rfl, rfl⟩, hempty, h⟩
    cases h
    have hnil := List.isEmpty_iff.mp (not_not.mp hempty)
    exact ⟨rfl, hnil, hnil⟩
  · rintro ⟨rfl, rfl, rfl⟩
    exact ⟨true, [], ⟨rfl, rfl⟩, nofun, rfl⟩

theorem readClaimEntries_eq_ok : (readClaimEntries iid).run' payload = .ok entries ↔
    ∃ v : ClaimValues, v.slots.length ≤ maxSlotsPerSuperframe ∧ entries = v.filled ∧
      payload = cborHead 5 7 ++ v.bytes iid := by
  rw [run'_eq_ok]
  simp only [readClaimEntries,
    (reads_malformed (Reader.reads_head (by decide : (5 : UInt8) < 8))).bind_eq_ok,
    guard_apply_eq_ok]
  constructor
  · rintro ⟨_, _, _, _, rfl, rfl, hpairs, h⟩
    rw [not_not] at hpairs
    subst hpairs
    obtain ⟨_, _, hread, h⟩ := bind_apply_eq_ok.mp h
    obtain ⟨rfl, rfl, -⟩ := finished_bind_eq_ok.mp h
    obtain ⟨_, ⟨v, hslots, rfl, rfl⟩, rfl⟩ := (reads_pairs_seven _ _ _).mp hread
    exact ⟨v, hslots, rfl, by rw [List.append_nil]; rfl⟩
  · rintro ⟨v, hslots, rfl, rfl⟩
    refine ⟨[], 7, _, _, rfl, rfl, not_not.mpr rfl, ?_⟩
    refine bind_apply_eq_ok.mpr ⟨_, [], (reads_pairs_seven _ _ _).mpr
      ⟨_, ⟨v, hslots, rfl, rfl⟩, (List.append_nil _).symm⟩, ?_⟩
    exact finished_bind_eq_ok.mpr ⟨rfl, rfl, rfl⟩

theorem reads_array (hn : n < 2 ^ 64) :
    Reads (Reader.array n error) fun v bs => bs = cborBstr v.toList := by
  apply Reads.congr
  · exact Reader.reads_bstr.bind fun bytes => .of_check (reads_pure _)
  intro v bs
  constructor
  · rintro ⟨bytes, _, _, ⟨-, rfl⟩, ⟨hlength, rfl, rfl⟩, rfl⟩
    rw [List.append_nil, toList_toArray hlength, cborBstr]
  · rintro rfl
    refine ⟨v.toList, _, [], ⟨?_, rfl⟩, ⟨v.toList_length, ?_, rfl⟩, (List.append_nil _).symm⟩
    · rw [v.toList_length]
      exact hn
    · exact (toArray_toList v).symm

theorem encodeCose_eq :
    encodeCose iid payload signature = [0x84] ++ (cborBstr protectedHeader ++ ([0xA1] ++
      (cborHead 0 (4 : UInt64).toNat ++ (cborBstr iid.toList ++
        (cborBstr payload ++ cborBstr signature.toList))))) := by
  simp only [encodeCose, List.append_assoc]
  rfl

theorem readClaimEnvelope_eq_ok : readClaimEnvelope.run' envelope = .ok (iid, payload, signature) ↔
      payload.length < 2 ^ 64 ∧ envelope = encodeCose iid payload signature := by
  have harray : Reads (malformed (Reader.array 8 .malformedCbor)) fun v bs => bs = cborBstr v.toList :=
    reads_malformed (reads_array (by decide))
  have hsignature : Reads (malformed (Reader.array signatureLen .malformedCbor))
      fun v bs => bs = cborBstr v.toList := reads_malformed (reads_array (by decide))
  rw [run'_eq_ok, encodeCose_eq]
  simp only [readClaimEnvelope, (reads_malformed Reader.reads_exact).bind_eq_ok,
    (reads_malformed Reader.reads_bstr).bind_eq_ok, guard_apply_eq_ok,
    (reads_malformed Reader.reads_uintExact).bind_eq_ok, harray.bind_eq_ok,
    hsignature.bind_eq_ok, finished_bind_eq_ok]
  constructor
  · rintro ⟨_, -, _, _, rfl, rfl, header, _, _, ⟨-, rfl⟩, rfl, hprotected, -, _, _, rfl, rfl, -, _, _,
      rfl, rfl, _, _, _, rfl, rfl, _, _, _, ⟨hpayload, rfl⟩, rfl, _, _, _, rfl, rfl, ⟨⟩, rfl, rfl⟩
    rw [not_not.mp hprotected, List.append_nil]
    exact ⟨hpayload, rfl⟩
  · rintro ⟨hpayload, rfl⟩
    exact ⟨[], (), _, _, rfl, rfl, protectedHeader, _, _, ⟨by decide, rfl⟩, rfl, not_not.mpr rfl, (), _,
      _, rfl, rfl, (), _, _, rfl, rfl, iid, _, _, rfl, rfl, payload, _, _, ⟨hpayload, rfl⟩, rfl,
      signature, _, [], rfl, (List.append_nil _).symm, rfl, rfl, rfl⟩

/-- Slots that a superframe of this size has, in strictly ascending order. -/
structure ValidSlots (slotsPerSuperframe : Nat) (slots : List UInt32) : Prop where
  size : 0 < slotsPerSuperframe ∧ slotsPerSuperframe ≤ maxSlotsPerSuperframe
  inRange : ∀ slot ∈ slots, slot.toNat < slotsPerSuperframe
  ascending : slots.Pairwise (· < ·)

theorem ValidSlots.length_le
    (h : ValidSlots slotsPerSuperframe slots) : slots.length ≤ slotsPerSuperframe := by
  have hnodup : (slots.map UInt32.toNat).Nodup := by
    refine List.Pairwise.map _ ?_ h.ascending
    exact fun a b hlt heq => Nat.ne_of_lt (UInt32.lt_iff_toNat_lt.mp hlt) heq
  have hsub : slots.map UInt32.toNat ⊆ List.range slotsPerSuperframe := by
    intro n hn
    obtain ⟨slot, hslot, rfl⟩ := List.mem_map.mp hn
    exact List.mem_range.mpr (h.inRange slot hslot)
  have hle := (hnodup.subperm hsub).length_le
  rwa [List.length_map, List.length_range] at hle

theorem pairwise_iff_windows (slots : List UInt32) :
    slots.Pairwise (· < ·) ↔ ∀ pair ∈ slots.zip slots.tail, pair.1 < pair.2 := by
  have htrans : Trans (α := UInt32) (β := UInt32) (γ := UInt32) (· < ·) (· < ·) (· < ·) :=
    ⟨UInt32.lt_trans⟩
  rw [← List.isChain_iff_pairwise]
  induction slots with
  | nil => simp
  | cons slot slots ih =>
    cases slots with
    | nil => simp
    | cons =>
      rw [List.isChain_cons_cons, List.tail_cons, List.zip_cons_cons, List.forall_mem_cons]
      exact and_congr_right' ih

theorem validateClaimSlots_eq_ok :
    validateClaimSlots slots slotsPerSuperframe = .ok u ↔ ValidSlots slotsPerSuperframe slots := by
  simp only [validateClaimSlots, ite_error_eq_ok, List.any_eq_true, decide_eq_true_eq, not_exists,
    not_and, not_or, Nat.not_lt, Nat.not_le, UInt32.not_lt]
  constructor
  · rintro ⟨⟨hpos, hmax⟩, -, hrange, hequal, hle, -⟩
    refine ⟨⟨Nat.pos_of_ne_zero hpos, hmax⟩, hrange, ?_⟩
    exact (pairwise_iff_windows slots).mpr fun pair hpair =>
      UInt32.lt_of_le_of_ne (hle pair hpair) (hequal pair hpair)
  · intro h
    have hascending := (pairwise_iff_windows slots).mp h.ascending
    exact ⟨⟨Nat.ne_of_gt h.size.1, h.size.2⟩, h.length_le, h.inRange,
      fun pair hpair => UInt32.ne_of_lt (hascending pair hpair),
      fun pair hpair => UInt32.le_of_lt (hascending pair hpair), trivial⟩

theorem length_cborHead_le (major : UInt8) (value : Nat) : (cborHead major value).length ≤ 9 := by
  rw [cborHead]
  split
  · simp
  split
  · simp
  split
  · simp
  split <;> simp

namespace SlotClaimPayload

section

variable (claim : SlotClaimPayload)

theorem length_canonical_le : claim.canonical.length ≤ 9 * claim.slots.length + 64 := by
  have hslots : (claim.slots.flatMap (cborUint ·.toNat)).length ≤ 9 * claim.slots.length := by
    induction claim.slots with
    | nil => simp
    | cons slot slots ih =>
      have hslot := length_cborHead_le 0 slot.toNat
      rw [List.flatMap_cons, List.length_append, List.length_cons, cborUint]
      omega
  have hmode : (cborUint claim.mode.code.toNat).length = 1 := by
    cases claim.mode <;> rfl
  have hiid : (cborBstr claim.gatewayIid.toList).length = 9 := by
    rw [cborBstr, List.length_append, claim.gatewayIid.toList_length]
    rfl
  have hpairs : (cborHead 5 (if claim.ordinal.isSome then 7 else 6)).length = 1 := by
    split <;> rfl
  have hordinal : (claim.ordinal.elim [] fun ordinal =>
      cborUint 7 ++ cborUint ordinal.toNat).length ≤ 10 := by
    cases claim.ordinal with
    | none => simp
    | some ordinal =>
      have hordinal := length_cborHead_le 0 ordinal.toNat
      rw [Option.elim_some, List.length_append, cborUint, cborUint]
      exact Nat.add_le_add (Nat.le_refl 1) hordinal
  have hkey : ∀ k ≤ 23, (cborUint k).length = 1 := by
    intro k hk
    rw [cborUint, cborHead, if_pos hk]
    rfl
  have hcount := length_cborHead_le 4 claim.slots.length
  have hepoch := length_cborHead_le 0 claim.superframeEpoch.toNat
  have hexpiry := length_cborHead_le 0 claim.expiry.toNat
  have hseq := length_cborHead_le 0 claim.claimSeq.toNat
  rw [← cborUint] at hepoch hexpiry hseq
  simp (disch := decide) only [canonical, List.length_append, hmode, hiid, hpairs, hkey]
  omega

theorem encodeCanonical_eq : claim.encodeCanonical = .ok claim.canonical :=
  if_neg (Nat.not_lt.mpr claim.length_canonical_le)

theorem canonical_eq {ordinal : UInt64} (h : claim.ordinal = some ordinal) :
    claim.canonical = cborHead 5 7 ++ ClaimValues.bytes ⟨claim.slots, claim.superframeEpoch,
      claim.mode.code, claim.expiry, claim.claimSeq, ordinal⟩ claim.gatewayIid := by
  rw [canonical, h, ClaimValues.bytes]
  simp only [Option.isSome_some, if_true, Option.elim_some, List.append_assoc]

end

end SlotClaimPayload

namespace RawSlotClaim

variable {envelope : Bytes} {slotsPerSuperframe : Nat} {claim : RawSlotClaim}

theorem code_injective {m m' : AllocationMode} (h : m.code = m'.code) : m = m' := by
  cases m <;> cases m' <;> first | rfl | exact absurd h (by decide)

theorem fromCose_of_entries {v : ClaimValues} {payload : Bytes} {signature : Signature}
    (henvelope : readClaimEnvelope.run' envelope = .ok (iid, payload, signature))
    (hentries : (readClaimEntries iid).run' payload = .ok v.filled) :
    fromCose envelope slotsPerSuperframe = .ok claim ↔
      v.ordinal.toNat < maxCoordinatingGateways ∧ ValidSlots slotsPerSuperframe v.slots ∧
      ∃ m : AllocationMode, v.mode = m.code ∧ claim = v.claim iid m payload signature := by
  have hfinish : ∀ m : AllocationMode, v.mode = m.code → ((do
      validateClaimSlots v.slots slotsPerSuperframe
      pure (v.claim iid m payload signature)) = .ok claim ↔ ValidSlots slotsPerSuperframe v.slots ∧
      ∃ m : AllocationMode, v.mode = m.code ∧ claim = v.claim iid m payload signature) := by
    intro m hcode
    rw [bind_eq_ok]
    constructor
    · rintro ⟨_, hvalid, ⟨⟩⟩
      exact ⟨validateClaimSlots_eq_ok.mp hvalid, m, hcode, rfl⟩
    · rintro ⟨hvalid, _, hcode', rfl⟩
      rw [code_injective (hcode'.symm.trans hcode)]
      exact ⟨(), validateClaimSlots_eq_ok.mpr hvalid, rfl⟩
  have hordinal : ¬Option.all (fun ordinal : UInt64 => decide (maxCoordinatingGateways ≤ ordinal.toNat))
      (some v.ordinal) = true ↔ v.ordinal.toNat < maxCoordinatingGateways := by
    rw [Option.all_some, decide_eq_true_eq, Nat.not_le]
  have hseen : ¬(0xFE : UInt8) &&& 0xFE ≠ 0xFE := by decide
  simp only [fromCose, henvelope, hentries, ClaimValues.filled, guard_eq_ok, bind_eq_ok,
    Except.ok.injEq, exists_eq_left', hordinal, hseen, not_false_eq_true, true_and]
  refine and_congr_right' ?_
  split
  · rename_i heq
    exact hfinish .interleaved (Option.some.inj heq)
  · rename_i heq
    exact hfinish .contiguous (Option.some.inj heq)
  · rename_i hne hne'
    refine ⟨nofun, ?_⟩
    rintro ⟨-, m, hmode, -⟩
    cases m with
    | interleaved => exact absurd (congrArg some hmode) hne
    | contiguous => exact absurd (congrArg some hmode) hne'

theorem fromCose_eq_ok : fromCose envelope slotsPerSuperframe = .ok claim ↔
      claim.sigForm = .coseSign1 ∧ claim.cosePayload = some claim.payload.canonical ∧
      envelope = encodeCose claim.gatewayIid claim.payload.canonical claim.signature ∧
      ValidSlots slotsPerSuperframe claim.slots ∧
      ∃ ordinal, claim.ordinal = some ordinal ∧ ordinal.toNat < maxCoordinatingGateways := by
  constructor
  · intro h
    obtain ⟨⟨iid, payload, signature⟩, henvelope, h'⟩ := bind_eq_ok.mp h
    obtain ⟨_, hentries, -⟩ := bind_eq_ok.mp h'
    obtain ⟨⟨_, _, _, _, _, _⟩, -, rfl, rfl⟩ := readClaimEntries_eq_ok.mp hentries
    obtain ⟨hordinal, hvalid, m, rfl, rfl⟩ := (fromCose_of_entries henvelope hentries).mp h
    rw [SlotClaimPayload.canonical_eq _ rfl]
    exact ⟨rfl, rfl, (readClaimEnvelope_eq_ok.mp henvelope).2, hvalid, _, rfl, hordinal⟩
  · rintro ⟨hform, hpayload, rfl, hvalid, ordinal, hsome, hordinal⟩
    have hslots : claim.slots.length ≤ 4096 := hvalid.length_le.trans hvalid.size.2
    have hlength : claim.payload.canonical.length < 2 ^ 64 := by
      have hle : claim.payload.canonical.length ≤ 9 * claim.slots.length + 64 :=
        SlotClaimPayload.length_canonical_le _
      omega
    have henvelope := readClaimEnvelope_eq_ok.mpr
      ⟨hlength, (rfl : encodeCose claim.gatewayIid claim.payload.canonical claim.signature = _)⟩
    have hentries := readClaimEntries_eq_ok.mpr
      ⟨_, hslots, rfl, claim.payload.canonical_eq hsome⟩
    refine (fromCose_of_entries henvelope hentries).mpr ⟨hordinal, hvalid, claim.mode, rfl, ?_⟩
    rw [ClaimValues.claim, ← hsome, ← hpayload, ← hform]
    rfl

theorem coseSigDigest_eq (h : claim.cosePayload = some claim.payload.canonical) :
    claim.coseSigDigest crypto = claim.payload.coseSigDigest crypto := by
  simp only [coseSigDigest, h, SlotClaimPayload.coseSigDigest, SlotClaimPayload.encodeCanonical_eq,
    Bind.bind, Except.bind]

theorem fromCose_canonical (slotsPerSuperframe : Nat) :
    (∀ envelope claim, fromCose envelope slotsPerSuperframe = .ok claim →
      ∃ payload, claim.payload.encodeCanonical = .ok payload ∧
        envelope = encodeCose claim.gatewayIid payload claim.signature ∧
        ∀ crypto, claim.coseSigDigest crypto = claim.payload.coseSigDigest crypto) ∧
    ∀ (claim : SlotClaimPayload) payload signature ordinal, claim.encodeCanonical = .ok payload →
      ValidSlots slotsPerSuperframe claim.slots → claim.ordinal = some ordinal → ordinal < 256 →
      ∃ raw, fromCose (encodeCose claim.gatewayIid payload signature) slotsPerSuperframe = .ok raw ∧
        raw.payload = claim ∧ raw.signature = signature := by
  constructor
  · intro envelope claim h
    obtain ⟨-, hpayload, henvelope, -⟩ := fromCose_eq_ok.mp h
    exact ⟨_, claim.payload.encodeCanonical_eq, henvelope, fun crypto => coseSigDigest_eq hpayload⟩
  · intro claim payload signature ordinal hpayload hvalid hsome hordinal
    rw [claim.encodeCanonical_eq] at hpayload
    cases hpayload
    refine ⟨⟨claim.gatewayIid, claim.slots, claim.superframeEpoch, claim.claimSeq, claim.mode,
      claim.expiry, claim.ordinal, signature, .coseSign1, some claim.canonical⟩, ?_, rfl, rfl⟩
    exact fromCose_eq_ok.mpr ⟨rfl, rfl, rfl, hvalid, ordinal, hsome, UInt64.lt_iff_toNat_lt.mp hordinal⟩

theorem fromCose_canonical_of_two_slots :
    let claim : SlotClaimPayload :=
      ⟨[1, 40], 1000, .contiguous, 70000, List.Vector.replicate 8 2, 3, some 1⟩
    ∃ raw, fromCose (encodeCose claim.gatewayIid claim.canonical (List.Vector.replicate 48 0)) 60 =
      .ok raw ∧ raw.payload = claim ∧ raw.signature = List.Vector.replicate 48 0 := by
  intro claim
  have hvalid : ValidSlots 60 claim.slots := ⟨by decide, by simp [claim], by simp [claim]⟩
  exact (fromCose_canonical 60).2 claim _ _ 1 claim.encodeCanonical_eq hvalid rfl (by decide)

end RawSlotClaim

end Lichen.Gateway
