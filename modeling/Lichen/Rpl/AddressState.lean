import Lichen.Lib.Guard
import Lichen.Rpl.AddressAssignment

namespace Lichen.Rpl

open Lichen.Lib Lichen.Core TableSnapshot List

variable {α : Type} {short : Nat} {eui64 : Eui64} {assignments : BTreeMap Eui64} {seen : List Eui64}

theorem checkShort_eq_ok : checkShort short = .ok u ↔ firstShort ≤ short ∧ short ≤ lastShort := by
  rw [checkShort]
  split <;> simp [*]

structure OneToOne (assignments : BTreeMap Eui64) : Prop where
  inRange : ∀ short eui64, assignments.get short = some eui64 →
    firstShort ≤ short ∧ short ≤ lastShort
  injective : ∀ short short' eui64, assignments.get short = some eui64 →
    assignments.get short' = some eui64 → short = short'

theorem oneToOne_new : OneToOne .new := ⟨nofun, nofun⟩

theorem oneToOne_of_entries (hrange : ∀ e ∈ assignments.entries, firstShort ≤ e.1 ∧ e.1 ≤ lastShort)
    (hnodup : (assignments.entries.map Prod.snd).Nodup) : OneToOne assignments where
  inRange _ _ h := hrange _ (BTreeMap.mem_entries.mpr h)
  injective _ _ _ h h' := congrArg Prod.fst (inj_on_of_nodup_map hnodup
    (BTreeMap.mem_entries.mpr h) (BTreeMap.mem_entries.mpr h') rfl)

theorem get_euiMap (h : OneToOne assignments) :
    (ShortAddressCoordinator.euiMap assignments).get eui64 = some short ↔
      assignments.get short = some eui64 := by
  have hnodup : ((assignments.entries.map Prod.swap).map Prod.fst).Nodup := by
    rw [map_map]
    refine List.Nodup.map_on ?_ (List.Nodup.of_map _ assignments.nodup_keys)
    intro e he e' he' heq
    have hshort := h.injective e.1 e'.1 e.2 (BTreeMap.mem_entries.mp he)
      (BTreeMap.mem_entries.mp (by rwa [show e.2 = e'.2 from heq]))
    exact Prod.ext hshort heq
  rw [ShortAddressCoordinator.euiMap, HashMap.get_collect hnodup, ← BTreeMap.mem_entries,
    mem_map]
  constructor
  · rintro ⟨e, he, heq⟩
    cases heq
    exact he
  · exact fun he => ⟨_, he, rfl⟩

theorem of_writeRecords (h : writeRecords record entries seen = .ok state) :
    (∀ e ∈ entries, firstShort ≤ e.1 ∧ e.1 ≤ lastShort) ∧ (entries.map Prod.snd).Nodup ∧
      ∀ e ∈ entries, e.2 ∉ seen := by
  induction entries generalizing seen state with
  | nil => exact ⟨nofun, .nil, nofun⟩
  | cons e rest ih =>
    simp only [writeRecords, bind_eq_ok, checkShort_eq_ok, ite_error_eq_ok] at h
    obtain ⟨-, hshort, hseen, _, hrest, -⟩ := h
    obtain ⟨hrange, hnodup, hfresh⟩ := ih hrest
    refine ⟨forall_mem_cons.mpr ⟨hshort, hrange⟩, nodup_cons.mpr ⟨?_, hnodup⟩,
      forall_mem_cons.mpr ⟨hseen, ?_⟩⟩
    · intro hmem
      obtain ⟨e', he', heq⟩ := mem_map.mp hmem
      exact hfresh e' he' (heq ▸ mem_cons_self)
    · exact fun e' he' hmem => hfresh e' he' (mem_cons_of_mem _ hmem)

theorem encodeRecords_eq_ok :
    encodeRecords magic assignments record = .ok blob ↔ assignments.len ≤ shortPoolSize ∧
      ∃ records, writeRecords record assignments.entries [] = .ok records ∧
        magic ++ beBytes 2 assignments.len ++ records ++
          crc32Be (magic ++ beBytes 2 assignments.len ++ records) = blob := by
  simp only [encodeRecords, ite_error_eq_ok, bind_eq_ok, pure_eq_ok, not_lt]

theorem oneToOne_of_encodeTableState
    (h : encodeTableState table = .ok blob) : OneToOne table.assignments := by
  obtain ⟨-, _, hrecords, -⟩ := encodeRecords_eq_ok.mp h
  obtain ⟨hrange, hnodup, -⟩ := of_writeRecords hrecords
  exact oneToOne_of_entries hrange hnodup

section Read

variable {count previous : Nat} {records : List (Nat × Eui64 × α)}

structure Checked (previous : Nat) (seen : List Eui64) (records : List (Nat × Eui64 × α)) :
    Prop where
  inRange : ∀ r ∈ records, firstShort ≤ r.1 ∧ r.1 ≤ lastShort
  sorted : (previous :: records.map Prod.fst).Pairwise (· < ·)
  fresh : (records.map fun r => r.2.1).Nodup
  unseen : ∀ r ∈ records, r.2.1 ∉ seen

theorem checked_of_readRecords
    (h : readRecords errors recordLength extra count state previous seen = .ok records) :
    Checked previous seen records := by
  induction count generalizing state previous seen records with
  | zero =>
    cases h
    exact ⟨nofun, pairwise_singleton _ _, .nil, nofun⟩
  | succ count ih =>
    simp only [readRecords, bind_eq_ok, checkShort_eq_ok, ite_error_eq_ok, pure_eq_ok] at h
    obtain ⟨-, hshort, hprevious, hseen, _, -, _, hrest, rfl⟩ := h
    have ih := ih hrest
    constructor
    case inRange => exact forall_mem_cons.mpr ⟨hshort, ih.inRange⟩
    case sorted =>
      refine pairwise_cons.mpr ⟨?_, ih.sorted⟩
      have hnext := pairwise_cons.mp ih.sorted
      refine forall_mem_cons.mpr ⟨not_le.mp hprevious, fun s hs => ?_⟩
      exact (not_le.mp hprevious).trans (hnext.1 s hs)
    case fresh =>
      refine nodup_cons.mpr ⟨?_, ih.fresh⟩
      intro hmem
      obtain ⟨r, hr, heq⟩ := mem_map.mp hmem
      exact ih.unseen r hr (heq ▸ mem_cons_self)
    case unseen =>
      refine forall_mem_cons.mpr ⟨hseen, fun r hr hmem => ?_⟩
      exact ih.unseen r hr (mem_cons_of_mem _ hmem)

theorem Checked.nodup_keys (h : Checked previous seen records) :
    ((records.map fun r => (r.1, r.2.1)).map Prod.fst).Nodup := by
  rw [map_map]
  exact (pairwise_cons.mp h.sorted).2.imp ne_of_lt

theorem Checked.oneToOne (h : Checked previous seen records) :
    OneToOne (.collect (records.map fun r => (r.1, r.2.1))) := by
  constructor
  · intro short eui64 hget
    obtain ⟨r, hr, heq⟩ := mem_map.mp ((BTreeMap.get_collect h.nodup_keys).mp hget)
    cases heq
    exact h.inRange r hr
  · intro short short' eui64 hget hget'
    obtain ⟨r, hr, heq⟩ := mem_map.mp ((BTreeMap.get_collect h.nodup_keys).mp hget)
    obtain ⟨_, hr', heq'⟩ := mem_map.mp ((BTreeMap.get_collect h.nodup_keys).mp hget')
    cases heq
    injection heq' with hshort heui
    rw [inj_on_of_nodup_map h.fresh hr' hr heui] at hshort
    exact hshort

theorem decodeRecords_eq_ok : decodeRecords errors recordLength extra state = .ok records ↔
    state.length = 6 + beNat (state.extract 4 6) * recordLength + 4 ∧ checksumOk state = true ∧
      readRecords errors recordLength extra (beNat (state.extract 4 6)) (state.drop 6) 0 [] =
        .ok records := by
  simp only [decodeRecords, ite_error_eq_ok, not_not]

theorem checked_of_decodeRecords
    (h : decodeRecords errors recordLength extra state = .ok records) : Checked 0 [] records :=
  checked_of_readRecords (decodeRecords_eq_ok.mp h).2.2

end Read

theorem oneToOne_of_decodeAssignmentState (h : decodeAssignmentState state = .ok assignments) :
    OneToOne assignments := by
  simp only [decodeAssignmentState, ite_error_eq_ok, bind_eq_ok, pure_eq_ok] at h
  obtain ⟨-, _, hrecords, rfl⟩ := h
  exact (checked_of_decodeRecords hrecords).oneToOne

theorem oneToOne_of_decodeTableState
    (h : decodeTableState state = .ok table) : OneToOne table.assignments := by
  rw [decodeTableState] at h
  split at h
  · simp only [bind_eq_ok, pure_eq_ok] at h
    obtain ⟨assignments, hdecode, rfl⟩ := h
    exact oneToOne_of_decodeAssignmentState hdecode
  · simp only [ite_error_eq_ok, bind_eq_ok, pure_eq_ok] at h
    obtain ⟨-, _, hrecords, rfl⟩ := h
    exact (checked_of_decodeRecords hrecords).oneToOne

section RoundTrip

variable {value : Eui64 → α}

theorem readRecords_writeRecords (errors : StateErrors) (tail : Eui64 → Bytes)
    (htail : ∀ eui64, (tail eui64).length + 10 = recordLength)
    (hextra : ∀ eui64, extra (tail eui64) = .ok (value eui64))
    (h : writeRecords (fun short eui64 => beBytes 2 short ++ eui64.toList ++ tail eui64) entries
      seen = .ok state)
    (hsorted : (previous :: entries.map Prod.fst).Pairwise (· < ·)) (post : Bytes) :
    state.length = entries.length * recordLength ∧
      readRecords errors recordLength extra entries.length (state ++ post) previous seen =
        .ok (entries.map fun e => (e.1, e.2, value e.2)) := by
  induction entries generalizing seen state previous with
  | nil =>
    cases h
    exact ⟨(Nat.zero_mul _).symm, rfl⟩
  | cons e rest ih =>
    obtain ⟨short, eui64⟩ := e
    simp only [writeRecords, bind_eq_ok, checkShort_eq_ok, ite_error_eq_ok, pure_eq_ok] at h
    obtain ⟨-, hshort, hseen, records, hrest, rfl⟩ := h
    obtain ⟨hprevious, hsorted⟩ := pairwise_cons.mp hsorted
    obtain ⟨hlength, hread⟩ := ih hrest hsorted
    have hrecord : (beBytes 2 short ++ eui64.toList ++ tail eui64).length = recordLength := by
      rw [← htail eui64, length_append, length_append, length_beBytes,
        eui64.toList_length]
      omega
    have hlt : short < 256 ^ 2 := lt_of_le_of_lt hshort.2 (by decide)
    generalize hinput : beBytes 2 short ++ eui64.toList ++ tail eui64 ++ records ++ post = input
    have hfield : beNat (input.extract 0 2) = short := by
      rw [← hinput, append_assoc, append_assoc, append_assoc]
      exact beNat_field [] _ hlt
    have howner : input.extract 2 10 = eui64.toList := by
      rw [← hinput, append_assoc, append_assoc, append_assoc]
      exact extract_field (length_beBytes 2 short) (by rw [length_beBytes, eui64.toList_length])
    have hlease : input.extract 10 recordLength = tail eui64 := by
      rw [← hinput, append_assoc, append_assoc]
      refine extract_field ?_ ?_
      · rw [length_append, length_beBytes, eui64.toList_length]
      · rw [← length_append, hrecord]
    have hdrop : input.drop recordLength = records ++ post := by
      rw [← hinput, append_assoc, ← hrecord, drop_left]
    refine ⟨?_, ?_⟩
    · rw [length_append, hrecord, hlength, length_cons]
      ring
    · simp only [length_cons, readRecords, hfield, howner, hlease, hdrop, toArray_toList,
        hextra, hread, bind_eq_ok, checkShort_eq_ok, ite_error_eq_ok, pure_eq_ok]
      exact ⟨(), hshort, not_le.mpr (hprevious short mem_cons_self), hseen, _, rfl, _, rfl, rfl⟩

theorem checksumOk_append (body : Bytes) : checksumOk (body ++ crc32Be body) = true := by
  have hlength : (body ++ crc32Be body).length - 4 = body.length := by
    rw [length_append, crc32Be, length_beBytes, Nat.add_sub_cancel]
  rw [checksumOk, hlength, take_left, drop_left, decide_eq_true rfl, Bool.and_true,
    decide_eq_true_eq, length_append, crc32Be, length_beBytes]
  exact Nat.le_add_left 4 _

theorem readLease_beBytes {expiry sequence : Nat} (h : sequence ≤ noSequence) :
    readLease (beBytes 8 expiry ++ beBytes 2 sequence) =
      .ok (if expiry % 256 ^ 8 = noExpiry then none else some (expiry % 256 ^ 8),
        if sequence = noSequence then none else some (UInt8.ofNat sequence)) := by
  have hexpiry : (beBytes 8 expiry ++ beBytes 2 sequence).extract 0 8 = beBytes 8 expiry := by
    rw [List.extract, drop_zero, Nat.sub_zero, take_left' (length_beBytes 8 expiry)]
  have hsequence : beNat ((beBytes 8 expiry ++ beBytes 2 sequence).extract 8 10) = sequence := by
    rw [← append_nil (beBytes 2 sequence)]
    have hfield := beNat_field (beBytes 8 expiry) [] (lt_of_le_of_lt h (by decide : _ < 256 ^ 2))
    rwa [length_beBytes] at hfield
  rw [readLease, hsequence, hexpiry, beNat_beBytes, if_neg (not_lt.mpr h)]

theorem nodup_filterMap_keys {l : List ρ} (f : ρ → Option ν) (h : (l.map key).Nodup) :
    ((l.filterMap fun r => (f r).map fun v => (key r, v)).map Prod.fst).Nodup := by
  refine h.sublist ?_
  clear h
  induction l with
  | nil => exact .slnil
  | cons r rest ih =>
    rw [filterMap_cons, map_cons]
    cases f r with
    | none => exact ih.cons _
    | some => exact ih.cons_cons _

structure Restores (table table' : TableSnapshot) : Prop where
  assignments : ∀ short eui64,
    table'.assignments.get short = some eui64 ↔ table.assignments.get short = some eui64
  sequences : ∀ short eui64, table.assignments.get short = some eui64 →
    table'.sequences.get eui64 = table.sequences.get eui64

section

variable (table : TableSnapshot)

def TableSnapshot.lease (eui64 : Eui64) : Bytes :=
  beBytes 8 ((table.expiries.get eui64).getD noExpiry) ++
    beBytes 2 (((table.sequences.get eui64).map UInt8.toNat).getD noSequence)

theorem TableSnapshot.readLease_lease (eui64 : Eui64) :
    ∃ expiry, readLease (table.lease eui64) = .ok (expiry, table.sequences.get eui64) := by
  have hsequence : ((table.sequences.get eui64).map UInt8.toNat).getD noSequence ≤ noSequence := by
    cases table.sequences.get eui64 with
    | none => exact le_refl _
    | some sequence => exact le_of_lt sequence.toNat_lt
  rw [lease, readLease_beBytes hsequence]
  cases table.sequences.get eui64 with
  | none => exact ⟨_, rfl⟩
  | some sequence =>
    have hlt : sequence.toNat ≠ noSequence := ne_of_lt sequence.toNat_lt
    rw [Option.map_some, Option.getD_some, if_neg hlt, UInt8.ofNat_toNat]
    exact ⟨_, rfl⟩

theorem TableSnapshot.length_lease (eui64 : Eui64) :
    (table.lease eui64).length + 10 = tableStateRecordLength := by
  rw [lease, length_append, length_beBytes, length_beBytes]
  rfl

end

theorem decodeRecords_encodeTableState (h : encodeTableState table = .ok blob) :
    ∃ records, decodeRecords tableStateErrors tableStateRecordLength readLease blob = .ok records ∧
      tableStateMagic <+: blob ∧ 10 ≤ blob.length ∧
      records.map (fun r => (r.1, r.2.1)) = table.assignments.entries ∧
      ∀ r ∈ records, r.2.2.2 = table.sequences.get r.2.1 := by
  obtain ⟨hlen, state, hstate, rfl⟩ := encodeRecords_eq_ok.mp h
  choose expiry hlease using table.readLease_lease
  simp only [append_assoc] at hstate
  simp only [← append_assoc (beBytes 2 _)] at hstate
  have hsorted : (0 :: table.assignments.entries.map Prod.fst).Pairwise (· < ·) := by
    refine pairwise_cons.mpr ⟨?_, pairwise_map.mpr table.assignments.sorted⟩
    intro short hshort
    obtain ⟨e, he, rfl⟩ := mem_map.mp hshort
    exact ((of_writeRecords hstate).1 e he).1
  have hmagic : tableStateMagic.length = 4 := by decide +kernel
  generalize hbody : tableStateMagic ++ beBytes 2 table.assignments.len ++ state = body
  have hchecksum := checksumOk_append body
  have hcrc : (crc32Be body).length = 4 := length_beBytes 4 _
  generalize crc32Be body = crc at *
  obtain ⟨hlength, hread⟩ := readRecords_writeRecords tableStateErrors table.lease
    table.length_lease hlease hstate hsorted crc
  have hcount : beNat ((body ++ crc).extract 4 6) = table.assignments.entries.length := by
    have hfield := beNat_field tableStateMagic (state ++ crc)
      (lt_of_le_of_lt hlen (by decide : _ < 256 ^ 2))
    rwa [hmagic, ← append_assoc, ← append_assoc, hbody] at hfield
  have hdrop : (body ++ crc).drop 6 = state ++ crc := by
    rw [← hbody, append_assoc _ state]
    refine drop_left' ?_
    rw [length_append, hmagic, length_beBytes]
  have hsize : (body ++ crc).length =
      6 + table.assignments.entries.length * tableStateRecordLength + 4 := by
    rw [← hbody, length_append, length_append, length_append, hmagic, length_beBytes,
      hlength, hcrc]
  rw [← hcount, ← hdrop] at hread
  rw [← hcount] at hsize
  refine ⟨_, decodeRecords_eq_ok.mpr ⟨hsize, hchecksum, hread⟩, ?_, ?_, ?_, ?_⟩
  · rw [← hbody, append_assoc, append_assoc]
    exact prefix_append _ _
  · rw [hsize]
    omega
  · rw [map_map]
    exact map_id _
  · intro r hr
    obtain ⟨e, -, rfl⟩ := mem_map.mp hr
    rfl

theorem decodeTableState_encodeTableState (h : encodeTableState table = .ok blob) :
    ∃ table', decodeTableState blob = .ok table' ∧ Restores table table' := by
  obtain ⟨records, hrecords, hmagic, hlength, hentries, hsequences⟩ :=
    decodeRecords_encodeTableState h
  have hchecked := checked_of_decodeRecords hrecords
  refine ⟨.ofRecords records, ?_, ?_, ?_⟩
  · rw [decodeTableState, if_neg (not_not.mpr hmagic), if_neg (not_lt.mpr hlength), hrecords]
    rfl
  · intro short eui64
    rw [ofRecords, BTreeMap.get_collect hchecked.nodup_keys, hentries, BTreeMap.mem_entries]
  · intro short eui64 hget
    rw [← BTreeMap.mem_entries, ← hentries] at hget
    obtain ⟨r, hr, heq⟩ := mem_map.mp hget
    cases heq
    apply Option.ext
    intro sequence
    rw [ofRecords, HashMap.get_collect (nodup_filterMap_keys _ hchecked.fresh),
      mem_filterMap, ← hsequences r hr]
    constructor
    · rintro ⟨_, hr', heq⟩
      obtain ⟨_, hsome, heq⟩ := Option.map_eq_some_iff.mp heq
      injection heq with howner heq
      rw [inj_on_of_nodup_map hchecked.fresh hr' hr howner] at hsome
      rw [hsome, heq]
    · exact fun hsome => ⟨r, hr, Option.map_eq_some_iff.mpr ⟨sequence, hsome, rfl⟩⟩

end RoundTrip

end Lichen.Rpl
