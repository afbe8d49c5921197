import Lichen.Schc.Ack

namespace Lichen.Schc

open Lichen.Lib BitVec

theorem getLsbD_one_shiftLeft (hm : m < w) (k : Nat) : (1#w <<< m).getLsbD k = decide (k = m) := by
  rw [getLsbD_shiftLeft, getLsbD_one, Bool.eq_iff_iff]
  simp only [Bool.and_eq_true, Bool.not_eq_true', decide_eq_true_eq, decide_eq_false_iff_not]
  omega

theorem getLsbD_gather (htop : top < w) (hn : n ≤ top + 1) (bit : Nat → Bool) (k : Nat) :
    ((List.range n).foldl (fun b i => if bit i then b ||| (1#w <<< (top - i)) else b)
      0#w).getLsbD k = (decide (k ≤ top) && decide (top - k < n) && bit (top - k)) := by
  induction n with
  | zero => simp
  | succ n ih =>
    have hstep : (if bit n then ((List.range n).foldl (fun b i =>
        if bit i then b ||| (1#w <<< (top - i)) else b) 0#w) ||| (1#w <<< (top - n)) else
        ((List.range n).foldl (fun b i => if bit i then b ||| (1#w <<< (top - i)) else b)
          0#w)).getLsbD k =
        (decide (k ≤ top) && decide (top - k < n) && bit (top - k) ||
          (bit n && decide (k = top - n))) := by
      cases hbit : bit n with
      | true =>
        rw [if_pos rfl, getLsbD_or, ih (by omega), getLsbD_one_shiftLeft (by omega),
          Bool.true_and]
      | false => rw [if_neg Bool.false_ne_true, ih (by omega), Bool.false_and, Bool.or_false]
    rw [List.range_succ, List.foldl_append, List.foldl_cons, List.foldl_nil, hstep, Bool.eq_iff_iff]
    simp only [Bool.and_eq_true, Bool.or_eq_true, decide_eq_true_eq]
    constructor
    · rintro (⟨⟨hk, hlt⟩, hbit⟩ | ⟨hbit, rfl⟩)
      · exact ⟨⟨hk, by omega⟩, hbit⟩
      · rw [Nat.sub_sub_self (by omega)]
        exact ⟨⟨Nat.sub_le _ _, Nat.lt_succ_self n⟩, hbit⟩
    · rintro ⟨⟨hk, hlt⟩, hbit⟩
      obtain hlt | heq := Nat.lt_or_eq_of_le (Nat.le_of_lt_succ hlt)
      · exact .inl ⟨⟨hk, hlt⟩, hbit⟩
      · rw [heq] at hbit
        exact .inr ⟨hbit, by omega⟩

theorem toBitVec_octetOf (htop : top < 8) (count : Nat) (bit : Nat → Bool) :
    (octetOf top count bit).toBitVec = (List.range count).foldl
      (fun b i => if bit i then b ||| (1#8 <<< (top - i)) else b) 0#8 := by
  have hone : ∀ m < 8, ((1 : UInt8) <<< UInt8.ofNat m).toBitVec = 1#8 <<< m := by decide +kernel
  rw [octetOf]
  apply (List.foldl_hom UInt8.toBitVec ?_).symm
  intro octet i
  cases bit i with
  | true =>
    rw [if_pos rfl, if_pos rfl, UInt8.toBitVec_or, hone _ (by omega)]
  | false => rfl

theorem shiftRight_and_one (octet : UInt8) (hk : k < 8) :
    decide ((octet >>> UInt8.ofNat k) &&& 1 ≠ 0) = octet.toBitVec.getLsbD k := by
  have hall : ∀ k < 8, ∀ octet : UInt8,
      decide ((octet >>> UInt8.ofNat k) &&& 1 ≠ 0) = octet.toBitVec.getLsbD k := by decide +kernel
  exact hall k hk octet

theorem getLsbD_octetOf (htop : top < 8) (hcount : count ≤ top + 1)
    (bit : Nat → Bool) (hi : i < count) :
    (octetOf top count bit).toBitVec.getLsbD (top - i) = bit i := by
  rw [toBitVec_octetOf htop, getLsbD_gather htop hcount, Nat.sub_sub_self (by omega),
    decide_eq_true (Nat.sub_le _ _), decide_eq_true hi, Bool.true_and, Bool.true_and]

namespace Ack

/-- An ACK that a receiver can hold: the bitmap has 63 bits, and is zero if all has arrived. -/
structure Valid (ack : Ack) : Prop where
  rule : checkRule ack.ruleId = .ok ()
  window : ack.window = 0 ∨ ack.window = 1
  bitmap : ack.bitmap.getLsbD 63 = false
  complete : ack.complete = true → ack.bitmap = 0

section

variable {bitmap : BitVec 64} (h : bitmap.getLsbD 63 = false)

include h in
theorem and_bitmapMask : bitmap &&& bitmapMask = bitmap := by
  apply eq_of_getLsbD_eq
  intro k hk
  rw [getLsbD_and, getLsbD_bitmapMask]
  obtain hlt | rfl := Nat.lt_or_eq_of_le (Nat.le_of_lt_succ hk)
  · rw [decide_eq_true hlt, Bool.and_true]
  · rw [h, Bool.false_and]

theorem getLsbD_of_lt_trailingOnes (hk : k < 64) (hlt : k < trailingOnes bitmap) :
    bitmap.getLsbD k = true := by
  have hbit := getLsbD_false_of_lt_ctz hlt
  rw [getLsbD_not, decide_eq_true hk, Bool.true_and, Bool.not_eq_false'] at hbit
  exact hbit

include h in
theorem trailingOnes_le : trailingOnes bitmap ≤ 63 := by
  by_contra hlt
  have hbit := getLsbD_of_lt_trailingOnes (by omega) (Nat.not_le.mp hlt)
  rw [h] at hbit
  cases hbit

include h in
theorem encodedBit_eq (hi : i ≤ 62) : encodedBit bitmap i = bitmap.getLsbD (62 - i) := by
  have hle := trailingOnes_le h
  dsimp only [encodedBit]
  rw [and_bitmapMask h, windowSize]
  split
  · rfl
  · rw [getLsbD_of_lt_trailingOnes (by omega) (by omega)]
    exact decide_eq_true (by omega)

theorem bodyBytes_le : bodyBytes bitmap ≤ 8 := by
  dsimp only [bodyBytes]
  rw [windowSize]
  omega

end

theorem length_encode (ack : Ack) : ack.encode.length = 2 + bodyBytes ack.bitmap := by
  rw [encode, List.length_cons, List.length_cons, List.length_map, List.length_range]
  omega

theorem decodedBit_encode (ack : Ack) (hi : i < 6 + bodyBytes ack.bitmap * 8) :
    decodedBit ack.encode i = encodedBit ack.bitmap i := by
  have hwindow : ∀ k < 7, ∀ window : UInt8, (window <<< 7).toBitVec.getLsbD k = false := by
    decide +kernel
  rw [decodedBit]
  split
  · have hoctet : ack.encode.getD 1 0 =
        (ack.window <<< 7) ||| octetOf 5 6 (encodedBit ack.bitmap) := rfl
    rw [shiftRight_and_one _ (by omega), hoctet, UInt8.toBitVec_or, getLsbD_or,
      hwindow _ (by omega), getLsbD_octetOf (by omega) (by omega) _ ‹_›, Bool.false_or]
  · have hoctet : ack.encode.getD (2 + (i - 6) / 8) 0 =
        octetOf 7 8 fun j => encodedBit ack.bitmap (6 + (i - 6) / 8 * 8 + j) := by
      have hj : (i - 6) / 8 < bodyBytes ack.bitmap := by omega
      rw [encode, Nat.add_comm, List.getD_cons_succ, List.getD_cons_succ,
        List.getD_eq_getElem?_getD, List.getElem?_map, List.getElem?_range hj, Option.map_some,
        Option.getD_some]
    rw [shiftRight_and_one _ (by omega), hoctet, getLsbD_octetOf (by omega) (by omega) _ (by omega)]
    congr 1
    omega

theorem getLsbD_lowMask (hn : n < 64) (hk : k < 64) :
    ((1#64 <<< n) - 1).getLsbD k = decide (k < n) := by
  revert k
  revert n
  decide +kernel

section

variable {ack : Ack}

theorem decodedBit_encode_eq (h : ack.bitmap.getLsbD 63 = false) (hk : k ≤ 62)
    (hlt : 62 - k < 6 + bodyBytes ack.bitmap * 8) :
    decodedBit ack.encode (62 - k) = ack.bitmap.getLsbD k := by
  rw [decodedBit_encode ack hlt, encodedBit_eq h (Nat.sub_le _ _), Nat.sub_sub_self hk]

theorem getLsbD_of_not_encoded {bitmap : BitVec 64} (h : bitmap.getLsbD 63 = false)
    (hk : k ≤ 62) (hle : 6 + bodyBytes bitmap * 8 ≤ 62 - k) : bitmap.getLsbD k = true := by
  apply getLsbD_of_lt_trailingOnes (by omega)
  dsimp only [bodyBytes] at hle
  rw [and_bitmapMask h, windowSize] at hle
  omega

theorem decodedBitmap_encode (h : ack.bitmap.getLsbD 63 = false) :
    decodedBitmap ack.encode = ack.bitmap := by
  dsimp only [decodedBitmap]
  rw [length_encode, Nat.add_sub_cancel_left]
  generalize htotal : 6 + bodyBytes ack.bitmap * 8 = total
  apply eq_of_getLsbD_eq
  intro k hk
  rw [getLsbD_and, getLsbD_bitmapMask]
  obtain hk | rfl := Nat.lt_or_eq_of_le (Nat.le_of_lt_succ hk)
  · have hgather : ((List.range (min total 63)).foldl (fun bitmap i =>
        if decodedBit ack.encode i then bitmap ||| (1#64 <<< (62 - i)) else bitmap) 0#64).getLsbD k =
        (decide (62 - k < min total 63) && decodedBit ack.encode (62 - k)) := by
      rw [getLsbD_gather (by omega) (Nat.min_le_right total 63), decide_eq_true (Nat.le_of_lt_succ hk),
        Bool.true_and]
    rw [decide_eq_true hk, Bool.and_true]
    obtain hsent | hunsent := Nat.lt_or_ge (62 - k) total
    · rw [decodedBit_encode_eq h (by omega) (by omega), decide_eq_true (by omega), Bool.true_and]
        at hgather
      split
      · rw [getLsbD_or, hgather, getLsbD_lowMask (by omega) (by omega),
          decide_eq_false (by omega), Bool.or_false]
      · exact hgather
    · rw [if_pos (by omega), getLsbD_or, getLsbD_lowMask (by omega) (by omega),
        decide_eq_true (by omega), Bool.or_true, getLsbD_of_not_encoded h (by omega) (by omega)]
  · rw [h, decide_eq_false (Nat.lt_irrefl _), Bool.and_false]

def wire (ack : Ack) : Bytes :=
  if ack.complete then [ack.ruleId, (ack.window <<< 7) ||| 0x40] else ack.encode

theorem writeTo_of_valid (h : ack.Valid)
    (hroom : ack.wire.length ≤ capacity) : ack.writeTo capacity = .ok ack.wire := by
  have hwindow := (Fragment.window_cases ack.window).mpr h.window
  rw [wire] at hroom ⊢
  simp only [writeTo, h.rule, if_neg hwindow]
  split
  · rename_i hcomplete
    rw [if_pos hcomplete] at hroom
    have hroom : 2 ≤ capacity := hroom
    rw [if_neg (not_not.mpr (h.complete hcomplete)), if_neg (Nat.not_lt.mpr hroom)]
  · rename_i hcomplete
    rw [if_neg hcomplete, length_encode] at hroom
    rw [if_neg (Nat.not_lt.mpr hroom)]

theorem canonical_of_valid (h : ack.Valid)
    (hroom : ack.wire.length ≤ capacity) : canonical ack ack.wire capacity = .ok ack := by
  rw [canonical, writeTo_of_valid h hroom]
  exact if_neg (not_not.mpr rfl)

theorem new_of_valid (h : ack.Valid) : new ack.ruleId ack.window ack.bitmap ack.complete = ack := by
  rw [new, and_bitmapMask h.bitmap]

theorem window_octet {window : UInt8} (h : window = 0 ∨ window = 1) (octet : UInt8)
    (hoctet : octet &&& 0xC0 = 0) :
    (((window <<< 7) ||| octet) >>> 7) &&& 1 = window ∧ ((window <<< 7) ||| octet) &&& 0x40 = 0 := by
  have hzero : ∀ octet : UInt8, octet &&& 0xC0 = 0 → (((0 : UInt8) <<< 7 ||| octet) >>> 7) &&& 1 = 0 ∧
      ((0 : UInt8) <<< 7 ||| octet) &&& 0x40 = 0 := by decide +kernel
  have hone : ∀ octet : UInt8, octet &&& 0xC0 = 0 → (((1 : UInt8) <<< 7 ||| octet) >>> 7) &&& 1 = 1 ∧
      ((1 : UInt8) <<< 7 ||| octet) &&& 0x40 = 0 := by decide +kernel
  obtain rfl | rfl := h
  · exact hzero octet hoctet
  · exact hone octet hoctet

theorem window_complete {window : UInt8} (h : window = 0 ∨ window = 1) :
    (((window <<< 7) ||| 0x40) >>> 7) &&& 1 = window ∧ ((window <<< 7) ||| 0x40) &&& 0x40 ≠ 0 := by
  obtain rfl | rfl := h <;> decide

theorem fromBytes_wire (h : ack.Valid) : fromBytes ack.wire = .ok ack := by
  have hnew := new_of_valid h
  cases hcomplete : ack.complete with
  | true =>
    have hwire : ack.wire = [ack.ruleId, (ack.window <<< 7) ||| 0x40] := if_pos hcomplete
    have hlength : ack.wire.length = 2 := by rw [hwire]; rfl
    have hrule : ack.wire.getD 0 0 = ack.ruleId := by rw [hwire]; rfl
    have hoctet : ack.wire.getD 1 0 = (ack.window <<< 7) ||| 0x40 := by rw [hwire]; rfl
    obtain ⟨hwindow, hbit⟩ := window_complete h.window
    rw [hcomplete, h.complete hcomplete] at hnew
    simp only [fromBytes, fromBytesFor, hlength, hrule, hoctet, hwindow, hnew]
    rw [if_neg (by omega), if_neg (by omega), if_pos hbit, if_neg (not_not.mpr rfl)]
    exact canonical_of_valid h hlength.le
  | false =>
    have hwire : ack.wire = ack.encode := if_neg (by rw [hcomplete]; exact Bool.false_ne_true)
    have hlength : ack.wire.length = 2 + bodyBytes ack.bitmap := by rw [hwire, length_encode]
    have hrule : ack.wire.getD 0 0 = ack.ruleId := by rw [hwire]; rfl
    have hoctet : ack.wire.getD 1 0 =
        (ack.window <<< 7) ||| octetOf 5 6 (encodedBit ack.bitmap) := by rw [hwire]; rfl
    have hbitmap : decodedBitmap ack.wire = ack.bitmap := by
      rw [hwire, decodedBitmap_encode h.bitmap]
    have hbody : bodyBytes ack.bitmap ≤ 8 := bodyBytes_le
    have hcanonical : canonical ack ack.wire 10 = .ok ack := canonical_of_valid h (by omega)
    obtain ⟨hwindow, hbit⟩ := window_octet h.window _ (octetOf_and (encodedBit ack.bitmap))
    rw [hcomplete] at hnew
    simp only [fromBytes, fromBytesFor, hlength, hrule, hoctet, hwindow, hbitmap, hnew, hcanonical]
    rw [if_neg (by omega), if_neg (by omega), if_neg (not_not.mpr hbit), if_neg (not_not.mpr rfl)]
    rfl

theorem writeTo_ok (h : ack.writeTo capacity = .ok data) :
    checkRule ack.ruleId = .ok () ∧ (ack.window = 0 ∨ ack.window = 1) ∧
      (ack.complete = true → ack.bitmap = 0) ∧ data = ack.wire := by
  simp only [writeTo] at h
  split at h
  · cases h
  rename_i hrule
  split at h
  · cases h
  rename_i hwindow
  refine ⟨hrule, (Fragment.window_cases ack.window).mp hwindow, ?_⟩
  rw [wire]
  split at h
  · rename_i hcomplete
    split at h
    · cases h
    rename_i hbitmap
    split at h
    · cases h
    · cases h
      exact ⟨fun _ => not_not.mp hbitmap, (if_pos hcomplete).symm⟩
  · rename_i hcomplete
    split at h
    · cases h
    · cases h
      exact ⟨fun h => absurd h hcomplete, (if_neg hcomplete).symm⟩

theorem getLsbD_and_bitmapMask (bitmap : BitVec 64) : (bitmap &&& bitmapMask).getLsbD 63 = false := by
  rw [getLsbD_and, getLsbD_bitmapMask, decide_eq_false (by omega), Bool.and_false]

theorem valid_of_canonical {ruleId window : UInt8} {bitmap : BitVec 64} {complete : Bool}
    (h : canonical (new ruleId window bitmap complete) data capacity = .ok ack) :
    ack.Valid ∧ data = ack.wire := by
  obtain ⟨rfl, hwritten⟩ := canonical_ok h
  obtain ⟨hrule, hwindow, hcomplete, hwire⟩ := writeTo_ok hwritten
  exact ⟨⟨hrule, hwindow, getLsbD_and_bitmapMask bitmap, hcomplete⟩, hwire⟩

theorem valid_of_fromBytes (h : fromBytes data = .ok ack) : ack.Valid ∧ data = ack.wire := by
  simp only [fromBytes, fromBytesFor] at h
  split at h
  · cases h
  split at h
  · cases h
  split at h
  · split at h
    · cases h
    · exact valid_of_canonical h
  split at h
  · cases h
  split at h
  · cases h
  · rename_i hcanonical
    split at h
    · cases h
    · cases h
      exact valid_of_canonical hcanonical

end

theorem length_wire_le (ack : Ack) : ack.wire.length ≤ 10 := by
  have hbody : bodyBytes ack.bitmap ≤ 8 := bodyBytes_le
  rw [wire]
  split
  · exact Nat.le_of_ble_eq_true rfl
  · rw [length_encode]
    omega

/-- The two directions of the codec are inverse. -/
theorem fromBytes_writeTo_inverse :
    (∀ ack : Ack, ack.Valid → (∀ capacity, 10 ≤ capacity → ∃ data, ack.writeTo capacity = .ok data) ∧
      ∀ capacity data, ack.writeTo capacity = .ok data → fromBytes data = .ok ack) ∧
    ∀ data ack, fromBytes data = .ok ack →
      ack.Valid ∧ ∀ capacity, data.length ≤ capacity → ack.writeTo capacity = .ok data := by
  constructor
  · intro ack h
    constructor
    · intro capacity hroom
      exact ⟨ack.wire, writeTo_of_valid h (ack.length_wire_le.trans hroom)⟩
    · intro capacity data hwritten
      rw [(writeTo_ok hwritten).2.2.2]
      exact fromBytes_wire h
  · intro data ack h
    obtain ⟨hvalid, rfl⟩ := valid_of_fromBytes h
    exact ⟨hvalid, fun capacity hroom => writeTo_of_valid hvalid hroom⟩

/-- A bitmap with a hole in the middle. -/
theorem fromBytes_writeTo_inverse_of_hole :
    let ack : Ack := ⟨ruleIdAToB, 1, 0x7fffffffdfffffff#64, false⟩
    ack.writeTo 10 = .ok [0x78, 0xbf, 0xff, 0xff, 0xff, 0xef] ∧
      fromBytes [0x78, 0xbf, 0xff, 0xff, 0xff, 0xef] = .ok ack := by
  intro ack
  have hvalid : ack.Valid := ⟨rfl, .inr rfl, by decide +kernel, nofun⟩
  have hwritten : ack.writeTo 10 = .ok [0x78, 0xbf, 0xff, 0xff, 0xff, 0xef] := by decide +kernel
  exact ⟨hwritten, (fromBytes_writeTo_inverse.1 ack hvalid).2 10 _ hwritten⟩

end Ack

end Lichen.Schc
