import Lichen.Schc.Fragment

namespace Lichen.Schc

open Lichen.Lib List

theorem length_shiftOut (data : Bytes) : (shiftOut data).length = data.length - 1 := by
  induction data with
  | nil => rfl
  | cons a data ih =>
    cases data with
    | nil => rfl
    | cons =>
      rw [shiftOut, length_cons, ih]
      rfl

theorem and_fe_of_and_one (a : UInt8) (h : a &&& 1 = 0) : a &&& (0xFE : UInt8) = a := by
  revert a
  decide +kernel

theorem shift_or (a b : UInt8) : (a &&& (0xFE : UInt8)) ||| (((a <<< 7) ||| (b >>> 1)) >>> 7) = a ∧
    ((a <<< 7) ||| (b >>> 1)) <<< 1 = b &&& (0xFE : UInt8) := by
  have hlow : ∀ b : UInt8, (b >>> 1) >>> 7 = 0 ∧ (b >>> 1) <<< 1 = b &&& (0xFE : UInt8) := by
    decide +kernel
  have hhigh : ∀ a : UInt8, (a &&& (0xFE : UInt8)) ||| ((a <<< 7) >>> 7) = a ∧ (a <<< 7) <<< 1 = 0 := by
    decide +kernel
  rw [UInt8.shiftRight_or, UInt8.shiftLeft_or, (hlow b).1, (hlow b).2, UInt8.or_zero, (hhigh a).1,
    (hhigh a).2, UInt8.zero_or]
  exact ⟨rfl, rfl⟩

theorem shiftIn_shiftOut (a : UInt8) (rest : Bytes) (d : UInt8)
    (h : (a :: rest).getLastD d &&& 1 = 0) :
    shiftIn (a &&& (0xFE : UInt8)) (shiftOut (a :: rest)) = a :: rest := by
  induction rest generalizing a d with
  | nil => exact congrArg (· :: []) (and_fe_of_and_one a h)
  | cons b rest ih =>
    obtain ⟨hhead, hnext⟩ := shift_or a b
    rw [shiftOut, shiftIn, hhead, hnext, ih b a h]

namespace Fragment

variable {f : Fragment} {data : Bytes} {room : Nat}

theorem header_of_octet (octet : UInt8) :
    (((octet >>> 7) &&& 1) &&& 1) <<< 7 ||| (((octet >>> 1) &&& 63) &&& 63) <<< 1 =
      octet &&& (0xFE : UInt8) := by
  revert octet
  decide +kernel

theorem fields_of_octet (octet : UInt8) :
    ((octet >>> 7) &&& 1 = 0 ∨ (octet >>> 7) &&& 1 = 1) ∧ (octet >>> 1) &&& 63 ≤ all1Fcn := by
  revert octet
  decide +kernel

structure Parsed (data : Bytes) (f : Fragment) : Prop where
  ruleId : f.ruleId = data.getD 0 0
  header : f.header = data.getD 1 0 &&& (0xFE : UInt8)
  window : f.window = 0 ∨ f.window = 1
  fcn : f.fcn = (data.getD 1 0 >>> 1) &&& 63
  content : f.content = shiftOut (data.drop 1)
  padding : f.isAll1 = false → data.getLastD 0 &&& 1 = 0
  length : 2 ≤ data.length
  all1 : f.isAll1 = true → 1 ≤ f.payload.length ∧ f.payload.length ≤ tileSize
  regular : f.isAll1 = false → f.payload.length = tileSize ∧ f.mic = zeroMic ∧
    ¬ (f.window = 1 ∧ f.isAll0 = true)

theorem parsed_of_fromBytes (h : fromBytes data room = .ok f) : Parsed data f := by
  simp only [fromBytes] at h
  split at h
  · cases h
  rename_i hlength
  split at h
  · cases h
  split at h
  · cases h
  rename_i hlen
  split at h
  · cases h
  split at h
  · cases h
  rename_i hpadding
  have hshift := length_shiftOut (data.drop 1)
  rw [length_drop] at hshift
  obtain ⟨hwindow, -⟩ := fields_of_octet (data.getD 1 0)
  rw [payloadLen] at hlen
  split at hlen
  · rename_i hall1
    split at hlen
    · cases hlen
      rw [if_pos hall1, if_pos hall1] at h
      cases h
      have hmic : (toArray micLength (shiftOut (data.drop 1))).toList =
          (shiftOut (data.drop 1)).take micLength :=
        take_append_of_le_length (by rw [hshift]; omega)
      have hpayload : ((shiftOut (data.drop 1)).drop micLength).take (data.length - 2 - micLength) =
          (shiftOut (data.drop 1)).drop micLength :=
        take_of_length_le (by rw [length_drop, hshift]; omega)
      have hisAll1 : decide ((data.getD 1 0 >>> 1) &&& 63 = all1Fcn) = true := decide_eq_true hall1
      exact {
        ruleId := rfl
        header := header_of_octet _
        window := hwindow
        fcn := rfl
        content := by
          rw [Fragment.content, isAll1, hisAll1, if_pos rfl, hmic, hpayload, take_append_drop]
        padding := fun h => Bool.noConfusion (hisAll1.symm.trans h)
        length := Nat.not_lt.mp hlength
        all1 := fun _ => by
          rw [hpayload, length_drop, hshift]
          omega
        regular := fun h => Bool.noConfusion (hisAll1.symm.trans h) }
    · cases hlen
  · rename_i hall1
    split at hlen
    · cases hlen
    split at hlen
    · cases hlen
    rename_i hall0
    cases hlen
    rw [if_neg hall1, if_neg hall1] at h
    cases h
    have hpayload : ((shiftOut (data.drop 1)).drop 0).take tileSize = shiftOut (data.drop 1) :=
      take_of_length_le (by rw [drop_zero, hshift]; omega)
    have hisAll1 : decide ((data.getD 1 0 >>> 1) &&& 63 = all1Fcn) = false := decide_eq_false hall1
    exact {
      ruleId := rfl
      header := header_of_octet _
      window := hwindow
      fcn := rfl
      content := by
        rw [Fragment.content, isAll1, hisAll1, if_neg Bool.false_ne_true, hpayload, nil_append]
      padding := fun _ => by
        by_contra hlast
        exact hpadding ⟨hall1, hlast⟩
      length := Nat.not_lt.mp hlength
      all1 := fun h => Bool.noConfusion (hisAll1.symm.trans h)
      regular := fun _ => ⟨by rw [hpayload, hshift]; omega, rfl, fun h =>
        hall0 ⟨h.1, of_decide_eq_true h.2⟩⟩ }

theorem Parsed.valid (h : Parsed data f) (hrule : checkRule (data.getD 0 0) = .ok ()) : f.Valid where
  rule := h.ruleId ▸ hrule
  window := h.window
  fcn := h.fcn ▸ (fields_of_octet _).2
  all1 := h.all1
  regular := h.regular

theorem Parsed.length_content (h : Parsed data f) : f.content.length + 2 = data.length := by
  have hlength := h.length
  rw [h.content, length_shiftOut, length_drop]
  omega

theorem Parsed.shiftIn_eq (h : Parsed data f) :
    f.ruleId :: shiftIn f.header f.content = data ↔ data.getLastD 0 &&& 1 = 0 := by
  obtain ⟨a, b, rest, rfl⟩ : ∃ a b rest, data = a :: b :: rest := by
    have hlength := h.length
    match data, hlength with
    | a :: b :: rest, _ => exact ⟨a, b, rest, rfl⟩
  constructor
  · intro heq
    rw [← heq, getLastD_cons]
    exact getLastD_shiftIn _ _ f.header_shiftLeft _
  · intro hlast
    rw [getLastD_cons] at hlast
    rw [h.ruleId, h.header, h.content]
    exact congrArg (a :: ·) (shiftIn_shiftOut b rest a hlast)

theorem writeTo_of_valid (h : f.Valid) (hroom : f.content.length + 2 ≤ capacity) :
    f.writeTo capacity = .ok (f.ruleId :: shiftIn f.header f.content) := by
  rw [writeTo, check_ok.mpr h]
  exact if_neg (Nat.not_lt.mpr hroom)

/-- Fragments are read back as they were written; a message is rewritten as it was read exactly if
it is not an All-1 with a set padding bit. -/
theorem fromBytes_inverse (data : Bytes) (f : Fragment) (room : Nat) :
    (∀ capacity, f.writeTo capacity = .ok data → f.payload.length ≤ room →
      fromBytes data room = .ok f) ∧
    (checkRule (data.getD 0 0) = .ok () → fromBytes data room = .ok f →
      ((∀ capacity, data.length ≤ capacity → f.writeTo capacity = .ok data) ↔
        ((data.getD 1 0 >>> 1) &&& 63 = all1Fcn → data.getLastD 0 &&& 1 = 0))) := by
  constructor
  · intro capacity h hroom
    exact fromBytes_writeTo h hroom
  · intro hrule h
    have hparsed := parsed_of_fromBytes h
    have hpadding : ((data.getD 1 0 >>> 1) &&& 63 = all1Fcn → data.getLastD 0 &&& 1 = 0) ↔
        data.getLastD 0 &&& 1 = 0 := by
      rw [← hparsed.fcn]
      refine ⟨fun himp => ?_, fun hlast _ => hlast⟩
      cases hall1 : f.isAll1 with
      | true => exact himp (of_decide_eq_true hall1)
      | false => exact hparsed.padding hall1
    rw [hpadding, ← hparsed.shiftIn_eq]
    constructor
    · intro hwritten
      exact ((writeTo_ok (hwritten _ le_rfl)).2).symm
    · intro heq capacity hroom
      rw [writeTo_of_valid (hparsed.valid hrule) (hparsed.length_content.trans_le hroom), heq]

/-- An All-1 with the last bit set is accepted, but written with a clear one. -/
theorem fromBytes_all1_padding :
    let data : Bytes := [0x78, 0x7e, 0, 0, 0, 0, 0x03]
    fromBytes data tileSize = .ok ⟨0x78, 0, 63, [1], Fragment.zeroMic⟩ ∧
      (⟨0x78, 0, 63, [1], Fragment.zeroMic⟩ : Fragment).writeTo 7 =
        .ok [0x78, 0x7e, 0, 0, 0, 0, 0x02] := by
  decide +kernel

/-- The same message with a clear last bit is written as it was read. -/
theorem fromBytes_inverse_of_all1 :
    let data : Bytes := [0x78, 0x7e, 0, 0, 0, 0, 0x02]
    ∀ capacity, data.length ≤ capacity →
      (⟨0x78, 0, 63, [1], Fragment.zeroMic⟩ : Fragment).writeTo capacity = .ok data := by
  intro data
  exact ((fromBytes_inverse data _ tileSize).2 rfl (by decide +kernel)).mpr fun _ => by decide

end Fragment

end Lichen.Schc
