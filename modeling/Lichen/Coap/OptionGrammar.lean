import Lichen.Coap.Codec
import Lichen.Lib.Spans
import Mathlib.Data.FinEnum

namespace Lichen.Coap

open Lichen.Lib

inductive Field : UInt8 → Bytes → Nat → Prop
  | nibble (h : n < 13) : Field n [] n.toNat
  | byte (b : UInt8) : Field 13 [b] (b.toNat + 13)
  | word (hi lo : UInt8) : Field 14 [hi, lo] (beNat [hi, lo] + 269)

section Field

variable {data : Bytes} {nibble hi lo : UInt8} {i j : Nat}

theorem beNat_pair : beNat [hi, lo] = hi.toNat * 256 + lo.toNat := by
  simp [beNat]

theorem toNat_or_pair (hi lo : UInt8) : hi.toNat <<< 8 ||| lo.toNat = beNat [hi, lo] := by
  rw [← Nat.shiftLeft_add_eq_or_of_lt lo.toNat_lt, Nat.shiftLeft_eq, beNat_pair]

theorem toUInt16_eq_ofNat (b : UInt8) : b.toUInt16 = UInt16.ofNat b.toNat := by
  apply UInt16.toNat_inj.mp
  rw [UInt8.toNat_toUInt16, UInt16.toNat_ofNat', Nat.mod_eq_of_lt (b.toNat_lt.trans (by decide))]

theorem beNat_pair_lt (hi lo : UInt8) : beNat [hi, lo] < 2 ^ 16 := by
  have hhi := hi.toNat_lt
  have hlo := lo.toNat_lt
  rw [beNat_pair]
  omega

theorem toUInt16_or_pair : (hi.toUInt16 <<< 8) ||| lo.toUInt16 = UInt16.ofNat (beNat [hi, lo]) := by
  apply UInt16.toNat_inj.mp
  have hlt : hi.toNat <<< 8 < 2 ^ 16 := by
    have hhi := hi.toNat_lt
    rw [Nat.shiftLeft_eq]
    omega
  rw [UInt16.toNat_or, UInt16.toNat_shiftLeft, UInt8.toNat_toUInt16, UInt8.toNat_toUInt16,
    UInt16.toNat_ofNat', Nat.mod_eq_of_lt (beNat_pair_lt hi lo), ← toNat_or_pair]
  exact congrArg (· ||| lo.toNat) (Nat.mod_eq_of_lt hlt)

theorem addU16_ofNat (h : n < 2 ^ 16) :
    addU16 overflowChecks (UInt16.ofNat n) 269 =
      if overflowChecks ∧ 2 ^ 16 ≤ n + 269 then none else some (UInt16.ofNat (n + 269)) := by
  rw [addU16, UInt16.toNat_ofNat', Nat.mod_eq_of_lt h, UInt16.ofNat_add]
  rfl

theorem Field.lt (h : Field nibble ext n) : nibble < 15 := by
  cases h with
  | nibble h => exact UInt8.lt_trans h (by decide)
  | byte => decide
  | word => decide

theorem not_field_marker : ¬Field 15 ext n := fun h => absurd h.lt (by decide)

theorem readLength_of_field (h : Field nibble ext n) (hspans : Spans data i j ext) :
    readLength data i nibble = .ok (n, ext.length) := by
  cases h with
  | nibble h =>
    have hne : ∀ k : UInt8, 13 ≤ k → nibble ≠ k := by
      rintro k hk rfl
      exact UInt8.not_le.mpr h hk
    rw [readLength, if_neg (hne 13 (by decide)), if_neg (hne 14 (by decide)),
      if_neg (hne 15 (by decide))]
    rfl
  | byte =>
    obtain ⟨hlt, hb, -⟩ := (spans_cons 0).mp hspans
    rw [readLength, if_pos rfl, if_neg (by omega), hb]
    rfl
  | word =>
    obtain ⟨-, hhi, hrest⟩ := (spans_cons 0).mp hspans
    obtain ⟨hlt, hlo, -⟩ := (spans_cons 0).mp hrest
    rw [readLength, if_neg (by decide), if_pos rfl, if_neg (by omega), hhi, hlo, toNat_or_pair]
    rfl

theorem readDelta_of_field (overflowChecks : Bool) (h : Field nibble ext n)
    (hspans : Spans data i j ext) :
    readDelta overflowChecks data i nibble =
      if overflowChecks ∧ 2 ^ 16 ≤ n then none
      else some (.ok (UInt16.ofNat n, ext.length)) := by
  cases h with
  | nibble h =>
    have hne : ∀ k : UInt8, 13 ≤ k → nibble ≠ k := by
      rintro k hk rfl
      exact UInt8.not_le.mpr h hk
    have hlt := nibble.toNat_lt
    rw [readDelta, if_neg (hne 13 (by decide)), if_neg (hne 14 (by decide)),
      if_neg (hne 15 (by decide)), toUInt16_eq_ofNat, if_neg (by omega)]
    rfl
  | byte b =>
    obtain ⟨hlt, hb, -⟩ := (spans_cons 0).mp hspans
    have hbyte := b.toNat_lt
    rw [readDelta, if_pos rfl, if_neg (by omega), hb, toUInt16_eq_ofNat, if_neg (by omega),
      UInt16.ofNat_add]
    rfl
  | word hi lo =>
    obtain ⟨-, hhi, hrest⟩ := (spans_cons 0).mp hspans
    obtain ⟨hlt, hlo, -⟩ := (spans_cons 0).mp hrest
    rw [readDelta, if_neg (by decide), if_pos rfl, if_neg (by omega), hhi, hlo, toUInt16_or_pair,
      addU16_ofNat (beNat_pair_lt hi lo)]
    split <;> rfl

theorem exists_field (data : Bytes) (i : Nat) (hnibble : nibble < 15) :
    (∃ ext n, Field nibble ext n ∧ Spans data i (i + ext.length) ext) ∨
      readLength data i nibble = .error .truncatedOption ∧
        ∀ overflowChecks, readDelta overflowChecks data i nibble = some (.error .truncatedOption) := by
  by_cases h13 : nibble = 13
  · subst h13
    by_cases hi : data.length ≤ i
    · refine .inr ⟨?_, fun _ => ?_⟩
      · rw [readLength, if_pos rfl, if_pos hi]
      · rw [readDelta, if_pos rfl, if_pos hi]
    · exact .inl ⟨_, _, .byte (data.getD i 0), (spans_cons 0).mpr ⟨by omega, rfl, spans_nil.mpr rfl⟩⟩
  by_cases h14 : nibble = 14
  · subst h14
    by_cases hi : data.length ≤ i + 1
    · refine .inr ⟨?_, fun _ => ?_⟩
      · rw [readLength, if_neg h13, if_pos rfl, if_pos hi]
      · rw [readDelta, if_neg h13, if_pos rfl, if_pos hi]
    · refine .inl ⟨_, _, .word (data.getD i 0) (data.getD (i + 1) 0), ?_⟩
      refine (spans_cons 0).mpr ⟨by omega, rfl, (spans_cons 0).mpr ⟨by omega, rfl, ?_⟩⟩
      exact spans_nil.mpr rfl
  · have hlt : nibble < 13 := by
      rw [UInt8.lt_iff_toNat_lt] at hnibble ⊢
      have hne13 : nibble.toNat ≠ 13 := fun h => h13 (UInt8.toNat_inj.mp h)
      have hne14 : nibble.toNat ≠ 14 := fun h => h14 (UInt8.toNat_inj.mp h)
      have hbound : nibble.toNat < 15 := hnibble
      show nibble.toNat < 13
      omega
    exact .inl ⟨_, _, .nibble hlt, spans_nil.mpr rfl⟩

end Field

/-- An option as it is written: the byte of the two nibbles, their extensions and the value. -/
structure EncodedOption where
  first : UInt8
  deltaExt : Bytes
  lengthExt : Bytes
  value : Bytes
  delta : Nat
  deltaField : Field ((first >>> 4) &&& 0x0F) deltaExt delta
  lengthField : Field (first &&& 0x0F) lengthExt value.length

namespace EncodedOption

def bytes (option : EncodedOption) : Bytes :=
  option.first :: (option.deltaExt ++ (option.lengthExt ++ option.value))

theorem first_ne_payloadMarker (option : EncodedOption) : option.first ≠ payloadMarker := by
  intro h
  have hfield := option.lengthField
  rw [h] at hfield
  exact not_field_marker hfield

end EncodedOption

def encoded (options : List EncodedOption) : Bytes := options.flatMap EncodedOption.bytes

def totalDelta (options : List EncodedOption) : Nat := (options.map EncodedOption.delta).sum

/-- The options with their numbers, which are sums of deltas, and their values. -/
def numbered (number : Nat) : List EncodedOption → List (Nat × Bytes)
  | [] => []
  | option :: options =>
    (number + option.delta, option.value) :: numbered (number + option.delta) options

def WideDelta (bytes : Bytes) : Prop :=
  ∃ first hi lo rest, bytes = first :: hi :: lo :: rest ∧ first >>> 4 = 14 ∧ 65266 < beNat [hi, lo]

section Scan

variable {data : Bytes} {i j : Nat} {number : UInt16} {option : EncodedOption}
  {options : List EncodedOption}

theorem shiftRight_and (first : UInt8) : (first >>> 4) &&& (0x0F : UInt8) = first >>> 4 := by
  revert first
  decide +kernel

theorem wideDelta_of_field (hlt : i < data.length)
    (h : Field ((data.getD i 0 >>> 4) &&& 0x0F) ext n) (hspans : Spans data (i + 1) j ext)
    (hn : 2 ^ 16 ≤ n) : WideDelta (data.drop i) := by
  rw [shiftRight_and] at h
  generalize hnibble : data.getD i 0 >>> 4 = nibble at h
  cases h with
  | nibble =>
    have hsmall := nibble.toNat_lt
    omega
  | byte b =>
    have hsmall := b.toNat_lt
    omega
  | word hi lo =>
    refine ⟨data.getD i 0, hi, lo, data.drop j, ?_, hnibble, by omega⟩
    rw [drop_eq_getD_cons hlt 0, hspans.2]
    rfl

theorem spans_option (h : Spans data i j option.bytes) :
    i < data.length ∧ data.getD i 0 = option.first ∧
      Spans data (i + 1) (i + 1 + option.deltaExt.length) option.deltaExt ∧
      Spans data (i + 1 + option.deltaExt.length)
        (i + 1 + option.deltaExt.length + option.lengthExt.length) option.lengthExt ∧
      Spans data (i + 1 + option.deltaExt.length + option.lengthExt.length) j option.value := by
  obtain ⟨hlt, hfirst, hrest⟩ := (spans_cons 0).mp h
  obtain ⟨hdelta, hrest⟩ := hrest.split
  obtain ⟨hlength, hvalue⟩ := hrest.split
  exact ⟨hlt, hfirst, hdelta, hlength, hvalue⟩

theorem checkedAdd_of_lt (h : number.toNat + n < 2 ^ 16) :
    checkedAdd number (UInt16.ofNat n) = some (UInt16.ofNat (number.toNat + n)) := by
  rw [checkedAdd, UInt16.toNat_ofNat', Nat.mod_eq_of_lt (by omega), if_pos h, UInt16.ofNat_add,
    UInt16.ofNat_toNat]

theorem checkedAdd_of_le (hn : n < 2 ^ 16) (h : 2 ^ 16 ≤ number.toNat + n) :
    checkedAdd number (UInt16.ofNat n) = none := by
  rw [checkedAdd, UInt16.toNat_ofNat', Nat.mod_eq_of_lt hn, if_neg (by omega)]

theorem findPayloadMarkerFrom_option (h : Spans data i j option.bytes)
    (hn : number.toNat + option.delta < 2 ^ 16) :
    findPayloadMarkerFrom overflowChecks data i number =
      findPayloadMarkerFrom overflowChecks data j (UInt16.ofNat (number.toNat + option.delta)) := by
  obtain ⟨hlt, hfirst, hdelta, hlength, hvalue⟩ := spans_option h
  have hend := hvalue.1
  have hj := h.le_length hlt.le
  conv_lhs => rw [findPayloadMarkerFrom]
  rw [if_pos hlt, hfirst]
  rw [if_neg option.first_ne_payloadMarker, readDelta_of_field _ option.deltaField hdelta,
    if_neg (by omega)]
  dsimp only
  rw [checkedAdd_of_lt hn]
  rw [readLength_of_field option.lengthField hlength]
  dsimp only
  rw [if_neg (by omega), ← hend]

theorem findPayloadMarkerFrom_overflow (h : Spans data i j option.bytes)
    (hdelta : option.delta < 2 ^ 16) (hn : 2 ^ 16 ≤ number.toNat + option.delta) :
    findPayloadMarkerFrom overflowChecks data i number = some (.error .optionNumberOverflow) := by
  obtain ⟨hlt, hfirst, hspans, -⟩ := spans_option h
  rw [findPayloadMarkerFrom, if_pos hlt, hfirst]
  rw [if_neg option.first_ne_payloadMarker, readDelta_of_field _ option.deltaField hspans,
    if_neg (by omega)]
  dsimp only
  rw [checkedAdd_of_le hdelta hn]

theorem toNat_ofNat_add (h : number.toNat + n < 2 ^ 16) :
    (UInt16.ofNat (number.toNat + n)).toNat = number.toNat + n := by
  rw [UInt16.toNat_ofNat', Nat.mod_eq_of_lt h]

theorem totalDelta_cons (option : EncodedOption) (options : List EncodedOption) :
    totalDelta (option :: options) = option.delta + totalDelta options :=
  List.sum_cons

theorem findPayloadMarkerFrom_options (h : Spans data i j (encoded options))
    (hn : number.toNat + totalDelta options < 2 ^ 16) :
    findPayloadMarkerFrom overflowChecks data i number = findPayloadMarkerFrom overflowChecks data j
        (UInt16.ofNat (number.toNat + totalDelta options)) := by
  induction options generalizing i number with
  | nil =>
    obtain rfl := spans_nil.mp h
    rw [totalDelta, List.map_nil, List.sum_nil, Nat.add_zero, UInt16.ofNat_toNat]
  | cons option options ih =>
    obtain ⟨hfirst, hrest⟩ := h.split
    rw [totalDelta_cons, ← Nat.add_assoc] at hn ⊢
    have hsum : number.toNat + option.delta < 2 ^ 16 := by omega
    have hnumber := toNat_ofNat_add hsum
    rw [findPayloadMarkerFrom_option hfirst hsum, ih hrest (by rw [hnumber]; exact hn), hnumber]

theorem findPayloadMarkerFrom_wide (h : WideDelta (data.drop i)) :
    findPayloadMarkerFrom true data i number = none := by
  obtain ⟨first, hi, lo, rest, hdrop, hnibble, hlarge⟩ := h
  have hspans := Spans.of_drop (p := [first, hi, lo]) hdrop
  obtain ⟨hlt, hfirst, hext⟩ := (spans_cons 0).mp hspans
  have hfield : Field ((first >>> 4) &&& 0x0F) [hi, lo] (beNat [hi, lo] + 269) := by
    rw [shiftRight_and, hnibble]
    exact .word hi lo
  have hmarker : first ≠ payloadMarker := by
    rintro rfl
    exact absurd hnibble (by decide)
  rw [findPayloadMarkerFrom, if_pos hlt, hfirst]
  rw [if_neg hmarker, readDelta_of_field _ hfield hext, if_pos ⟨rfl, by omega⟩]

theorem and_lt_of_ne (b : UInt8) (h : b &&& 0x0F ≠ 15) : b &&& 0x0F < 15 := by
  revert b
  decide +kernel

theorem exists_option (hlt : i < data.length)
    (hdelta : Field ((data.getD i 0 >>> 4) &&& 0x0F) deltaExt delta)
    (hdeltaAt : Spans data (i + 1) (i + 1 + deltaExt.length) deltaExt)
    (hlength : Field (data.getD i 0 &&& 0x0F) lengthExt len)
    (hlengthAt : Spans data (i + 1 + deltaExt.length)
      (i + 1 + deltaExt.length + lengthExt.length) lengthExt)
    (hvalue : i + 1 + deltaExt.length + lengthExt.length + len ≤ data.length) :
    ∃ option : EncodedOption, option.delta = delta ∧
      Spans data i (i + 1 + deltaExt.length + lengthExt.length + len) option.bytes := by
  have hvalueAt := spans_extract (Nat.le_add_right _ len) hvalue
  have hlen : (data.extract (i + 1 + deltaExt.length + lengthExt.length)
      (i + 1 + deltaExt.length + lengthExt.length + len)).length = len := by
    rw [length_extract_of_le hvalue, Nat.add_sub_cancel_left]
  refine ⟨⟨data.getD i 0, deltaExt, lengthExt, _, delta, hdelta, hlen.symm ▸ hlength⟩, rfl, ?_⟩
  exact (spans_cons 0).mpr ⟨hlt, rfl, hdeltaAt.append (hlengthAt.append hvalueAt)⟩

/-- Unless its delta has more than 16 bits, what stands at `i` is an option that leads on, or the
scan fails. -/
theorem option_or_error (overflowChecks : Bool) (number : UInt16) (hlt : i < data.length)
    (hmarker : data.getD i 0 ≠ payloadMarker) (hwide : ¬WideDelta (data.drop i)) :
    (∃ e, findPayloadMarkerFrom overflowChecks data i number = some (.error e)) ∨
      ∃ (option : EncodedOption) (j : Nat),
        Spans data i j option.bytes ∧ number.toNat + option.delta < 2 ^ 16 := by
  rw [findPayloadMarkerFrom, if_pos hlt]
  rw [if_neg hmarker]
  by_cases hnibble : (data.getD i 0 >>> 4) &&& 0x0F = 15
  · exact .inl ⟨.invalidOptionDelta, by rw [hnibble]; rfl⟩
  obtain ⟨deltaExt, delta, hdelta, hdeltaAt⟩ | ⟨-, herror⟩ :=
    exists_field data (i + 1) (and_lt_of_ne _ hnibble)
  swap
  · exact .inl ⟨.truncatedOption, by rw [herror]⟩
  have hsmall : delta < 2 ^ 16 := by
    by_contra hlarge
    exact hwide (wideDelta_of_field hlt hdelta hdeltaAt (by omega))
  rw [readDelta_of_field _ hdelta hdeltaAt, if_neg (by omega)]
  dsimp only
  by_cases hsum : number.toNat + delta < 2 ^ 16
  swap
  · exact .inl ⟨.optionNumberOverflow, by rw [checkedAdd_of_le hsmall (by omega)]⟩
  rw [checkedAdd_of_lt hsum]
  by_cases hnibble : data.getD i 0 &&& 0x0F = 15
  · exact .inl ⟨.invalidOptionLength, by rw [hnibble]; rfl⟩
  obtain ⟨lengthExt, len, hlength, hlengthAt⟩ | ⟨herror, -⟩ :=
    exists_field data (i + 1 + deltaExt.length) (and_lt_of_ne _ hnibble)
  swap
  · exact .inl ⟨.truncatedOption, by rw [herror]⟩
  rw [readLength_of_field hlength hlengthAt]
  dsimp only
  by_cases hlong : data.length < i + 1 + deltaExt.length + lengthExt.length + len
  · exact .inl ⟨.truncatedOption, by rw [if_pos hlong]⟩
  · obtain ⟨option, rfl, hoption⟩ :=
      exists_option hlt hdelta hdeltaAt hlength hlengthAt (Nat.le_of_not_lt hlong)
    exact .inr ⟨option, _, hoption, hsum⟩

def NarrowFrom (data : Bytes) (i number : Nat) : Prop :=
  ∀ options j, Spans data i j (encoded options) → number + totalDelta options < 2 ^ 16 →
    ¬WideDelta (data.drop j)

def Scanned (data : Bytes) (i number : Nat) (marker : Option Nat) : Prop :=
  ∃ options j, Spans data i j (encoded options) ∧ number + totalDelta options < 2 ^ 16 ∧
    (marker = some j ∧ j < data.length ∧ data.getD j 0 = payloadMarker ∨
      marker = none ∧ j = data.length)

theorem NarrowFrom.behind (h : NarrowFrom data i n)
    (hoption : Spans data i j option.bytes) : NarrowFrom data j (n + option.delta) := by
  intro options k hspans hsum
  refine h (option :: options) k (hoption.append hspans) ?_
  rw [totalDelta_cons, ← Nat.add_assoc]
  exact hsum

theorem findPayloadMarkerFrom_rejects (hnarrow : NarrowFrom data i number.toNat)
    (h : Spans data i j (encoded options)) (hn : 2 ^ 16 ≤ number.toNat + totalDelta options) :
    findPayloadMarkerFrom overflowChecks data i number = some (.error .optionNumberOverflow) := by
  induction options generalizing i number with
  | nil =>
    have hlt := number.toNat_lt
    rw [totalDelta, List.map_nil, List.sum_nil] at hn
    omega
  | cons option options ih =>
    obtain ⟨hfirst, hrest⟩ := h.split
    rw [totalDelta_cons, ← Nat.add_assoc] at hn
    by_cases hsum : number.toNat + option.delta < 2 ^ 16
    · have hnumber := toNat_ofNat_add hsum
      rw [findPayloadMarkerFrom_option hfirst hsum]
      refine ih ?_ hrest (by rw [hnumber]; exact hn)
      rw [hnumber]
      exact hnarrow.behind hfirst
    · refine findPayloadMarkerFrom_overflow hfirst ?_ (by omega)
      obtain ⟨hlt, hbyte, hdelta, -⟩ := spans_option hfirst
      by_contra hlarge
      exact hnarrow [] i (spans_nil.mpr rfl) number.toNat_lt
        (wideDelta_of_field hlt (hbyte ▸ option.deltaField) hdelta (by omega))

theorem Scanned.cons (hoption : Spans data i j option.bytes)
    (h : Scanned data j (n + option.delta) marker) : Scanned data i n marker := by
  obtain ⟨options, k, hspans, hsum, hend⟩ := h
  refine ⟨option :: options, k, hoption.append hspans, ?_, hend⟩
  rw [totalDelta_cons, ← Nat.add_assoc]
  exact hsum

theorem findPayloadMarkerFrom_spec (overflowChecks : Bool) (number : UInt16)
    (hi : i ≤ data.length) (hnarrow : NarrowFrom data i number.toNat) :
    match findPayloadMarkerFrom overflowChecks data i number with
    | none => False
    | some (.error _) => True
    | some (.ok marker) => Scanned data i number.toNat marker := by
  induction hrest : data.length - i using Nat.strong_induction_on generalizing i number with
  | _ rest ih =>
    by_cases hlt : i < data.length
    swap
    · rw [findPayloadMarkerFrom, if_neg hlt]
      exact ⟨[], i, spans_nil.mpr rfl, number.toNat_lt, .inr ⟨rfl, by omega⟩⟩
    by_cases hmarker : data.getD i 0 = payloadMarker
    · rw [findPayloadMarkerFrom, if_pos hlt]
      rw [if_pos hmarker]
      exact ⟨[], i, spans_nil.mpr rfl, number.toNat_lt, .inl ⟨rfl, hlt, hmarker⟩⟩
    have hwide := hnarrow [] i (spans_nil.mpr rfl) number.toNat_lt
    obtain ⟨_, herror⟩ | ⟨_, j, hoption, hsum⟩ :=
      option_or_error overflowChecks number hlt hmarker hwide
    · rw [herror]
      trivial
    · have hnumber := toNat_ofNat_add hsum
      have hstep := hoption.1
      rw [EncodedOption.bytes, List.length_cons] at hstep
      rw [findPayloadMarkerFrom_option hoption hsum]
      have hnext := ih (data.length - j) (by omega) _ (hoption.le_length hlt.le)
        (hnumber.symm ▸ hnarrow.behind hoption) rfl
      rw [hnumber] at hnext
      revert hnext
      rcases findPayloadMarkerFrom overflowChecks data j _ with _ | _ | marker
      · exact id
      · exact id
      · exact Scanned.cons hoption

end Scan

section Collect

variable {it : OptionIterator} {option : EncodedOption}

theorem next_option (overflowChecks : Bool) (h : Spans it.data it.offset j option.bytes)
    (hn : it.currentNumber.toNat + option.delta < 2 ^ 16) :
    it.next overflowChecks =
      some (some (.ok ⟨UInt16.ofNat (it.currentNumber.toNat + option.delta), option.value⟩),
        { it with
          offset := j
          currentNumber := UInt16.ofNat (it.currentNumber.toNat + option.delta) }) := by
  obtain ⟨hlt, hfirst, hdelta, hlength, hvalue⟩ := spans_option h
  have hend := hvalue.1
  have hj := h.le_length hlt.le
  rw [OptionIterator.next, if_neg (by omega), hfirst]
  rw [if_neg option.first_ne_payloadMarker, readDelta_of_field _ option.deltaField hdelta,
    if_neg (by omega)]
  dsimp only
  rw [readLength_of_field option.lengthField hlength]
  dsimp only
  rw [if_neg (by omega), checkedAdd_of_lt hn, ← hend, hvalue.extract_eq]

theorem collect_options (overflowChecks : Bool) (it : OptionIterator)
    (h : Spans it.data it.offset it.data.length (encoded options))
    (hn : it.currentNumber.toNat + totalDelta options < 2 ^ 16) :
    ∃ items : List CoapOption, it.collect overflowChecks = some (items.map .ok) ∧
      items.map (fun item => (item.number.toNat, item.value)) =
        numbered it.currentNumber.toNat options := by
  induction options generalizing it with
  | nil =>
    have hend : it.data.length ≤ it.offset := (spans_nil.mp h).le
    have hnext : it.next overflowChecks = some (none, it) := by rw [OptionIterator.next, if_pos hend]
    exact ⟨[], OptionIterator.collect_of_end hnext, rfl⟩
  | cons option options ih =>
    obtain ⟨hfirst, hrest⟩ := h.split
    rw [totalDelta_cons, ← Nat.add_assoc] at hn
    have hsum : it.currentNumber.toNat + option.delta < 2 ^ 16 := by omega
    have hnumber := toNat_ofNat_add hsum
    have hnext := next_option overflowChecks hfirst hsum
    obtain ⟨items, hcollect, hitems⟩ :=
      ih ⟨it.data, _, UInt16.ofNat (it.currentNumber.toNat + option.delta)⟩ hrest
        (by rw [hnumber]; exact hn)
    refine ⟨⟨UInt16.ofNat (it.currentNumber.toNat + option.delta), option.value⟩ :: items, ?_, ?_⟩
    · rw [OptionIterator.collect_of_item hnext, hcollect]
      rfl
    · rw [List.map_cons, hitems, numbered, hnumber]

end Collect

end Lichen.Coap
