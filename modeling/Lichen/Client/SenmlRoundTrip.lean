import Lichen.Client.Senml
import Lichen.Lib.Cbor
import Lichen.Lib.Guard
import Lichen.Lib.Text

namespace Lichen.Client

open Lichen.Lib Lichen.Lib.Cbor

variable {F : Type}

def readEntry (read : Bytes → Option (Value F × Bytes)) (input : Bytes) :
    Option ((Value F × Value F) × Bytes) := do
  let (key, rest) ← read input
  let (value, rest) ← read rest
  return ((key, value), rest)

/-- The item at the start of the input, if it is of definite length, without a number of floating
point, and nested less deep than the first argument says. -/
def readItem : Nat → Bytes → Option (Value F × Bytes)
  | 0, _ => none
  | depth + 1, input => do
    let ((major, n), rest) ← readHead input
    match major with
    | 0 => return (.integer n, rest)
    | 1 => return (.integer (-1 - n), rest)
    | 2 => (readBytes n rest).map fun r => (.bytes r.1, r.2)
    | 3 =>
      let (bytes, rest) ← readBytes n rest
      return (.text (← decodeUtf8 bytes), rest)
    | 4 => (readSequence (readItem depth) n rest).map fun r => (.array r.1, r.2)
    | 5 => (readSequence (readEntry (readItem depth)) n rest).map fun r => (.map r.1, r.2)
    | _ => if input.head? = some 0xF4 then return (.bool false, rest) else
      if input.head? = some 0xF5 then return (.bool true, rest) else none

def Ciborium.Correct (ciborium : Ciborium F) : Prop :=
  ∀ input item rest, readItem 17 input = some (item, rest) →
    ciborium.fromReader input = .ok (item, input.length - rest.length)

def grammarReader : Ciborium F where
  fromReader bytes := match readItem 17 bytes with
    | some (item, rest) => .ok (item, bytes.length - rest.length)
    | none => .error ""
  intoWriter _ := []
  debug _ := ""

theorem grammarReader_correct : (grammarReader : Ciborium F).Correct := by
  intro input item rest h
  simp only [grammarReader, h]

theorem takes_head (hm : m < 8) (hv : v < 2 ^ 64) :
    Takes readHead (m, v) (Wire.head (UInt8.ofNat (32 * m)) v) := by
  rw [Wire.head]
  split
  · exact takes_short hm ‹_›
  split
  · exact takes_wide (k := 0) hm (by decide) (by omega)
  split
  · exact takes_wide (k := 1) hm (by decide) (by omega)
  split
  · exact takes_wide (k := 2) hm (by decide) (by omega)
  · exact takes_wide (k := 3) hm (by decide) hv

theorem takes_lengthHead (hm : m < 8) (hv : v < 2 ^ 32) :
    Takes readHead (m, v) (Wire.lengthHead (UInt8.ofNat (32 * m)) v) := by
  rw [Wire.lengthHead]
  split
  · exact takes_head hm (by omega)
  · exact takes_wide (k := 2) hm (by decide) hv

theorem takes_uint {n : Nat} (h : n < 2 ^ 64) :
    Takes (readItem (depth + 1)) (.integer n : Value F) (Wire.uint n) := by
  have hhead : Takes readHead (0, n) (Wire.uint n) := takes_head (by decide) h
  intro rest
  rw [readItem, hhead _]
  rfl

theorem takes_int (hlow : -(2 ^ 63) ≤ v) (hhigh : v < 2 ^ 63) :
    Takes (readItem (depth + 1)) (.integer v : Value F) (Wire.int v) := by
  rw [Wire.int]
  split
  · have hhead : Takes readHead (1, (-1 - v).toNat) (Wire.nint (-1 - v).toNat) :=
      takes_head (by decide) (by omega)
    have hv : (.integer v : Value F) = .integer (-1 - ((-1 - v).toNat : Int)) :=
      congrArg _ (by omega)
    intro rest
    rw [hv, readItem, hhead _]
    rfl
  · have hv : (.integer v : Value F) = .integer (v.toNat : Int) := congrArg _ (by omega)
    rw [hv]
    exact takes_uint (by omega)

theorem takes_text (h : s.utf8ByteSize < 2 ^ 32) :
    Takes (readItem (depth + 1)) (.text s : Value F) (Wire.text s) := by
  have hhead : Takes readHead (3, s.utf8ByteSize) (Wire.lengthHead 0x60 s.utf8ByteSize) :=
    takes_lengthHead (by decide) h
  intro rest
  rw [readItem, Wire.text, List.append_assoc, hhead _]
  simp only [Option.bind_eq_bind, Option.bind_some]
  rw [takes_readBytes (length_toUTF8 s) _, Option.bind_some, decodeUtf8_toUTF8]
  rfl

theorem takes_bytes (h : b.length < 2 ^ 32) :
    Takes (readItem (depth + 1)) (.bytes b : Value F) (Wire.bytes b) := by
  have hhead : Takes readHead (2, b.length) (Wire.lengthHead 0x40 b.length) :=
    takes_lengthHead (by decide) h
  intro rest
  rw [readItem, Wire.bytes, List.append_assoc, hhead _]
  simp only [Option.bind_eq_bind, Option.bind_some]
  rw [takes_readBytes rfl _, Option.map_some]

def fieldEntry (label : Int) (item : α → Value F) : Option α → List (Value F × Value F)
  | none => []
  | some v => [(.integer label, item v)]

theorem length_fieldEntry : (fieldEntry label item o).length = o.isSome.toNat := by
  cases o <;> rfl

theorem sequence_field {item : α → Value F} (h : ∀ v ∈ o, Takes (readItem 15) (item v) (write v))
    (hlabel : -6 ≤ label ∧ label < 9 := by decide) : Sequence (Takes (readEntry (readItem 15)))
      (fieldEntry label item o) (Wire.field (Wire.int label) write o) := by
  cases o with
  | none => rfl
  | some v =>
    refine ⟨_, [], fun rest => ?_, rfl, (List.append_nil _).symm⟩
    rw [readEntry, Wire.field, List.append_assoc, takes_int (by omega) (by omega) _]
    simp [h v rfl _]

/-- A record without numbers, of which the encoder can write every length. -/
structure SenmlRecord.Plain (record : SenmlRecord F) : Prop where
  baseTime : record.baseTime = none
  baseValue : record.baseValue = none
  baseSum : record.baseSum = none
  value : record.value = none
  sum : record.sum = none
  time : record.time = none
  updateTime : record.updateTime = none
  oneValue : record.valueFieldCount ≤ 1
  version : ∀ v ∈ record.baseVersion, 1 ≤ v ∧ v ≤ 10
  texts : ∀ s, record.baseName = some s ∨ record.baseUnit = some s ∨ record.name = some s ∨
    record.unit = some s ∨ record.stringValue = some s → s.utf8ByteSize < 2 ^ 32
  data : ∀ b ∈ record.dataValue, b.length < 2 ^ 32

def SenmlRecord.plainEntries (record : SenmlRecord F) : List (Value F × Value F) :=
  fieldEntry (-2) .text record.baseName ++ fieldEntry (-4) .text record.baseUnit ++
    fieldEntry (-1) (fun v => .integer v.toNat) record.baseVersion ++
    fieldEntry 0 .text record.name ++ fieldEntry 1 .text record.unit ++
    fieldEntry 3 .text record.stringValue ++
    fieldEntry 4 (fun b => .integer b.toNat) record.boolValue ++
    fieldEntry 8 .bytes record.dataValue

section

variable {record : SenmlRecord F}

theorem length_plainEntries (h : record.Plain) :
    record.plainEntries.length = record.fieldCount := by
  simp only [SenmlRecord.plainEntries, List.length_append, length_fieldEntry,
    SenmlRecord.fieldCount, h.baseTime, h.baseValue, h.baseSum, h.value, h.sum, h.time,
    h.updateTime, Option.isSome_none, Bool.toNat_false, Nat.add_zero]

theorem fieldCount_lt (h : record.Plain) : record.fieldCount < 24 := by
  have hle : ∀ b : Bool, b.toNat ≤ 1 := by decide
  have := hle record.baseName.isSome
  have := hle record.baseUnit.isSome
  have := hle record.baseVersion.isSome
  have := hle record.name.isSome
  have := hle record.unit.isSome
  have := hle record.stringValue.isSome
  have := hle record.boolValue.isSome
  have := hle record.dataValue.isSome
  rw [← length_plainEntries h]
  simp only [SenmlRecord.plainEntries, List.length_append, length_fieldEntry]
  omega

theorem versionField_toNat (h : 1 ≤ v ∧ v ≤ 10) :
    versionField (.integer v.toNat : Value F) = .ok v := by
  have hlow := UInt8.le_iff_toNat_le.mp h.1
  have hhigh := UInt8.le_iff_toNat_le.mp h.2
  change 1 ≤ v.toNat at hlow
  change v.toNat ≤ 10 at hhigh
  rw [versionField, if_neg (by omega), if_neg (by omega), Int.toNat_natCast, UInt8.ofNat_toNat]
  rfl

variable [F64 F]

theorem sequence_plainEntries (h : record.Plain) :
    Sequence (Takes (readEntry (readItem 15))) record.plainEntries (emitRecordFields record) := by
  have htext : ∀ {o : Option String}, (∀ s, o = some s → s.utf8ByteSize < 2 ^ 32) →
      ∀ s ∈ o, Takes (readItem 15) (.text s : Value F) (Wire.text s) :=
    fun ho s hs => takes_text (ho s hs)
  simp only [emitRecordFields, h.baseTime, h.baseValue, h.baseSum, h.value, h.sum, h.time,
    h.updateTime, List.append_nil, Wire.field]
  refine .append (.append (.append (.append (.append (.append (.append ?_ ?_) ?_) ?_) ?_) ?_) ?_) ?_
  · exact sequence_field (htext fun s hs => h.texts s (.inl hs))
  · exact sequence_field (htext fun s hs => h.texts s (.inr (.inl hs)))
  · exact sequence_field fun v _ => takes_uint (lt_trans v.toNat_lt (by decide))
  · exact sequence_field (htext fun s hs => h.texts s (.inr (.inr (.inl hs))))
  · exact sequence_field (htext fun s hs => h.texts s (.inr (.inr (.inr (.inl hs)))))
  · exact sequence_field (htext fun s hs => h.texts s (.inr (.inr (.inr (.inr hs)))))
  · exact sequence_field fun b _ => by cases b <;> exact takes_uint (by decide)
  · exact sequence_field fun b hb => takes_bytes (h.data b hb)

theorem takes_record (h : record.Plain) :
    Takes (readItem 16) (.map record.plainEntries)
      (Wire.map record.fieldCount ++ emitRecordFields record) := by
  have hhead : Takes readHead (5, record.fieldCount) (Wire.map record.fieldCount) :=
    takes_short (by decide) (fieldCount_lt h)
  intro rest
  rw [readItem, List.append_assoc, hhead _, ← length_plainEntries h]
  simp only [Option.bind_eq_bind, Option.bind_some]
  rw [(sequence_plainEntries h).takes _, Option.map_some]

theorem foldlM_fieldEntry (update : Option α → SenmlRecord F) (hnone : update none = start)
    (h : ∀ v ∈ o, assignEntry ciborium start (.integer label, item v) = .ok (update (some v))) :
    (fieldEntry label item o).foldlM (assignEntry ciborium) start = .ok (update o) := by
  cases o with
  | none => rw [hnone]; rfl
  | some v => rw [fieldEntry, List.foldlM_cons, h v rfl]; rfl

theorem foldlM_append_fieldEntry (hentries : entries.foldlM (assignEntry ciborium) {} = .ok start)
    (update : Option α → SenmlRecord F) (hnone : update none = start)
    (h : ∀ v ∈ o, assignEntry ciborium start (.integer label, item v) = .ok (update (some v))) :
    (entries ++ fieldEntry label item o).foldlM (assignEntry ciborium) {} = .ok (update o) := by
  rw [List.foldlM_append, hentries]
  exact foldlM_fieldEntry update hnone h

theorem foldlM_plainEntries (ciborium : Ciborium F) (h : record.Plain) :
    record.plainEntries.foldlM (assignEntry ciborium) {} =
      if record.boolValue = none then .ok record else .error (.decode "vb must be a boolean") := by
  have hversion := h.version
  obtain ⟨baseName, _, baseUnit, _, _, baseVersion, name, unit, _,
    stringValue, boolValue, dataValue, sum, time, updateTime⟩ := record
  obtain ⟨⟨⟩, ⟨⟩, ⟨⟩, ⟨⟩, ⟨⟩, ⟨⟩, ⟨⟩, -, -, -, -⟩ := h
  have hassign : ∀ v ∈ baseVersion,
      assignEntry ciborium { baseName, baseUnit } (.integer (-1), .integer v.toNat) =
        .ok { baseName, baseUnit, baseVersion := some v } := by
    intro v hv
    have hassign : assignEntry ciborium { baseName, baseUnit } (.integer (-1), .integer v.toNat) =
        (versionField (.integer v.toNat : Value F)).map fun v =>
          { baseName, baseUnit, baseVersion := some v } := rfl
    rw [hassign, versionField_toNat (hversion v hv)]
    rfl
  rw [SenmlRecord.plainEntries, List.foldlM_append, List.foldlM_append,
    foldlM_append_fieldEntry ?_ (fun stringValue =>
      { baseName, baseUnit, baseVersion, name, unit, stringValue }) rfl fun _ _ => rfl]
  · cases boolValue with
    | none =>
      exact foldlM_fieldEntry (fun dataValue =>
        { baseName, baseUnit, baseVersion, name, unit, stringValue, dataValue }) rfl fun _ _ => rfl
    | some => rfl
  refine foldlM_append_fieldEntry ?_ (fun unit => { baseName, baseUnit, baseVersion, name, unit })
    rfl fun _ _ => rfl
  refine foldlM_append_fieldEntry ?_ (fun name => { baseName, baseUnit, baseVersion, name }) rfl
    fun _ _ => rfl
  refine foldlM_append_fieldEntry ?_ (fun baseVersion => { baseName, baseUnit, baseVersion }) rfl
    hassign
  refine foldlM_append_fieldEntry ?_ (fun baseUnit => { baseName, baseUnit }) rfl fun _ _ => rfl
  exact foldlM_fieldEntry (fun baseName => { baseName }) rfl fun _ _ => rfl

theorem recordFromMap_plainEntries (h : record.Plain) :
    recordFromMap ciborium record.plainEntries =
      if record.boolValue = none then .ok record else .error (.decode "vb must be a boolean") := by
  rw [recordFromMap, foldlM_plainEntries ciborium h]
  split
  · exact if_neg (not_lt.mpr h.oneValue)
  · rfl

theorem mapM_recordFromItem {records : List (SenmlRecord F)}
    (h : ∀ record ∈ records, record.Plain) :
    (records.map fun record => .map record.plainEntries).mapM (recordFromItem ciborium) =
      .ok records ↔ ∀ record ∈ records, record.boolValue = none := by
  induction records with
  | nil => exact iff_of_true rfl (List.forall_mem_nil _)
  | cons record records ih =>
    obtain ⟨hrecord, h⟩ := List.forall_mem_cons.mp h
    rw [List.map_cons, List.mapM_cons, recordFromItem, recordFromMap_plainEntries hrecord,
      List.forall_mem_cons, ← ih h, bind_eq_ok]
    split_ifs with hbool
    · constructor
      · rintro ⟨_, ⟨⟩, hmapM⟩
        obtain ⟨_, hmapM, hcons⟩ := bind_eq_ok.mp hmapM
        cases hcons
        exact ⟨hbool, hmapM⟩
      · rintro ⟨-, hmapM⟩
        exact ⟨record, rfl, bind_eq_ok.mpr ⟨records, hmapM, rfl⟩⟩
    · constructor
      · rintro ⟨_, ⟨⟩, _⟩
      · exact fun h => absurd h.1 hbool

theorem decodeSenmlPack_encodeSenmlPack (hciborium : ciborium.Correct)
    {records : List (SenmlRecord F)} (hlength : records.length < 2 ^ 32)
    (h : ∀ record ∈ records, record.Plain) :
    ∃ bytes, encodeSenmlPack records = .ok bytes ∧ (decodeSenmlPack ciborium bytes = .ok records ↔
      ∀ record ∈ records, record.boolValue = none) := by
  have hvalues : (records.any fun record => decide (1 < record.valueFieldCount)) ≠ true := by
    rw [ne_eq, List.any_eq_true]
    rintro ⟨record, hmem, hmany⟩
    exact absurd (of_decide_eq_true hmany) (not_lt.mpr (h record hmem).oneValue)
  have hitems : Sequence (Takes (readItem 16))
      (records.map fun record => (.map record.plainEntries : Value F))
      (records.flatMap fun record => Wire.map record.fieldCount ++ emitRecordFields record) :=
    .flatMap fun record hmem => takes_record (h record hmem)
  have hhead : Takes readHead (4, records.length) (Wire.array records.length) :=
    takes_lengthHead (by decide) hlength
  have hreads : readItem 17 (Wire.array records.length ++ records.flatMap fun record =>
      Wire.map record.fieldCount ++ emitRecordFields record) =
        some (.array (records.map fun record => .map record.plainEntries), []) := by
    rw [readItem, hhead _]
    have hbody := hitems.takes []
    rw [List.append_nil, List.length_map] at hbody
    simp only [Option.bind_eq_bind, Option.bind_some]
    rw [hbody, Option.map_some]
  have hreader := hciborium _ _ _ hreads
  refine ⟨_, if_neg hvalues, ?_⟩
  rw [decodeSenmlPack, hreader, ← mapM_recordFromItem h]
  show (if _ then _ else _) = _ ↔ _
  rw [List.length_nil, Nat.sub_zero, if_neg (not_not.mpr rfl)]

end

end Lichen.Client
