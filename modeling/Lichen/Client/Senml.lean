import Lichen.Lib.Bytes
import Lichen.Lib.Guard

namespace Lichen.Client

open Lichen.Lib

/-- The operations that the code uses of `f64`: casts saturate, comparisons are false on NaN. -/
class F64 (F : Type) where
  ofInt : Int → F
  isFinite : F → Bool
  fract : F → F
  eq : F → F → Bool
  lt : F → F → Bool
  le : F → F → Bool
  sub : F → F → F
  div : F → F → F
  max : F → F → F
  min : F → F → F
  ceil : F → F
  infinity : F
  toI64 : F → Int
  toU64 : F → Nat
  toBeBytes : F → List.Vector UInt8 8

instance : F64 Float where
  ofInt := Float.ofInt
  isFinite := Float.isFinite
  fract x := x - (if x < 0 then x.ceil else x.floor)
  eq x y := x == y
  lt x y := decide (x < y)
  le x y := decide (x ≤ y)
  sub x y := x - y
  div x y := x / y
  max x y := if x.isNaN then y else if y.isNaN then x else if x < y then y else x
  min x y := if x.isNaN then y else if y.isNaN then x else if y < x then y else x
  ceil := Float.ceil
  infinity := 1 / 0
  toI64 x := x.toInt64.toInt
  toU64 x := x.toUInt64.toNat
  toBeBytes x := toArray 8 (beBytes 8 x.toBits.toNat)

inductive Error where
  | decode (message : String)
  | encode (message : String)
  | config (message : String)
  deriving DecidableEq

inductive Value (F : Type) where
  | integer (i : Int)
  | bytes (b : Bytes)
  | float (f : F)
  | text (s : String)
  | bool (b : Bool)
  | null
  | tag (t : Nat) (v : Value F)
  | array (items : List (Value F))
  | map (entries : List (Value F × Value F))

/-- What the code takes from the `ciborium` crate: the first item of the input with the position
behind it, the bytes that an item is written as, and its debug text. -/
structure Ciborium (F : Type) where
  fromReader : Bytes → Except String (Value F × Nat)
  intoWriter : Value F → Bytes
  debug : Value F → String

structure SenmlRecord (F : Type) where
  baseName : Option String := none
  baseTime : Option F := none
  baseUnit : Option String := none
  baseValue : Option F := none
  baseSum : Option F := none
  baseVersion : Option UInt8 := none
  name : Option String := none
  unit : Option String := none
  value : Option F := none
  stringValue : Option String := none
  boolValue : Option Bool := none
  dataValue : Option Bytes := none
  sum : Option F := none
  time : Option F := none
  updateTime : Option F := none
  deriving DecidableEq

namespace SenmlRecord

variable {F : Type}

def text (name value : String) : SenmlRecord F := { name := some name, stringValue := some value }

def number (name unit : String) (value : F) : SenmlRecord F :=
  { name := some name, unit := some unit, value := some value }

def valueFieldCount (record : SenmlRecord F) : Nat :=
  record.value.isSome.toNat + record.stringValue.isSome.toNat + record.boolValue.isSome.toNat +
    record.dataValue.isSome.toNat

def fieldCount (record : SenmlRecord F) : Nat :=
  record.baseName.isSome.toNat + record.baseTime.isSome.toNat + record.baseUnit.isSome.toNat +
    record.baseValue.isSome.toNat + record.baseSum.isSome.toNat +
    record.baseVersion.isSome.toNat + record.name.isSome.toNat + record.unit.isSome.toNat +
    record.value.isSome.toNat + record.stringValue.isSome.toNat + record.boolValue.isSome.toNat +
    record.dataValue.isSome.toNat + record.sum.isSome.toNat + record.time.isSome.toNat +
    record.updateTime.isSome.toNat

end SenmlRecord

def fieldForLabel (label : Int) : Option String :=
  if label = -2 then some "bn" else if label = -3 then some "bt" else if label = -4 then some "bu"
  else if label = -5 then some "bv" else if label = -6 then some "bs"
  else if label = -1 then some "bver" else if label = 0 then some "n" else if label = 1 then some "u"
  else if label = 2 then some "v" else if label = 3 then some "vs" else if label = 4 then some "vb"
  else if label = 5 then some "s" else if label = 6 then some "t" else if label = 7 then some "ut"
  else if label = 8 then some "vd" else none

def labelForField (field : String) : Option Int :=
  if field = "bn" then some (-2) else if field = "bt" then some (-3)
  else if field = "bu" then some (-4) else if field = "bv" then some (-5)
  else if field = "bs" then some (-6) else if field = "bver" then some (-1)
  else if field = "n" then some 0 else if field = "u" then some 1 else if field = "v" then some 2
  else if field = "vs" then some 3 else if field = "vb" then some 4 else if field = "s" then some 5
  else if field = "t" then some 6 else if field = "ut" then some 7 else if field = "vd" then some 8
  else none

section Decode

variable {F : Type} [F64 F] (ciborium : Ciborium F)

section

variable (value : Value F)

def numericField : Except Error F := do
  let out ← match value with
    | .integer i => pure (F64.ofInt i)
    | .float f => pure f
    | _ => throw (.decode ("SenML field must be number, got " ++ ciborium.debug value))
  if F64.isFinite out then return out
  else throw (.decode "SenML number must be finite")

def textField : Except Error String :=
  match value with
  | .text s => pure s
  | _ => throw (.decode ("SenML field must be text, got " ++ ciborium.debug value))

def versionField : Except Error UInt8 :=
  match value with
  | .integer i =>
    if i < 0 ∨ 255 < i then throw (.decode "bver out of u8 range")
    else if i < 1 ∨ 10 < i then throw (.decode "bver must be in [1,10]")
    else return UInt8.ofNat i.toNat
  | _ => throw (.decode "bver must be an integer")

def boolField : Except Error Bool :=
  match value with
  | .bool b => pure b
  | _ => throw (.decode "vb must be a boolean")

def dataField : Except Error Bytes :=
  match value with
  | .bytes b => pure b
  | _ => throw (.decode "vd must be a byte string")

end

def assignField (record : SenmlRecord F) (label : Int) (value : Value F) :
    Except Error (SenmlRecord F) := do
  if label = -2 then return { record with baseName := some (← textField ciborium value) }
  else if label = -3 then return { record with baseTime := some (← numericField ciborium value) }
  else if label = -4 then return { record with baseUnit := some (← textField ciborium value) }
  else if label = -5 then return { record with baseValue := some (← numericField ciborium value) }
  else if label = -6 then return { record with baseSum := some (← numericField ciborium value) }
  else if label = -1 then return { record with baseVersion := some (← versionField value) }
  else if label = 0 then return { record with name := some (← textField ciborium value) }
  else if label = 1 then return { record with unit := some (← textField ciborium value) }
  else if label = 2 then return { record with value := some (← numericField ciborium value) }
  else if label = 3 then return { record with stringValue := some (← textField ciborium value) }
  else if label = 4 then return { record with boolValue := some (← boolField value) }
  else if label = 5 then return { record with sum := some (← numericField ciborium value) }
  else if label = 6 then return { record with time := some (← numericField ciborium value) }
  else if label = 7 then return { record with updateTime := some (← numericField ciborium value) }
  else if label = 8 then return { record with dataValue := some (← dataField value) }
  else throw (.decode ("unknown SenML label " ++ toString label))

def assignEntry (record : SenmlRecord F) (entry : Value F × Value F) :
    Except Error (SenmlRecord F) :=
  match entry.1 with
  | .integer label =>
    if label < -(2 ^ 63) ∨ 2 ^ 63 ≤ label then throw (.decode "SenML label out of range")
    else if (fieldForLabel label).isSome then assignField ciborium record label entry.2
    else return record
  | .text name =>
    if name.toList.getLast? = some '_' then
      throw (.decode ("unknown mandatory SenML label '" ++ name ++ "'"))
    else match labelForField name with
      | some label => assignField ciborium record label entry.2
      | none => return record
  | other => throw (.decode ("SenML label must be integer or string, got " ++ ciborium.debug other))

def recordFromMap (map : List (Value F × Value F)) : Except Error (SenmlRecord F) := do
  let out ← map.foldlM (assignEntry ciborium) {}
  if 1 < out.valueFieldCount then
    throw (.decode "SenML record must have at most one value field")
  else return out

def recordFromItem : Value F → Except Error (SenmlRecord F)
  | .map map => recordFromMap ciborium map
  | _ => throw (.decode "SenML records must be maps")

def decodeSenmlPack (bytes : Bytes) : Except Error (List (SenmlRecord F)) := do
  let (value, position) ← (ciborium.fromReader bytes).mapError .decode
  if position ≠ bytes.length then throw (.decode "trailing bytes after SenML pack")
  else match value with
    | .array items => items.mapM (recordFromItem ciborium)
    | _ => throw (.decode "SenML pack must be an array")

end Decode

namespace Wire

/-- The shortest head of a major type, with up to eight bytes for the argument. -/
def head (major : UInt8) (v : Nat) : Bytes :=
  if v < 24 then [major ||| UInt8.ofNat v]
  else if v ≤ 255 then [major ||| 24, UInt8.ofNat v]
  else if v ≤ 65535 then (major ||| 25) :: beBytes 2 v
  else if v ≤ 4294967295 then (major ||| 26) :: beBytes 4 v
  else (major ||| 27) :: beBytes 8 v

def lengthHead (major : UInt8) (len : Nat) : Bytes :=
  if len ≤ 65535 then head major len else (major ||| 26) :: beBytes 4 len

def uint (v : Nat) : Bytes := head 0x00 v
def nint (magnitude : Nat) : Bytes := head 0x20 magnitude
def int (v : Int) : Bytes := if v < 0 then nint (-1 - v).toNat else uint v.toNat
def text (s : String) : Bytes := lengthHead 0x60 s.utf8ByteSize ++ s.toUTF8.toList
def bytes (data : Bytes) : Bytes := lengthHead 0x40 data.length ++ data
def array (len : Nat) : Bytes := lengthHead 0x80 len
def map (len : Nat) : Bytes := [0xA0 ||| UInt8.ofNat len]

def number {F : Type} [F64 F] (v : F) : Bytes :=
  if F64.isFinite v && F64.eq (F64.fract v) (F64.ofInt 0) && F64.le (F64.ofInt (-(2 ^ 63))) v &&
      F64.lt v (F64.ofInt (2 ^ 63)) then int (F64.toI64 v)
  else 0xFB :: (F64.toBeBytes v).toList

def field (label : Bytes) (write : α → Bytes) : Option α → Bytes
  | none => []
  | some v => label ++ write v

end Wire

section Encode

variable {F : Type} [F64 F]

open Wire

def emitRecordFields (record : SenmlRecord F) : Bytes :=
  field (int (-2)) text record.baseName ++ field (int (-3)) number record.baseTime ++
    field (int (-4)) text record.baseUnit ++ field (int (-5)) number record.baseValue ++
    field (int (-6)) number record.baseSum ++
    field (int (-1)) (fun v => uint v.toNat) record.baseVersion ++
    field (uint 0) text record.name ++ field (uint 1) text record.unit ++
    field (uint 2) number record.value ++ field (uint 3) text record.stringValue ++
    field (uint 4) (fun v => [if v then 1 else 0]) record.boolValue ++
    field (uint 8) bytes record.dataValue ++ field (uint 5) number record.sum ++
    field (uint 6) number record.time ++ field (uint 7) number record.updateTime

def encodeSenmlPack (records : List (SenmlRecord F)) : Except Error Bytes :=
  if records.any fun record => decide (1 < record.valueFieldCount) then
    .error (.encode "SenML record must have at most one value field")
  else .ok (array records.length ++
    records.flatMap fun record => map record.fieldCount ++ emitRecordFields record)

end Encode

def senmlText {F : Type} (records : List (SenmlRecord F)) (name : String) : Option String :=
  (records.find? fun record => record.name = some name).bind (·.stringValue)

end Lichen.Client
