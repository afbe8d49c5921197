import Lichen.Lib.Bytes
import Lichen.Lib.Guard

namespace Lichen.Hal

open Lichen.Lib

/-- Non-volatile storage. `read` gets the length of the caller's buffer and returns the stored
length with the bytes copied into the buffer; `write` returns the storage it leaves. -/
class NonVolatile (S : Type) (E : outParam Type) where
  read : S → String → Nat → Except E (Option (Nat × Bytes))
  write : S → String → Bytes → Except E Unit × S

def slotVersion : UInt8 := 1
def slotHeaderLen : Nat := 20
def slotTrailerLen : Nat := 4

abbrev Magic := List.Vector UInt8 4

structure SlotKeys where
  a : String
  b : String
  distinct : a ≠ b

def SlotKeys.get (keys : SlotKeys) (slot : Nat) : String :=
  if slot = 0 then keys.a else keys.b

inductive RedundantOpenError (E : Type) where
  | missing
  | corrupt
  | bufferTooSmall
  | storage (error : E)

structure RedundantValue where
  generation : Nat
  slot : Nat
  len : Nat
  deriving DecidableEq

def RedundantValue.next (value : RedundantValue) (payload : Bytes) : RedundantValue :=
  ⟨value.generation + 1, 1 - value.slot, payload.length⟩

inductive RedundantProvisionError (E : Type) where
  | exists
  | storage (error : E)

inductive RedundantUpdateError (E : Type) where
  | storage (error : E)
  | stale
  | exhausted
  | corrupt
  deriving DecidableEq

def crc32Bit (crc : UInt32) : UInt32 := (crc >>> 1) ^^^ (0xedb88320 &&& (0 - (crc &&& 1)))

def crc32Byte (crc : UInt32) (byte : UInt8) : UInt32 :=
  crc32Bit^[8] (crc ^^^ byte.toUInt32)

def crc32 (data : Bytes) : UInt32 := ~~~(data.foldl crc32Byte 0xffffffff)

def parseSlot (raw : Bytes) (magic : Magic) : Option (Nat × Bytes) :=
  if raw.length < slotHeaderLen + slotTrailerLen ∨ raw.take 4 ≠ magic.toList ∨
      raw.extract 4 5 ≠ [slotVersion] ∨ raw.extract 5 8 ≠ [0, 0, 0] then none
  else
    let generation := beNat (raw.extract 8 16)
    let payloadLen := beNat (raw.extract 16 20)
    let checksumAt := slotHeaderLen + payloadLen
    if generation = 0 ∨ checksumAt + slotTrailerLen ≠ raw.length then none
    else
      let expected := beNat (raw.drop checksumAt)
      if (crc32 (raw.take checksumAt)).toNat = expected then
        some (generation, raw.extract slotHeaderLen checksumAt)
      else none

section

variable {S E : Type} [NonVolatile S E]

def readRaw (storage : S) (key : String) (buf : Nat) :
    Except (RedundantOpenError E) (Option Bytes) :=
  match NonVolatile.read storage key buf with
  | .error error => .error (.storage error)
  | .ok none => .ok none
  | .ok (some (len, copied)) =>
    if len > buf then .error .bufferTooSmall else .ok (some (copied.take len))

def readParsedUpdate (storage : S) (key : String) (buf : Nat) (magic : Magic) :
    Except (RedundantUpdateError E) (Option (Nat × Nat) × Bool) :=
  match readRaw storage key buf with
  | .error (.storage error) => .error (.storage error)
  | .error _ => .error .corrupt
  | .ok raw =>
    let parsed := raw.bind (parseSlot · magic)
    .ok (parsed.map fun (generation, payload) => (generation, payload.length), raw.isSome)

/-- The newer of two parsed slots: its generation, its slot and what was parsed with it. -/
def newest (a b : Option (Nat × α)) : Option (Nat × Nat × α) :=
  match a, b with
  | some a, some b => if b.1 > a.1 then some (b.1, 1, b.2) else some (a.1, 0, a.2)
  | some a, none => some (a.1, 0, a.2)
  | none, some b => some (b.1, 1, b.2)
  | none, none => none

theorem newest_left {o : Option (Nat × α)} (h : ∀ b, o = some b → b.1 < a.1) :
    newest (some a) o = some (a.1, 0, a.2) := by
  cases o with
  | none => rfl
  | some b => exact if_neg (Nat.not_lt.mpr (h b rfl).le)

theorem newest_right {o : Option (Nat × α)} (h : ∀ a, o = some a → a.1 < b.1) :
    newest o (some b) = some (b.1, 1, b.2) := by
  cases o with
  | none => rfl
  | some a => exact if_pos (h a rfl)

theorem newest_map (f : α → β) (a b : Option (Nat × α)) :
    newest (a.map fun p => (p.1, f p.2)) (b.map fun p => (p.1, f p.2)) =
      (newest a b).map fun p => (p.1, p.2.1, f p.2.2) := by
  cases a with
  | none => cases b <;> rfl
  | some =>
    cases b with
    | none => rfl
    | some =>
      simp only [newest, Option.map_some]
      split <;> rfl

/-- Open the newest valid value from two alternating slots, with the bytes left in `out`. -/
def openRedundant (storage : S) (keys : SlotKeys) (magic : Magic) (slotA slotB out : Nat) :
    Except (RedundantOpenError E) (RedundantValue × Bytes) := do
  let rawA ← readRaw storage keys.a slotA
  let rawB ← readRaw storage keys.b slotB
  match newest (rawA.bind (parseSlot · magic)) (rawB.bind (parseSlot · magic)) with
  | none => .error (if rawA.isNone && rawB.isNone then .missing else .corrupt)
  | some (generation, slot, payload) =>
    if payload.length > out then .error .bufferTooSmall
    else .ok (⟨generation, slot, payload.length⟩, payload)

def encodeSlot (magic : Magic) (generation : Nat) (payload : Bytes) (out : Nat) :
    Option Bytes :=
  let len := slotHeaderLen + payload.length + slotTrailerLen
  if generation = 0 ∨ payload.length > 2 ^ 32 - 1 ∨ out < len then none
  else
    let header := magic.toList ++ [slotVersion, 0, 0, 0] ++ beBytes 8 generation ++
      beBytes 4 payload.length
    let covered := header ++ payload
    some (covered ++ beBytes 4 (crc32 covered).toNat)

/-- Provision an absent two-slot value. `none` is the panic of a record buffer too small for
the payload. -/
def provisionRedundant (storage : S) (keys : SlotKeys) (magic : Magic) (payload : Bytes)
    (record : Nat) : Option (Except (RedundantProvisionError E) Unit) × S :=
  match NonVolatile.read storage keys.a 1, NonVolatile.read storage keys.b 1 with
  | .error error, _ => (some (.error (.storage error)), storage)
  | .ok _, .error error => (some (.error (.storage error)), storage)
  | .ok a, .ok b =>
    if a.isSome || b.isSome then (some (.error .exists), storage)
    else
      match encodeSlot magic 1 payload record with
      | none => (none, storage)
      | some bytes =>
        let (written, storage) := NonVolatile.write storage keys.a bytes
        (some (written.mapError .storage), storage)

/-- Persist the next generation to the slot opposite `current.slot`. `none` is the panic of a
record buffer too small for the payload. -/
def updateRedundant (storage : S) (keys : SlotKeys) (magic : Magic) (current : RedundantValue)
    (payload : Bytes) (record : Nat) :
    Option (Except (RedundantUpdateError E) RedundantValue) × S :=
  let latest : Except (RedundantUpdateError E) RedundantValue := do
    let a ← readParsedUpdate storage keys.a record magic
    let b ← readParsedUpdate storage keys.b record magic
    match newest a.1 b.1 with
    | none => .error (if !a.2 && !b.2 then .stale else .corrupt)
    | some (generation, slot, len) => .ok ⟨generation, slot, len⟩
  match latest with
  | .error error => (some (.error error), storage)
  | .ok latest =>
    if latest.generation ≠ current.generation ∨ latest.slot ≠ current.slot then
      (some (.error .stale), storage)
    else if current.generation + 1 ≥ 2 ^ 64 then (some (.error .exhausted), storage)
    else
      let generation := current.generation + 1
      match encodeSlot magic generation payload record with
      | none => (none, storage)
      | some bytes =>
        let slot := 1 - current.slot
        let (written, storage) := NonVolatile.write storage (keys.get slot) bytes
        match written with
        | .error error => (some (.error (.storage error)), storage)
        | .ok () => (some (.ok ⟨generation, slot, payload.length⟩), storage)

end

def slotHeader (magic : Magic) (generation : Nat) (payload : Bytes) : Bytes :=
  magic.toList ++ ([slotVersion] ++ ([0, 0, 0] ++ (beBytes 8 generation ++
    (beBytes 4 payload.length ++ []))))

@[simp] theorem length_slotHeader : (slotHeader magic generation payload).length = 20 := by
  simp [slotHeader]

section

variable (h : encodeSlot magic generation payload out = some raw)

include h

theorem encodeSlot_eq_some : generation ≠ 0 ∧ payload.length < 256 ^ 4 ∧
    raw = slotHeader magic generation payload ++ (payload ++
      (beBytes 4 (crc32 (slotHeader magic generation payload ++ payload)).toNat ++ [])) := by
  simp only [encodeSlot] at h
  split at h
  · cases h
  rename_i hguard
  refine ⟨fun h => hguard (.inl h), by omega, ?_⟩
  rw [← Option.some.inj h]
  simp [slotHeader]

theorem length_encodeSlot_le : raw.length ≤ out := by
  simp only [encodeSlot] at h
  split at h
  · cases h
  rename_i hguard
  rw [← Option.some.inj h]
  simp [slotHeaderLen, slotTrailerLen] at hguard ⊢
  omega

theorem parseSlot_encodeSlot (hgen : generation < 2 ^ 64) :
    parseSlot raw magic = some (generation, payload) := by
  obtain ⟨hne, hlen, hraw⟩ := encodeSlot_eq_some h
  have hpieces : raw = [magic.toList, [slotVersion], [0, 0, 0], beBytes 8 generation,
      beBytes 4 payload.length, payload,
      beBytes 4 (crc32 (slotHeader magic generation payload ++ payload)).toNat].flatten := by
    rw [hraw]
    simp [slotHeader]
  have htake : raw.take 4 = magic.toList := by
    rw [hraw, slotHeader, List.append_assoc, List.take_left' magic.toList_length]
  have hversion : raw.extract 4 5 = [slotVersion] := by
    rw [hpieces]
    exact extract_piece 1 rfl (by simp) rfl
  have hzero : raw.extract 5 8 = [0, 0, 0] := by
    rw [hpieces]
    exact extract_piece 2 rfl (by simp) rfl
  have hgeneration : beNat (raw.extract 8 16) = generation := by
    rw [hpieces, extract_piece 3 rfl (by simp) (by simp), beNat_beBytes_of_lt hgen]
  have hpayload : beNat (raw.extract 16 20) = payload.length := by
    rw [hpieces, extract_piece 4 rfl (by simp) (by simp), beNat_beBytes_of_lt hlen]
  have hlength : raw.length = 20 + payload.length + 4 := by
    rw [hraw]
    simp
    omega
  have hbody : raw.extract 20 (20 + payload.length) = payload := by
    rw [hpieces]
    exact extract_piece 5 rfl (by simp) rfl
  have hcovered : raw.take (20 + payload.length) = slotHeader magic generation payload ++ payload := by
    rw [hraw, ← List.append_assoc, List.take_left' (by simp)]
  have hchecksum : beNat (raw.drop (20 + payload.length)) =
      (crc32 (slotHeader magic generation payload ++ payload)).toNat := by
    rw [hraw, ← List.append_assoc, List.drop_left' (by simp), List.append_nil,
      beNat_beBytes_of_lt (UInt32.toNat_lt _)]
  simp [parseSlot, slotHeaderLen, slotTrailerLen, htake, hversion, hzero, hgeneration, hpayload,
    hlength, hbody, hcovered, hchecksum, hne]

end

end Lichen.Hal
