import Lichen.Hal.Storage
import Lichen.Lib.Run
import Mathlib.Logic.Function.Basic

namespace Lichen.Hal

open Lichen.Lib

/-- What becomes of the next write: it completes, does not happen, leaves bytes that no slot
parser accepts, or completes although an error is reported. -/
inductive WriteFate (E : Type) (magic : Magic) where
  | complete
  | lost (error : E)
  | torn (error : E) (left : { raw : Bytes // parseSlot raw magic = none })
  | unacknowledged (error : E)

/-- A medium that keeps one value a key and obeys the fate set for its next write. -/
structure Flash (E : Type) (magic : Magic) where
  cells : String → Option Bytes
  fate : WriteFate E magic

namespace Flash

variable {E : Type} {magic : Magic}

section

variable (f : Flash E magic)

def withFate (fate : WriteFate E magic) : Flash E magic := { f with fate }

def program (key : String) (data : Bytes) : Flash E magic :=
  { f with cells := Function.update f.cells key (some data) }

def write (key : String) (data : Bytes) : Except E Unit × Flash E magic :=
  match f.fate with
  | .complete => (.ok (), f.program key data)
  | .lost error => (.error error, f)
  | .torn error left => (.error error, f.program key left)
  | .unacknowledged error => (.error error, f.program key data)

end

instance : NonVolatile (Flash E magic) E where
  read f key buf := .ok ((f.cells key).map fun stored => (stored.length, stored.take buf))
  write := write

def slot (f : Flash E magic) (key : String) : Option (Nat × Bytes) :=
  (f.cells key).bind (parseSlot · magic)

def Fits (f : Flash E magic) (key : String) (buf : Nat) : Prop :=
  ∀ stored, f.cells key = some stored → stored.length ≤ buf

/-- The record's current value: one slot holds it, the other holds nothing as new. -/
structure Holds (f : Flash E magic) (keys : SlotKeys) (value : RedundantValue)
    (payload : Bytes) : Prop where
  slot_le : value.slot ≤ 1
  len : value.len = payload.length
  current : f.slot (keys.get value.slot) = some (value.generation, payload)
  older : ∀ generation old, f.slot (keys.get (1 - value.slot)) = some (generation, old) →
    generation < value.generation

variable {f : Flash E magic} {keys : SlotKeys} {value : RedundantValue} {payload : Bytes}

theorem readRaw_of_fits (h : f.Fits key buf) : readRaw f key buf = .ok (f.cells key) := by
  simp only [readRaw, NonVolatile.read]
  cases hcell : f.cells key with
  | none => rfl
  | some stored =>
    have hle := h stored hcell
    simp [Nat.not_lt.mpr hle, List.take_of_length_le hle]

theorem readRaw_cases (f : Flash E magic) (key : String) (buf : Nat) :
    (f.Fits key buf ∧ readRaw f key buf = .ok (f.cells key)) ∨
    readRaw f key buf = .error .bufferTooSmall := by
  by_cases h : f.Fits key buf
  · exact .inl ⟨h, readRaw_of_fits h⟩
  · simp only [Fits, not_forall, Nat.not_le] at h
    obtain ⟨_, hcell, hlt⟩ := h
    simp [readRaw, NonVolatile.read, hcell, hlt]

section

variable (h : Holds f keys value payload)

include h

theorem Holds.newest :
    Hal.newest (f.slot keys.a) (f.slot keys.b) = some (value.generation, value.slot, payload) := by
  have hle := h.slot_le
  have hcurrent := h.current
  have holder := h.older
  obtain hslot | hslot : value.slot = 0 ∨ value.slot = 1 := by omega
  · rw [hslot] at hcurrent holder
    have ha : f.slot keys.a = some (value.generation, payload) := hcurrent
    rw [ha, hslot]
    exact newest_left fun b hb => holder b.1 b.2 hb
  · rw [hslot] at hcurrent holder
    have hb : f.slot keys.b = some (value.generation, payload) := hcurrent
    rw [hb, hslot]
    exact newest_right fun a ha => holder a.1 a.2 ha

theorem Holds.open_of_fits (ha : f.Fits keys.a slotA)
    (hb : f.Fits keys.b slotB) : openRedundant f keys magic slotA slotB out =
      if payload.length > out then .error .bufferTooSmall else .ok (value, payload) := by
  have hvalue : value = ⟨value.generation, value.slot, payload.length⟩ := by
    rw [← h.len]
  have hnewest := h.newest
  simp only [slot] at hnewest
  simp only [openRedundant, readRaw_of_fits ha, readRaw_of_fits hb, bind, Except.bind, hnewest]
  rw [← hvalue]

theorem Holds.open_cases (slotA slotB out : Nat) :
    openRedundant f keys magic slotA slotB out = .ok (value, payload) ∨
    openRedundant f keys magic slotA slotB out = .error .bufferTooSmall := by
  obtain ⟨ha, -⟩ | ha := readRaw_cases f keys.a slotA
  · obtain ⟨hb, -⟩ | hb := readRaw_cases f keys.b slotB
    · rw [h.open_of_fits ha hb]
      split
      · exact .inr rfl
      · exact .inl rfl
    · simp only [openRedundant, readRaw_of_fits ha, hb]
      exact .inr rfl
  · simp only [openRedundant, ha]
    exact .inr rfl

end

theorem readParsedUpdate_cases (f : Flash E magic) (key : String) (buf : Nat) :
    readParsedUpdate f key buf magic = .ok ((f.slot key).map fun p => (p.1, p.2.length),
      (f.cells key).isSome) ∨ readParsedUpdate f key buf magic = .error .corrupt := by
  obtain ⟨-, hread⟩ | hread := readRaw_cases f key buf
  · simp only [readParsedUpdate, hread]
    exact .inl rfl
  · right
    simp only [readParsedUpdate, hread]

/-- An update leaves the medium alone, or writes the slot that is not the newest. -/
theorem update_cases (current : RedundantValue) (new : Bytes) (record : Nat)
    (h : Hal.newest (f.slot keys.a) (f.slot keys.b) =
      some (value.generation, value.slot, payload)) :
    (∃ result, updateRedundant f keys magic current new record = (result, f) ∧
      (result = none ∧ current.generation = value.generation ∨ result = some (.error .stale) ∨
        result = some (.error .exhausted) ∨ result = some (.error .corrupt))) ∨
    (current.generation = value.generation ∧ value.generation + 1 < 2 ^ 64 ∧ ∃ bytes,
      encodeSlot magic (value.generation + 1) new record = some bytes ∧
      updateRedundant f keys magic current new record =
        let (written, f') := f.write (keys.get (1 - value.slot)) bytes
        (some ((written.mapError .storage).map fun _ => value.next new), f')) := by
  obtain ha | ha := readParsedUpdate_cases f keys.a record
  swap
  · left
    simp [updateRedundant, ha, bind, Except.bind]
  obtain hb | hb := readParsedUpdate_cases f keys.b record
  swap
  · left
    simp [updateRedundant, ha, hb, bind, Except.bind]
  simp only [updateRedundant, ha, hb, bind, Except.bind, newest_map, h, Option.map_some]
  split
  · exact .inl ⟨_, rfl, by simp⟩
  rename_i hmatch
  obtain ⟨hgen, hslot⟩ : value.generation = current.generation ∧ value.slot = current.slot := by
    simpa only [not_or, not_not] using hmatch
  split
  · exact .inl ⟨_, rfl, by simp⟩
  rw [← hgen, ← hslot]
  cases hencode : encodeSlot magic (value.generation + 1) new record with
  | none => exact .inl ⟨_, rfl, by simp⟩
  | some bytes =>
    refine .inr ⟨rfl, by omega, bytes, rfl, ?_⟩
    simp only [NonVolatile.write]
    cases (f.write (keys.get (1 - value.slot)) bytes).1 <;> rfl

@[simp] theorem slot_program_self : (f.program key data).slot key = parseSlot data magic := by
  simp [slot, program]

theorem slot_program_ne (h : other ≠ key) : (f.program key data).slot other = f.slot other := by
  simp [slot, program, Function.update_of_ne h]

theorem get_opposite_ne (h : i ≤ 1) : keys.get i ≠ keys.get (1 - i) := by
  obtain rfl | rfl : i = 0 ∨ i = 1 := by omega
  · exact keys.distinct
  · exact keys.distinct.symm

theorem Holds.program_torn (h : Holds f keys value payload) (hleft : parseSlot left magic = none) :
    Holds (f.program (keys.get (1 - value.slot)) left) keys value payload where
  slot_le := h.slot_le
  len := h.len
  current := by rw [slot_program_ne (get_opposite_ne h.slot_le), h.current]
  older := fun generation old hslot => by
    rw [slot_program_self, hleft] at hslot
    cases hslot

theorem holds_program_next (hle : value.slot ≤ 1)
    (hcurrent : f.slot (keys.get value.slot) = some (value.generation, payload))
    (hgen : value.generation + 1 < 2 ^ 64)
    (hbytes : encodeSlot magic (value.generation + 1) new record = some bytes) :
    Holds (f.program (keys.get (1 - value.slot)) bytes) keys (value.next new) new where
  slot_le := Nat.sub_le 1 value.slot
  len := rfl
  current := by
    rw [RedundantValue.next, slot_program_self, parseSlot_encodeSlot hbytes hgen]
  older := fun generation old hslot => by
    have hback : 1 - (value.next new).slot = value.slot := Nat.sub_sub_self hle
    rw [hback, slot_program_ne (get_opposite_ne hle), hcurrent] at hslot
    cases hslot
    exact Nat.lt_succ_self _

section

variable (h : Holds f keys value payload)

include h

theorem Holds.program_next (hgen : value.generation + 1 < 2 ^ 64)
    (hbytes : encodeSlot magic (value.generation + 1) new record = some bytes) :
    Holds (f.program (keys.get (1 - value.slot)) bytes) keys (value.next new) new :=
  holds_program_next h.slot_le h.current hgen hbytes

theorem Holds.setFate (fate : WriteFate E magic) :
    Holds (f.withFate fate) keys value payload :=
  ⟨h.slot_le, h.len, h.current, h.older⟩

/-- An update leaves the medium alone, or replaces the current value by the new one as the fate
of the write has it. -/
theorem Holds.update_outcome (current : RedundantValue) (new : Bytes) (record : Nat) :
    (∃ result, updateRedundant f keys magic current new record = (result, f) ∧
      (result = none ∨ result = some (.error .stale) ∨ result = some (.error .exhausted) ∨
        result = some (.error .corrupt))) ∨ (current.generation = value.generation ∧ ∃ f',
      (updateRedundant f keys magic current new record = (some (.ok (value.next new)), f') ∧
        Holds f' keys (value.next new) new) ∨
      (∃ error, updateRedundant f keys magic current new record =
          (some (.error (.storage error)), f') ∧ (Holds f' keys value payload ∨
          (f.fate = .unacknowledged error ∧ Holds f' keys (value.next new) new)))) := by
  obtain ⟨result, hupdate, hresult⟩ | ⟨hgen, hroom, _, hbytes, hupdate⟩ :=
    update_cases current new record h.newest
  · exact .inl ⟨result, hupdate, hresult.imp_left And.left⟩
  have hnext := h.program_next hroom hbytes
  rw [hupdate, write]
  refine .inr ⟨hgen, ?_⟩
  cases hfate : f.fate with
  | complete => exact ⟨_, .inl ⟨rfl, hnext⟩⟩
  | lost error => exact ⟨_, .inr ⟨error, rfl, .inl h⟩⟩
  | torn error left => exact ⟨_, .inr ⟨error, rfl, .inl (h.program_torn left.2)⟩⟩
  | unacknowledged error => exact ⟨_, .inr ⟨error, rfl, .inr ⟨rfl, hnext⟩⟩⟩

theorem Holds.update_clean
    (hfate : f.fate = .complete ∨ ∃ error, f.fate = .lost error) (current : RedundantValue)
    (new : Bytes) (record : Nat) : (∃ bytes, bytes.length ≤ record ∧
      updateRedundant f keys magic current new record =
        (some (.ok (value.next new)), f.program (keys.get (1 - value.slot)) bytes) ∧
      Holds (f.program (keys.get (1 - value.slot)) bytes) keys (value.next new) new) ∨
    ∃ result, updateRedundant f keys magic current new record = (result, f) ∧
      ∀ next, result ≠ some (.ok next) := by
  obtain ⟨result, hupdate, hresult⟩ | ⟨-, hroom, bytes, hbytes, hupdate⟩ :=
    update_cases current new record h.newest
  · exact .inr ⟨result, hupdate, by rintro next rfl; simp at hresult⟩
  rw [hupdate, write]
  obtain hfate | ⟨error, hfate⟩ := hfate
  · rw [hfate]
    exact .inl ⟨bytes, length_encodeSlot_le hbytes, rfl, h.program_next hroom hbytes⟩
  · rw [hfate]
    exact .inr ⟨_, rfl, by simp [Except.map]⟩

end

theorem fits_program (h : f.Fits key buf) (hlen : data.length ≤ buf) (other : String) :
    (f.program other data).Fits key buf := by
  intro stored hstored
  simp only [program, Function.update_apply] at hstored
  split at hstored
  · cases hstored
    exact hlen
  · exact h stored hstored

theorem newest_eq_some (h : Hal.newest a b = some (generation, i, v)) :
    (i = 0 ∧ a = some (generation, v)) ∨ (i = 1 ∧ b = some (generation, v)) := by
  cases a <;> cases b <;> grind [Hal.newest]

theorem open_of_update (hout : new.length ≤ out)
    (h : updateRedundant f keys magic current new record = (some (.ok next), f')) :
    openRedundant f' keys magic record record out = .ok (next, new) := by
  obtain ⟨ha, hreada⟩ | hreada := readRaw_cases f keys.a record
  swap
  · simp [updateRedundant, readParsedUpdate, hreada, bind, Except.bind] at h
  obtain ⟨hb, hreadb⟩ | hreadb := readRaw_cases f keys.b record
  swap
  · simp [updateRedundant, readParsedUpdate, hreada, hreadb, bind, Except.bind] at h
  have hmap := newest_map List.length (f.slot keys.a) (f.slot keys.b)
  simp only [slot] at hmap
  cases hnewest : Hal.newest (f.slot keys.a) (f.slot keys.b) with
  | none =>
    simp only [slot] at hnewest
    simp only [updateRedundant, readParsedUpdate, hreada, hreadb, bind, Except.bind, hmap, hnewest,
      Option.map_none] at h
    cases h
  | some latest =>
    obtain ⟨generation, i, payload⟩ := latest
    let value : RedundantValue := ⟨generation, i, payload.length⟩
    have hnewest : Hal.newest (f.slot keys.a) (f.slot keys.b) =
      some (value.generation, value.slot, payload) := hnewest
    obtain ⟨_, hupdate, hresult⟩ | ⟨-, hroom, bytes, hbytes, hupdate⟩ :=
      update_cases current new record hnewest
    · cases hupdate.symm.trans h
      simp at hresult
    have hvalue : value.slot ≤ 1 ∧
        f.slot (keys.get value.slot) = some (value.generation, payload) := by
      obtain ⟨hi, hslot⟩ | ⟨hi, hslot⟩ := newest_eq_some hnewest
      · rw [hi]
        exact ⟨Nat.zero_le 1, hslot⟩
      · rw [hi]
        exact ⟨Nat.le_refl 1, hslot⟩
    have hprogram : f' = f.program (keys.get (1 - value.slot)) bytes ∧ next = value.next new := by
      rw [hupdate, write] at h
      cases hfate : f.fate <;> simp_all [Except.map]
    obtain ⟨rfl, rfl⟩ := hprogram
    have hlen := length_encodeSlot_le hbytes
    rw [(holds_program_next hvalue.1 hvalue.2 hroom hbytes).open_of_fits
      (fits_program ha hlen _) (fits_program hb hlen _), if_neg (Nat.not_lt.mpr hout)]

theorem Holds.update_stale (h : Holds f keys value payload) {current : RedundantValue}
    (new : Bytes) (record : Nat) (hne : current.generation ≠ value.generation) :
    ∃ error, updateRedundant f keys magic current new record = (some (.error error), f) := by
  obtain ⟨_, hupdate, ⟨-, hgen⟩ | rfl | rfl | rfl⟩ | ⟨hgen, -⟩ :=
    update_cases current new record h.newest
  · exact absurd hgen hne
  iterate 3 exact ⟨_, hupdate⟩
  · exact absurd hgen hne

theorem provision_cases (f : Flash E magic) (keys : SlotKeys) (payload : Bytes) (record : Nat) :
    (∃ result, provisionRedundant f keys magic payload record = (result, f) ∧
      result ≠ some (.ok ())) ∨ (f.cells keys.a = none ∧ f.cells keys.b = none ∧
      ∃ bytes, encodeSlot magic 1 payload record = some bytes ∧
        provisionRedundant f keys magic payload record =
          (some ((f.write keys.a bytes).1.mapError .storage), (f.write keys.a bytes).2)) := by
  simp only [provisionRedundant, NonVolatile.read, NonVolatile.write, Option.isSome_map]
  cases ha : f.cells keys.a with
  | some => exact .inl ⟨_, rfl, by simp⟩
  | none =>
    cases hb : f.cells keys.b with
    | some => exact .inl ⟨_, rfl, by simp⟩
    | none =>
      cases hencode : encodeSlot magic 1 payload record with
      | none => exact .inl ⟨_, rfl, by simp⟩
      | some bytes => exact .inr ⟨rfl, rfl, bytes, rfl, rfl⟩

theorem holds_first (hb : f.cells keys.b = none)
    (hbytes : encodeSlot magic 1 payload record = some bytes) :
    Holds (f.program keys.a bytes) keys ⟨1, 0, payload.length⟩ payload where
  slot_le := Nat.zero_le 1
  len := rfl
  current := slot_program_self.trans
    (parseSlot_encodeSlot hbytes (by decide : 1 < 2 ^ 64))
  older := fun generation old hslot => by
    have hother : (f.program keys.a bytes).slot keys.b = some (generation, old) := hslot
    rw [slot_program_ne keys.distinct.symm, slot, hb] at hother
    cases hother

def Unprovisioned (f : Flash E magic) (keys : SlotKeys) : Prop :=
  f.slot keys.a = none ∧ f.slot keys.b = none

theorem Unprovisioned.provision_outcome (h : Unprovisioned f keys) (payload : Bytes)
    (record : Nat) : ∃ result f', provisionRedundant f keys magic payload record = (result, f') ∧
      ((Unprovisioned f' keys ∧ result ≠ some (.ok ())) ∨
        Holds f' keys ⟨1, 0, payload.length⟩ payload) := by
  obtain ⟨result, hprovision, hresult⟩ | ⟨-, hb, _, hbytes, hprovision⟩ :=
    provision_cases f keys payload record
  · exact ⟨result, f, hprovision, .inl ⟨h, hresult⟩⟩
  · refine ⟨_, _, hprovision, ?_⟩
    simp only [write]
    cases hfate : f.fate with
    | complete | unacknowledged => exact .inr (holds_first hb hbytes)
    | lost => exact .inl ⟨h, by simp⟩
    | torn error left =>
      refine .inl ⟨⟨slot_program_self.trans left.2, ?_⟩, by simp⟩
      exact (slot_program_ne keys.distinct.symm).trans h.2

theorem holds_of_provision
    (h : (provisionRedundant f keys magic payload record).1 = some (.ok ())) :
    Holds (provisionRedundant f keys magic payload record).2 keys ⟨1, 0, payload.length⟩
      payload := by
  obtain ⟨_, hprovision, hresult⟩ | ⟨-, hb, _, hbytes, hprovision⟩ :=
    provision_cases f keys payload record
  · rw [hprovision] at h
    exact absurd h hresult
  · rw [hprovision] at h ⊢
    simp only [write] at h ⊢
    cases hfate : f.fate with
    | complete => exact holds_first hb hbytes
    | lost | torn | unacknowledged => simp [hfate] at h

theorem Unprovisioned.open_error (h : Unprovisioned f keys) (slotA slotB out : Nat) :
    ∃ error, openRedundant f keys magic slotA slotB out = .error error := by
  obtain ⟨-, ha⟩ | ha := readRaw_cases f keys.a slotA
  · obtain ⟨-, hb⟩ | hb := readRaw_cases f keys.b slotB
    · have hnewest : Hal.newest (f.slot keys.a) (f.slot keys.b) = none := by
        rw [h.1, h.2]
        rfl
      simp only [slot] at hnewest
      simp only [openRedundant, ha, hb, bind, Except.bind, hnewest]
      exact ⟨_, rfl⟩
    · simp only [openRedundant, ha, hb]
      exact ⟨_, rfl⟩
  · simp only [openRedundant, ha]
    exact ⟨_, rfl⟩

end Flash

/-- A call on the record. Any handle may be passed to `update_redundant`, so a restart that
reopens the record, and one that keeps an outdated handle, are both covered. -/
inductive RedundantCall (E : Type) (magic : Magic) where
  | open (slotA slotB out : Nat)
  | update (current : RedundantValue) (payload : Bytes) (record : Nat) (fate : WriteFate E magic)

/-- The medium, with the last acknowledged payload and those whose write was tried after it. -/
structure RedundantRun (E : Type) (magic : Magic) where
  flash : Flash E magic
  acknowledged : Bytes
  attempted : List Bytes

namespace RedundantRun

variable {E : Type} {magic : Magic}

section

variable (keys : SlotKeys)

def step (r : RedundantRun E magic) : RedundantCall E magic → RedundantRun E magic
  | .open _ _ _ => r
  | .update current payload record fate =>
    let (result, flash) :=
      updateRedundant (r.flash.withFate fate) keys magic current payload record
    match result with
    | some (.ok _) => ⟨flash, payload, []⟩
    | some (.error (.storage _)) => { r with flash, attempted := payload :: r.attempted }
    | _ => { r with flash }

/-- Opening gives the last acknowledged payload or one attempted later, in buffers that are long
enough, and otherwise complains about the buffer only; outdated handles change nothing. -/
def Survives (r : RedundantRun E magic) : Prop :=
  ∃ value payload, (payload = r.acknowledged ∨ payload ∈ r.attempted) ∧
    (∀ slotA slotB out, r.flash.Fits keys.a slotA → r.flash.Fits keys.b slotB →
      payload.length ≤ out →
      openRedundant r.flash keys magic slotA slotB out = .ok (value, payload)) ∧
    (∀ slotA slotB out,
      openRedundant r.flash keys magic slotA slotB out = .ok (value, payload) ∨
      openRedundant r.flash keys magic slotA slotB out = .error .bufferTooSmall) ∧
    ∀ current new record fate, current.generation ≠ value.generation →
      ∃ error, updateRedundant (r.flash.withFate fate) keys magic current new record =
        (some (.error error), r.flash.withFate fate)

def Recorded (r : RedundantRun E magic) : Prop :=
  ∃ value payload, r.flash.Holds keys value payload ∧
    (payload = r.acknowledged ∨ payload ∈ r.attempted)

end

theorem Recorded.step (h : Recorded keys r) (call : RedundantCall E magic) :
    Recorded keys (r.step keys call) := by
  cases call with
  | «open» => exact h
  | update current new record fate =>
    obtain ⟨value, payload, hholds, hpayload⟩ := h
    obtain ⟨_, hupdate, hresult⟩ | ⟨-, _, ⟨hupdate, hnext⟩ | ⟨_, hupdate, hfate⟩⟩ :=
      (hholds.setFate fate).update_outcome current new record
    · have hkept : Recorded keys { r with flash := r.flash.withFate fate } :=
        ⟨value, payload, hholds.setFate fate, hpayload⟩
      simp only [RedundantRun.step, hupdate]
      obtain rfl | rfl | rfl | rfl := hresult <;> exact hkept
    · simp only [RedundantRun.step, hupdate]
      exact ⟨_, new, hnext, .inl rfl⟩
    · simp only [RedundantRun.step, hupdate]
      obtain hkept | ⟨-, hnext⟩ := hfate
      · exact ⟨value, payload, hkept, hpayload.imp_right (List.mem_cons_of_mem new)⟩
      · exact ⟨_, new, hnext, .inr List.mem_cons_self⟩

theorem Recorded.survives (h : Recorded keys (r : RedundantRun E magic)) : Survives keys r := by
  obtain ⟨value, payload, hholds, hpayload⟩ := h
  refine ⟨value, payload, hpayload, fun slotA slotB out ha hb hout => ?_,
    hholds.open_cases, fun current new record fate hne => ?_⟩
  · rw [hholds.open_of_fits ha hb, if_neg (Nat.not_lt.mpr hout)]
  · exact (hholds.setFate fate).update_stale new record hne

/-- From a provisioned record on, no sequence of calls and write faults loses the record. -/
theorem survives_torn_writes (keys : SlotKeys) (blank : Flash E magic) (payload : Bytes)
    (record : Nat) (h : (provisionRedundant blank keys magic payload record).1 = some (.ok ()))
    (calls : List (RedundantCall E magic)) :
    Survives keys
      (run (step keys) ⟨(provisionRedundant blank keys magic payload record).2, payload, []⟩
        calls) := by
  have hstart : Recorded keys
      ⟨(provisionRedundant blank keys magic payload record).2, payload, []⟩ :=
    ⟨_, payload, Flash.holds_of_provision h, .inl rfl⟩
  exact (run_invariant (fun _ call hr => hr.step call) hstart calls).survives

theorem survives_torn_writes_of_blank :
    let keys : SlotKeys := ⟨"a", "b", by decide⟩
    let magic : Magic := List.Vector.replicate 4 0
    let blank : Flash Unit magic := ⟨fun _ => none, .complete⟩
    (provisionRedundant blank keys magic [7] 25).1 = some (.ok ()) ∧
    Survives keys (run (step keys) ⟨(provisionRedundant blank keys magic [7] 25).2, [7], []⟩
      [.update ⟨1, 0, 1⟩ [8] 25 (.torn () ⟨[], rfl⟩), .open 25 25 1]) :=
  ⟨rfl, survives_torn_writes _ _ _ _ rfl _⟩

end RedundantRun

end Lichen.Hal
