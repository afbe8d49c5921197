import Lichen.Client.DeadDropPrivacy
import Lichen.Client.SenmlRoundTrip

namespace Lichen.Client.DeadDropStore

open Lichen.Lib

variable {F : Type} [F64 F] {ciborium : Ciborium F}

theorem makes_of_run (h : returned ciborium store call = some dropId) (later : List (Call F))
    (hlater : Steps (fun store call => returned ciborium store call ≠ some dropId) (step ciborium)
      (step ciborium store call) later) :
    ∀ drop ∈ (run (step ciborium) store (call :: later)).drops, drop.id = dropId →
      call.Makes ciborium drop := by
  rw [run_cons]
  refine run_invariant_of_steps (I := fun store : DeadDropStore F => ∀ drop ∈ store.drops,
    drop.id = dropId → call.Makes ciborium drop) ?_ ?_ later hlater
  · intro store later hmade hother drop hdrop hid
    obtain ⟨hreturned, -⟩ | ⟨-, hold⟩ := stores_step ciborium store later drop hdrop
    · exact absurd (hid ▸ hreturned) hother
    · exact hmade drop hold hid
  · intro drop hdrop hid
    obtain ⟨-, hmade⟩ | ⟨hother, -⟩ := stores_step ciborium store call drop hdrop
    · exact hmade
    · exact absurd (hid ▸ h) hother

/-- A pack comes back from the encoder, and from the store under the id that it was posted with
while no other call gives the id again, exactly if it has no truth value. -/
theorem decode_of_read_iff (hciborium : ciborium.Correct) :
    (∀ records : List (SenmlRecord F), records.length < 2 ^ 32 →
      (∀ record ∈ records, record.Plain) → ∃ bytes, encodeSenmlPack records = .ok bytes ∧
        (decodeSenmlPack ciborium bytes = .ok records ↔
          ∀ record ∈ records, record.boolValue = none)) ∧
    ∀ (store : DeadDropStore F) request dropId path age,
      (execute (post ciborium request) store).1 = .ok (.created dropId path age) →
      ∀ (later : List (Call F)) viewer payload contentFormat maxAge,
        Steps (fun store call => returned ciborium store call ≠ some dropId) (step ciborium)
          (step ciborium store (.post request)) later →
        (execute (getById dropId viewer) (run (step ciborium) store (.post request :: later))).1 =
          .ok (.content payload contentFormat maxAge) →
        ∃ records, decodeSenmlPack ciborium request.body = .ok records ∧
          encodeSenmlPack records = .ok payload ∧
          (records.length < 2 ^ 32 → (∀ record ∈ records, record.Plain) →
            (decodeSenmlPack ciborium payload = .ok records ↔
              ∀ record ∈ records, record.boolValue = none)) := by
  constructor
  · intro records hlength hplain
    exact decodeSenmlPack_encodeSenmlPack hciborium hlength hplain
  intro store request dropId path age hpost later viewer payload contentFormat maxAge hlater hread
  have hreturned : returned ciborium store (.post request) = some dropId := by
    rw [returned, hpost]
    rfl
  obtain ⟨drop, hdrop, hid, -, hpayload⟩ := ensures_iff_execute.mp
    (ensures_getById (run (step ciborium) store (.post request :: later)) dropId viewer) _ _ _ hread
  obtain ⟨-, hrecords, -⟩ := makes_of_run hreturned later hlater drop hdrop hid
  refine ⟨drop.records, hrecords, hpayload, fun hlength hplain => ?_⟩
  obtain ⟨bytes, hencode, hdecode⟩ := decodeSenmlPack_encodeSenmlPack hciborium hlength hplain
  cases hencode.symm.trans hpayload
  exact hdecode

def postStore : DeadDropStore Int :=
  ⟨8192, fun _ => 1000, fun _ => some ⟨[0x7f, 0x3a, 0x9c], rfl⟩, [], .new, 0, 0, 0, 0⟩

def textBody : Bytes :=
  [0x81, 0xA2, 0x00, 0x67] ++ "message".toUTF8.toList ++ [0x03, 0x62] ++ "hi".toUTF8.toList

theorem decode_of_read_of_text :
    (execute (getById "7f3a9c" (some "bob")) (run (step grammarReader) postStore
        [.post ⟨textBody, some "alice"⟩, .post ⟨[0x81, 0xA1, 0x04, 0xF5], some "bob"⟩])).1 =
      .ok (.content textBody 112 (some defaultTtl)) ∧
    decodeSenmlPack grammarReader textBody = .ok [(.text "message" "hi" : SenmlRecord Int)] := by
  have hpost : (execute (post grammarReader ⟨textBody, some "alice"⟩) postStore).1 =
      .ok (.created "7f3a9c" "/deaddrop/7f3a9c" defaultTtl) := by decide +kernel
  have hread : (execute (getById "7f3a9c" (some "bob")) (run (step grammarReader) postStore
        [.post ⟨textBody, some "alice"⟩, .post ⟨[0x81, 0xA1, 0x04, 0xF5], some "bob"⟩])).1 =
      .ok (.content textBody 112 (some defaultTtl)) := by decide +kernel
  have hbody : decodeSenmlPack grammarReader textBody =
      .ok [(.text "message" "hi" : SenmlRecord Int)] := by decide +kernel
  obtain ⟨records, hrecords, -, hdecode⟩ := (decode_of_read_iff grammarReader_correct).2
    postStore ⟨textBody, some "alice"⟩ _ _ _ hpost _ _ _ _ _ (by decide +kernel) hread
  cases hbody.symm.trans hrecords
  refine ⟨hread, (hdecode (by decide) fun record hrecord => ?_).mpr (by decide)⟩
  cases List.mem_singleton.mp hrecord
  refine ⟨rfl, rfl, rfl, rfl, rfl, rfl, rfl, by decide, nofun, ?_, nofun⟩
  rintro s (h | h | h | h | h) <;> cases h <;> decide

/-- The truth value of a drop is read back as a number, which the decoder refuses. -/
theorem decode_of_posted_bool :
    (execute (post grammarReader ⟨[0x81, 0xA1, 0x04, 0xF5], some "alice"⟩) postStore).1 =
      .ok (.created "7f3a9c" "/deaddrop/7f3a9c" defaultTtl) ∧
    decodeSenmlPack grammarReader [0x81, 0xA1, 0x04, 0xF5] =
      .ok [{ boolValue := some true : SenmlRecord Int }] ∧
    (execute (getById "7f3a9c" none) (run (step grammarReader) postStore
        [.post ⟨[0x81, 0xA1, 0x04, 0xF5], some "alice"⟩])).1 =
      .ok (.content [0x81, 0xA1, 0x04, 0x01] 112 (some defaultTtl)) ∧
    decodeSenmlPack (grammarReader : Ciborium Int) [0x81, 0xA1, 0x04, 0x01] =
      .error (.decode "vb must be a boolean") := by
  exact ⟨by rfl, by decide +kernel, by decide +kernel, by decide +kernel⟩

end Lichen.Client.DeadDropStore
