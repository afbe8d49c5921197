import Lichen.Rpl.HighWater
import Lichen.Rpl.RootRun

namespace Lichen.Rpl

open Lichen.Lib Lichen.Core Lichen.Hal

def storedHighWater (f : Flash E daoRxMagic) : Option HighWaterMap :=
  match openRedundant f daoRxKeys daoRxMagic (highWaterPayloadLen + slotOverhead)
      (highWaterPayloadLen + slotOverhead) highWaterPayloadLen with
  | .ok (_, payload) => decodeHighWater payload
  | .error _ => none

/-- The receive record on the flash is `value`, and holds the entries of `map`. -/
structure Records (f : Flash E daoRxMagic) (value : RedundantValue) (map : HighWaterMap) :
    Prop where
  fits_a : f.Fits daoRxKeys.a (highWaterPayloadLen + slotOverhead)
  fits_b : f.Fits daoRxKeys.b (highWaterPayloadLen + slotOverhead)
  holds : ∃ payload stored, f.Holds daoRxKeys value payload ∧
    payload.length ≤ highWaterPayloadLen ∧ decodeHighWater payload = some stored ∧
    ∀ k, stored.get k = map.get k

section

variable {E : Type} {f : Flash E daoRxMagic} {value : RedundantValue} {map : HighWaterMap}
  {m proposed : DaoManager} {rx : DaoRxState} {verified : SignatureVerifiedDao} {failure : Option E}

section

variable (h : Records f value map)

include h

theorem Records.setFate (fate : WriteFate E daoRxMagic) : Records (f.withFate fate) value map := by
  obtain ⟨payload, stored, hholds, hrest⟩ := h.holds
  exact ⟨h.fits_a, h.fits_b, payload, stored, hholds.setFate fate, hrest⟩

theorem Records.open :
    ∃ payload stored, openRedundant f daoRxKeys daoRxMagic (highWaterPayloadLen + slotOverhead)
        (highWaterPayloadLen + slotOverhead) highWaterPayloadLen = .ok (value, payload) ∧
      decodeHighWater payload = some stored ∧ ∀ k, stored.get k = map.get k := by
  obtain ⟨payload, stored, hholds, hlen, hdecode, hget⟩ := h.holds
  refine ⟨payload, stored, ?_, hdecode, hget⟩
  rw [hholds.open_of_fits h.fits_a h.fits_b, if_neg (Nat.not_lt.mpr hlen)]

theorem Records.stored :
    ∃ stored, storedHighWater f = some stored ∧ ∀ k, stored.get k = map.get k := by
  obtain ⟨_, stored, hopen, hdecode, hget⟩ := h.open
  refine ⟨stored, ?_, hget⟩
  simp only [storedHighWater, hopen, hdecode]

theorem Records.openRoot_ok (hok : DaoManager.openRoot f scope = .ok (m, rx)) :
    rx.current = value ∧ ∀ k, m.originHighWater.get k = map.get k := by
  obtain ⟨_, _, hopen, hdecode, hget⟩ := h.open
  simp only [DaoManager.openRoot, hopen, hdecode] at hok
  split at hok
  · cases hok
  split at hok
  · cases hok
  cases hok
  exact ⟨rfl, hget⟩

theorem Records.provisionRoot (scope : DaoRxScope) :
    ∃ error, DaoManager.provisionRoot f scope = (some (.error error), f) := by
  obtain ⟨_, _, hopen, hdecode, -⟩ := h.open
  have hmissing : DaoManager.openRoot f scope ≠ .error .missing := by
    simp only [DaoManager.openRoot, hopen, hdecode]
    repeat' split
    all_goals simp
  simp only [DaoManager.provisionRoot]
  cases hroot : DaoManager.openRoot f scope with
  | ok => exact ⟨_, rfl⟩
  | error error =>
    cases error with
    | missing => exact absurd hroot hmissing
    | _ => exact ⟨_, rfl⟩

end

def Empty (f : Flash E daoRxMagic) : Prop :=
  f.cells daoRxKeys.a = none ∧ f.cells daoRxKeys.b = none

theorem Empty.fits (h : Empty f) (buf : Nat) : f.Fits daoRxKeys.a buf ∧ f.Fits daoRxKeys.b buf := by
  constructor
  · intro stored hstored
    rw [h.1] at hstored
    cases hstored
  · intro stored hstored
    rw [h.2] at hstored
    cases hstored

theorem Empty.openRoot (h : Empty f) (scope : DaoRxScope) :
    DaoManager.openRoot f scope = .error .missing := by
  obtain ⟨ha, hb⟩ := h.fits (highWaterPayloadLen + slotOverhead)
  simp [DaoManager.openRoot, openRedundant, Flash.readRaw_of_fits ha, Flash.readRaw_of_fits hb,
    h.1, h.2, bind, Except.bind, newest, mapOpenError]

theorem Empty.records (h : Empty f)
    (hencode : encodeHighWater scope HashMap.new highWaterHeaderLen = some payload)
    (hbytes : encodeSlot daoRxMagic 1 payload (highWaterHeaderLen + slotOverhead) = some bytes) :
    Records (f.program daoRxKeys.a bytes) ⟨1, 0, payload.length⟩ HashMap.new := by
  obtain ⟨ha, hb⟩ := h.fits (highWaterPayloadLen + slotOverhead)
  have hlen := (length_encodeSlot_le hbytes).trans (by decide :
    highWaterHeaderLen + slotOverhead ≤ highWaterPayloadLen + slotOverhead)
  obtain ⟨hpayload, -, stored, hdecode, hget⟩ := decodeHighWater_encode hencode (by simp [Storable])
  refine ⟨Flash.fits_program ha hlen _, Flash.fits_program hb hlen _, payload, stored,
    Flash.holds_first h.2 hbytes, ?_, hdecode, hget⟩
  rw [hpayload]
  decide

theorem Empty.provisionRoot (h : Empty f) (hfate : f.fate = writeFate failure)
    (scope : DaoRxScope) : ∃ result f', DaoManager.provisionRoot f scope = (result, f') ∧
      ((Empty f' ∧ ∀ root, result ≠ some (.ok root)) ∨ ∃ value, Records f' value HashMap.new) := by
  simp only [DaoManager.provisionRoot, h.openRoot scope]
  cases hencode : encodeHighWater scope HashMap.new highWaterHeaderLen with
  | none => exact ⟨_, f, rfl, .inl ⟨h, by simp⟩⟩
  | some payload =>
    obtain ⟨result, hprovision, hresult⟩ | ⟨-, -, _, hbytes, hprovision⟩ :=
      Flash.provision_cases f daoRxKeys payload (highWaterHeaderLen + slotOverhead)
    · simp only [hprovision]
      obtain _ | (_ | _) | ⟨⟨⟩⟩ := result
      · exact ⟨_, f, rfl, .inl ⟨h, by simp⟩⟩
      · exact ⟨_, f, rfl, .inl ⟨h, by simp⟩⟩
      · exact ⟨_, f, rfl, .inl ⟨h, by simp⟩⟩
      · exact absurd rfl hresult
    · simp only [hprovision, Flash.write]
      cases failure with
      | some =>
        simp only [hfate, writeFate, mapError_error]
        exact ⟨_, f, rfl, .inl ⟨h, by simp⟩⟩
      | none =>
        simp only [hfate, writeFate, mapError_ok]
        exact ⟨_, _, rfl, .inr ⟨_, h.records hencode hbytes⟩⟩

theorem Records.commitHighWater (m : DaoManager) (rx : DaoRxState) (h : Records f value map)
    (hfate : f.fate = writeFate failure)
    (hmap : ∀ k, proposed.originHighWater.get k = map.get k) (hstorable : Storable map)
    (hvalid : SignedDaoEnvelope.ValidSequence verified.envelope.origin.originSequence) :
    (∃ result, m.commitHighWater proposed verified rx f = (result, m, rx, f) ∧
      ∀ outcome, result ≠ some (.ok outcome)) ∨
    ∃ current f', m.commitHighWater proposed verified rx f =
        (some (.ok .applied), proposed.recordHighWater verified, ⟨current⟩, f') ∧
      Records f' current (proposed.recordHighWater verified).originHighWater ∧
      Storable (proposed.recordHighWater verified).originHighWater := by
  have hstorable' : Storable (proposed.recordHighWater verified).originHighWater := by
    intro k hash sequence hget
    obtain ⟨-, heq⟩ | ⟨-, hget⟩ := HashMap.get_of_get_insert hget
    · cases heq
      exact hvalid
    · exact hstorable k hash sequence (hmap k ▸ hget)
  have hclean : f.fate = .complete ∨ ∃ error, f.fate = .lost error := by
    rw [hfate]
    cases failure with
    | none => exact .inl rfl
    | some error => exact .inr ⟨error, rfl⟩
  simp only [DaoManager.commitHighWater]
  cases hencode : encodeHighWater m.scope (proposed.recordHighWater verified).originHighWater
      highWaterPayloadLen with
  | none => exact .inl ⟨_, rfl, by simp⟩
  | some payload =>
    obtain ⟨_, -, hholds, -⟩ := h.holds
    obtain ⟨_, hlen, hupdate, hholds'⟩ | ⟨result, hupdate, hresult⟩ :=
      hholds.update_clean hclean rx.current payload (highWaterPayloadLen + slotOverhead)
    · simp only [hupdate]
      obtain ⟨hpayload, hcount, stored, hdecode, hget⟩ := decodeHighWater_encode hencode hstorable'
      refine .inr ⟨_, _, rfl, ⟨Flash.fits_program h.fits_a hlen _, Flash.fits_program h.fits_b hlen _,
        payload, stored, hholds', ?_, hdecode, hget⟩, hstorable'⟩
      rw [hpayload]
      simp only [maxDaoOrigins, highWaterPayloadLen, highWaterHeaderLen, highWaterScopeLen,
        highWaterEntryLen] at hcount ⊢
      omega
    · simp only [hupdate]
      obtain _ | (error | next) := result
      · exact .inl ⟨_, rfl, by simp⟩
      · exact .inl ⟨_, rfl, by simp⟩
      · exact absurd rfl (hresult next)

theorem classifyReplay_false {hash : List.Vector UInt8 32}
    (h : m.classifyReplay (E := E) verified = .ok false)
    (hget : m.originHighWater.get verified.publicKey = some (hash, previous)) :
    previous < verified.envelope.origin.originSequence := by
  simp only [DaoManager.classifyReplay, hget] at h
  split at h
  · cases h
  simp only [Except.ok.injEq, decide_eq_false_iff_not] at h
  omega

end

/-- The applied sequences of each key increase up to its high-water mark. -/
structure Logged (applied : List (PublicKey × Nat)) (map : HighWaterMap) : Prop where
  marked : ∀ e ∈ applied, ∃ hash sequence, map.get e.1 = some (hash, sequence) ∧ e.2 ≤ sequence
  increasing : applied.Pairwise fun newer older => newer.1 = older.1 → older.2 < newer.2

theorem Logged.cons {sequence : Nat} (h : Logged applied map) (hash : List.Vector UInt8 32)
    (hnewer : ∀ hash previous, map.get key = some (hash, previous) → previous < sequence)
    (hget : ∀ k, map'.get k = if k = key then some (hash, sequence) else map.get k) :
    Logged ((key, sequence) :: applied) map' := by
  constructor
  · rintro e (_ | ⟨_, he⟩)
    · exact ⟨hash, sequence, by rw [hget, if_pos rfl], le_rfl⟩
    · obtain ⟨hash', previous, hprevious, hle⟩ := h.marked e he
      by_cases hkey : e.1 = key
      · rw [hkey] at hprevious
        exact ⟨hash, sequence, by rw [hget, if_pos hkey],
          hle.trans (hnewer hash' previous hprevious).le⟩
      · exact ⟨hash', previous, by rw [hget, if_neg hkey, hprevious], hle⟩
  · refine List.pairwise_cons.mpr ⟨fun e he heq => ?_, h.increasing⟩
    obtain ⟨hash', previous, hprevious, hle⟩ := h.marked e he
    have hkey : key = e.1 := heq
    exact lt_of_le_of_lt hle (hnewer hash' previous (by rw [hkey, hprevious]))

namespace RootNode

variable {E : Type} {crypto : Crypto} {n : RootNode E}

/-- The flash of a node holds the map that accounts for what was applied, and a running root has
the same map in memory. -/
structure Durable (n : RootNode E) (value : RedundantValue) (map : HighWaterMap) : Prop where
  records : Records n.flash value map
  storable : Storable map
  logged : Logged n.applied map
  memory : ∀ m rx, n.root = some (m, rx) → ∀ k, m.originHighWater.get k = map.get k

def Fresh (n : RootNode E) : Prop :=
  (Empty n.flash ∧ n.root = none ∧ n.applied = []) ∨ ∃ value map, Durable n value map

theorem Fresh.durable (h : Fresh n)
    (hroot : n.root = some (m, rx)) : ∃ value map, Durable n value map := by
  obtain ⟨-, hnone, -⟩ | hdurable := h
  · rw [hroot] at hnone
    cases hnone
  · exact hdurable

variable {value : RedundantValue} {map : HighWaterMap} {m : DaoManager} {rx : DaoRxState}

/-- How the processing of a DAO ends on a durable node: nothing changes, the routes of a repeated
DAO are restored, or its mark is stored and taken over. -/
theorem Durable.process_cases (h : Durable n value map) (hroot : n.root = some (m, rx))
    (hverified : a.verify crypto = .ok verified) (failure : Option E) :
    ((process n.flash (m, rx) verified a failure).2 =
        (m, rx, n.flash.withFate (writeFate failure)) ∧
      (process n.flash (m, rx) verified a failure).1 ≠ some (.ok .applied)) ∨
    (∃ proposed, process n.flash (m, rx) verified a failure =
        (some (.ok .duplicate), proposed, rx, n.flash.withFate (writeFate failure)) ∧
      proposed.originHighWater = m.originHighWater) ∨
    ∃ m' current f', process n.flash (m, rx) verified a failure =
        (some (.ok .applied), m', ⟨current⟩, f') ∧ m.classifyReplay (E := E) verified = .ok false ∧
      m'.originHighWater = m.originHighWater.insert verified.publicKey
        (verified.signedDaoSha256, verified.envelope.origin.originSequence) ∧
      Records f' current m'.originHighWater ∧ Storable m'.originHighWater := by
  have hcases := processCases_process n.flash m rx verified a failure
  generalize process n.flash (m, rx) verified a failure = result at hcases ⊢
  cases hcases with
  | rejected | known => exact .inl ⟨rfl, by simp⟩
  | restored => exact .inr (.inl ⟨_, rfl, rfl⟩)
  | @fresh s originSequences routes _ hreplay =>
    have hmemory : ∀ k, (m.withProposal s originSequences routes).originHighWater.get k =
      map.get k := h.memory m rx hroot
    have hvalid : SignedDaoEnvelope.ValidSequence verified.envelope.origin.originSequence :=
      SignedDaoEnvelope.fromBytes_valid (verifySignature_ok hverified).1
    obtain ⟨result, hcommit, hresult⟩ | ⟨current, f', hcommit, hrecords, hstorable⟩ :=
      Records.commitHighWater m rx (h.records.setFate (writeFate failure)) rfl
        hmemory h.storable hvalid
    · rw [hcommit]
      exact .inl ⟨rfl, hresult _⟩
    · rw [hcommit]
      exact .inr (.inr ⟨_, current, f', rfl, hreplay, rfl, hrecords, hstorable⟩)

theorem process_of_other_hash {hash : List.Vector UInt8 32} (f : Flash E daoRxMagic)
    (rx : DaoRxState) (a : DaoArrival) (failure : Option E)
    (hget : m.originHighWater.get verified.publicKey =
      some (hash, verified.envelope.origin.originSequence))
    (hne : hash ≠ verified.signedDaoSha256) :
    ∃ error, (process f (m, rx) verified a failure).1 = some (.error error) := by
  have hreplay : m.classifyReplay (E := E) verified = .error .replay := by
    simp [DaoManager.classifyReplay, hget, hne]
  simp only [process, DaoManager.processSignatureVerifiedInner, hreplay]
  split <;> exact ⟨_, rfl⟩

theorem Durable.settle (h : Durable n value map) (hroot : n.root = some (m, rx))
    (hverified : a.verify crypto = .ok verified) (failure : Option E) :
    Fresh (n.settle m verified nowSeconds (process n.flash (m, rx) verified a failure)) := by
  have hmemory := h.memory m rx hroot
  have hrecords := h.records.setFate (writeFate failure)
  obtain ⟨hrest, hne⟩ | ⟨_, hresult, hsame⟩ | ⟨m', current, _, hresult, hreplay, hmark,
    hrecords', hstorable⟩ := h.process_cases hroot hverified failure
  · generalize process n.flash (m, rx) verified a failure = result at hrest hne
    obtain ⟨outcome, rest⟩ := result
    obtain rfl : rest = _ := hrest
    refine .inr ⟨value, map, ?_⟩
    obtain _ | (_ | (_ | _)) := outcome
    · exact ⟨hrecords, h.storable, h.logged, by rintro _ _ ⟨⟩⟩
    · exact ⟨hrecords, h.storable, h.logged, by rintro _ _ ⟨⟩; exact hmemory⟩
    · exact absurd rfl hne
    · exact ⟨hrecords, h.storable, h.logged, by rintro _ _ ⟨⟩; exact hmemory⟩
  · rw [hresult]
    refine .inr ⟨value, map, hrecords, h.storable, h.logged, ?_⟩
    rintro _ _ ⟨⟩
    rw [hsame]
    exact hmemory
  · rw [hresult]
    refine .inr ⟨current, m'.originHighWater, hrecords', hstorable, ?_, by rintro _ _ ⟨⟩; simp⟩
    refine h.logged.cons verified.signedDaoSha256 (fun hash previous hget => ?_) fun k => ?_
    · exact classifyReplay_false hreplay (hmemory _ ▸ hget)
    · rw [hmark, HashMap.get_insert, hmemory]

theorem Durable.withRoot (h : Durable n value map) (root : Option (DaoManager × DaoRxState))
    (processedAt : Nat)
    (hroot : ∀ m rx, root = some (m, rx) → ∀ k, m.originHighWater.get k = map.get k) :
    Fresh { n with root, processedAt } :=
  .inr ⟨value, map, h.records, h.storable, h.logged, hroot⟩

theorem fresh_provisionRoot (h : Fresh n) (scope : DaoRxScope) (failure : Option E) :
    Fresh (n.step crypto (.provisionRoot scope failure)) := by
  simp only [step]
  obtain ⟨hempty, hroot, happlied⟩ | ⟨value, map, hdurable⟩ := h
  · obtain ⟨result, _, hprovision, hcases⟩ :=
      Empty.provisionRoot (f := n.flash.withFate (writeFate failure)) hempty rfl scope
    simp only [hprovision]
    obtain ⟨hempty', hne⟩ | ⟨value, hrecords⟩ := hcases
    · obtain _ | (error | root) := result
      · exact .inl ⟨hempty', rfl, happlied⟩
      · exact .inl ⟨hempty', hroot, happlied⟩
      · exact absurd rfl (hne root)
    · have hlogged : Logged n.applied HashMap.new := by
        rw [happlied]
        exact ⟨by simp, List.Pairwise.nil⟩
      refine .inr ⟨value, HashMap.new, ?_⟩
      obtain _ | (error | root) := result
      · exact ⟨hrecords, by simp [Storable], hlogged, by rintro _ _ ⟨⟩⟩
      · exact ⟨hrecords, by simp [Storable], hlogged, by simp [hroot]⟩
      · refine ⟨hrecords, by simp [Storable], hlogged, ?_⟩
        rintro _ _ ⟨⟩
        exact (hrecords.openRoot_ok (DaoManager.provisionRoot_ok hprovision)).2
  · obtain ⟨error, hprovision⟩ := (hdurable.records.setFate (writeFate failure)).provisionRoot scope
    simp only [hprovision]
    exact .inr ⟨value, map, hdurable.records.setFate _, hdurable.storable, hdurable.logged,
      hdurable.memory⟩

theorem fresh_openRoot (h : Fresh n) (scope : DaoRxScope) :
    Fresh (n.step crypto (.openRoot scope)) := by
  simp only [step]
  obtain ⟨hempty, hroot, happlied⟩ | ⟨_, _, hdurable⟩ := h
  · rw [hempty.openRoot scope]
    exact .inl ⟨hempty, rfl, happlied⟩
  · refine hdurable.withRoot _ _ fun m rx hroot => ?_
    cases hopen : DaoManager.openRoot n.flash scope with
    | error => simp [hopen, Except.toOption] at hroot
    | ok =>
      simp only [hopen, Except.toOption] at hroot
      cases hroot
      exact (hdurable.records.openRoot_ok hopen).2

theorem fresh_step (n : RootNode E) (call : RootCall E) (h : Fresh n) :
    Fresh (n.step crypto call) := by
  cases call with
  | provisionRoot scope failure => exact fresh_provisionRoot h scope failure
  | openRoot scope => exact fresh_openRoot h scope
  | delegatePrefix publicKey address prefixLen =>
    simp only [step]
    split
    · exact h
    · rename_i m rx hroot
      obtain ⟨value, map, hdurable⟩ := h.durable hroot
      refine hdurable.withRoot _ _ ?_
      rintro _ _ ⟨⟩
      rw [DaoManager.delegatePrefix]
      cases m.prefixDelegations.delegate publicKey address prefixLen with
      | error | ok => exact hdurable.memory m rx hroot
  | dao a failure =>
    simp only [step]
    split
    · rename_i root verified hroot hverified
      obtain ⟨value, map, hdurable⟩ := h.durable hroot
      exact hdurable.settle hroot hverified failure
    · exact h
  | expireRoutes order nowSeconds =>
    simp only [step]
    split
    · exact h
    · rename_i m rx hroot
      obtain ⟨value, map, hdurable⟩ := h.durable hroot
      refine hdurable.withRoot _ _ ?_
      rintro _ _ ⟨⟩
      have hsame : (m.expireRoutes order nowSeconds).2.originHighWater = m.originHighWater := by
        simp only [DaoManager.expireRoutes]
        split <;> rfl
      rw [hsame]
      exact hdurable.memory m rx hroot

theorem fresh_run (calls : List (RootCall E)) : Fresh (run (step crypto) (blank E) calls) :=
  run_invariant fresh_step (.inl ⟨⟨rfl, rfl⟩, rfl, rfl⟩) calls

/-- Applied origin sequences increase for every key, over failed updates and restarts. A DAO that
repeats the high-water sequence is a duplicate only with the same hash and is rejected otherwise,
an error changes neither the manager nor the stored map, and an applied DAO leaves both maps
equal. -/
theorem origin_freshness_durable (crypto : Crypto) (calls : List (RootCall E)) :
    let n := run (step crypto) (blank E) calls
    (n.applied.Pairwise fun newer older => newer.1 = older.1 → older.2 < newer.2) ∧
    ∀ m rx, n.root = some (m, rx) → ∀ a verified, a.verify crypto = .ok verified → ∀ failure,
      let outcome := process n.flash (m, rx) verified a failure
      (∀ hash, m.originHighWater.get verified.publicKey =
          some (hash, verified.envelope.origin.originSequence) →
        (outcome.1 = some (.ok .duplicate) → hash = verified.signedDaoSha256) ∧
        (hash ≠ verified.signedDaoSha256 → ∃ error, outcome.1 = some (.error error))) ∧
      (∀ error, outcome.1 = some (.error error) →
        outcome.2.1 = m ∧ storedHighWater outcome.2.2.2 = storedHighWater n.flash) ∧
      (outcome.1 = some (.ok .applied) → ∃ stored,
        storedHighWater outcome.2.2.2 = some stored ∧
          ∀ k, stored.get k = outcome.2.1.originHighWater.get k) := by
  have hfresh : Fresh (run (step crypto) (blank E) calls) := fresh_run calls
  constructor
  · obtain ⟨-, -, happlied⟩ | ⟨value, map, hdurable⟩ := hfresh
    · rw [happlied]
      exact List.Pairwise.nil
    · exact hdurable.logged.increasing
  · intro m rx hroot a verified hverified failure
    obtain ⟨value, map, hdurable⟩ := hfresh.durable hroot
    refine ⟨fun hash hget => ?_, ?_⟩
    · by_cases hhash : hash = verified.signedDaoSha256
      · exact ⟨fun _ => hhash, fun hne => absurd hhash hne⟩
      · obtain ⟨error, herror⟩ := process_of_other_hash _ rx a failure hget hhash
        refine ⟨fun hduplicate => ?_, fun _ => ⟨error, herror⟩⟩
        rw [herror] at hduplicate
        cases hduplicate
    · obtain ⟨hrest, hne⟩ | ⟨_, hresult, -⟩ | ⟨_, _, _, hresult, -, -, hrecords, -⟩ :=
        hdurable.process_cases hroot hverified failure
      · refine ⟨fun error _ => ?_, fun happlied => absurd happlied hne⟩
        rw [hrest]
        exact ⟨rfl, rfl⟩
      · simp only [hresult]
        exact ⟨by simp, by simp⟩
      · simp only [hresult]
        exact ⟨by simp, fun _ => hrecords.stored⟩

end RootNode

end Lichen.Rpl
