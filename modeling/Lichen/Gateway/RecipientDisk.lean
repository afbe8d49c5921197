import Lichen.Gateway.RecipientWindow

namespace Lichen.Gateway

open Lichen.Lib Lichen.Hal Lichen.Core RecipientReplayState

/-- The states that the two directories of a store hold for each context. -/
structure RecipientView where
  get : Bool → ContextId → Option RecipientReplayState

namespace RecipientView

def put (view : RecipientView) (floor : Bool) (contextId : ContextId)
    (state : RecipientReplayState) : RecipientView :=
  ⟨Function.update view.get floor (Function.update (view.get floor) contextId (some state))⟩

variable {view : RecipientView} {contextId other : ContextId} {state : RecipientReplayState}
  {floor floor' : Bool} {sequence : UInt64}

@[simp] theorem get_put_self : (view.put floor contextId state).get floor contextId = some state := by
  simp [put]

theorem get_put_of_ne (h : floor' ≠ floor) :
    (view.put floor contextId state).get floor' other = view.get floor' other := by
  simp [put, h]

theorem get_put_other (h : other ≠ contextId) :
    (view.put floor contextId state).get floor' other = view.get floor' other := by
  by_cases hfloor : floor' = floor
  · subst hfloor
    simp [put, h]
  · exact get_put_of_ne hfloor

def settled (view : RecipientView) (contextId : ContextId) : RecipientReplayState :=
  (view.get true contextId).getD .empty

/-- The state record is the floor record, or one sequence ahead of it. -/
structure Valid (view : RecipientView) (contextId : ContextId) : Prop where
  tracks : ∃ S, (view.settled contextId).Tracks S
  initialized : ∀ floor, view.get true contextId = some floor → floor.initialized = true
  state : view.get false contextId = view.get true contextId ∨
    ∃ sequence, (view.settled contextId).isReplay sequence = false ∧
      view.get false contextId = some ((view.settled contextId).next sequence)

def Advances (view view' : RecipientView) : Prop :=
  ∀ contextId sequence, (view.settled contextId).isReplay sequence = true →
    (view'.settled contextId).isReplay sequence = true

def InStep (view : RecipientView) : Prop :=
  ∀ contextId, view.get false contextId = view.get true contextId

theorem Advances.rfl : view.Advances view := fun _ _ h => h

theorem Advances.trans (h : view.Advances view')
    (h' : view'.Advances view'') : view.Advances view'' :=
  fun contextId sequence hreplay => h' contextId sequence (h contextId sequence hreplay)

theorem Advances.isReplay_eq_false (h : view.Advances view')
    (hnew : (view'.settled contextId).isReplay sequence = false) :
    (view.settled contextId).isReplay sequence = false := by
  rw [Bool.eq_false_iff] at hnew ⊢
  exact fun hreplay => hnew (h contextId sequence hreplay)

@[simp] theorem settled_put_state :
    (view.put false contextId state).settled other = view.settled other := by
  rw [settled, get_put_of_ne Bool.false_ne_true.symm, settled]

@[simp] theorem settled_put_floor_self : (view.put true contextId state).settled contextId = state := by
  rw [settled, get_put_self, Option.getD_some]

theorem settled_put_floor_other (h : other ≠ contextId) :
    (view.put true contextId state).settled other = view.settled other := by
  rw [settled, get_put_other h, settled]

theorem Valid.of_eq {view' : RecipientView} (h : view.Valid contextId)
    (heq : ∀ floor, view'.get floor contextId = view.get floor contextId) :
    view'.Valid contextId := by
  obtain ⟨htracks, hinit, hstate⟩ := h
  have hsettled : view'.settled contextId = view.settled contextId := by
    rw [settled, heq, settled]
  exact ⟨hsettled ▸ htracks, heq true ▸ hinit, by rw [heq, heq, hsettled]; exact hstate⟩

theorem valid_put_floor (h : ∀ contextId, view.Valid contextId)
    (hstate : view.get false contextId = some state) :
    (∀ other, (view.put true contextId state).Valid other) ∧
      view.Advances (view.put true contextId state) := by
  have hsame : (view.put true contextId state).get false contextId = some state := by
    rw [get_put_of_ne Bool.false_ne_true, hstate]
  have hnew : (∃ S, state.Tracks S) ∧ state.initialized = true ∧
      ∀ sequence, (view.settled contextId).isReplay sequence = true →
        state.isReplay sequence = true := by
    obtain ⟨⟨S, htracks⟩, hinit, heq | ⟨sequence, hfresh, hnext⟩⟩ := h contextId
    · have hsettled : view.settled contextId = state := by
        rw [settled, ← heq, hstate, Option.getD_some]
      exact ⟨⟨S, hsettled ▸ htracks⟩, hinit state (heq ▸ hstate), fun _ => hsettled ▸ id⟩
    · cases hnext.symm.trans hstate
      exact ⟨⟨_, htracks.next hfresh⟩, initialized_next _,
        fun _ => isReplay_next_of_isReplay htracks hfresh⟩
  obtain ⟨htracks, hinit, hreplay⟩ := hnew
  constructor
  · intro other
    by_cases hother : other = contextId
    · subst hother
      refine ⟨by rwa [settled_put_floor_self], fun floor hfloor => ?_, .inl ?_⟩
      · rw [get_put_self, Option.some.injEq] at hfloor
        exact hfloor ▸ hinit
      · rw [hsame, get_put_self]
    · exact (h other).of_eq fun _ => get_put_other hother
  · intro other sequence hold
    by_cases hother : other = contextId
    · subst hother
      rw [settled_put_floor_self]
      exact hreplay sequence hold
    · rwa [settled_put_floor_other hother]

theorem valid_put_state (h : ∀ contextId, view.Valid contextId)
    (hfresh : (view.settled contextId).isReplay sequence = false) (other : ContextId) :
    (view.put false contextId ((view.settled contextId).next sequence)).Valid other := by
  by_cases hother : other = contextId
  · subst hother
    refine ⟨by rw [settled_put_state]; exact (h other).tracks, ?_, .inr ⟨sequence, ?_, ?_⟩⟩
    · rw [get_put_of_ne Bool.false_ne_true.symm]
      exact (h other).initialized
    · rwa [settled_put_state]
    · rw [get_put_self, settled_put_state]
  · exact (h other).of_eq fun _ => get_put_other hother

end RecipientView

namespace GatewayOscoreRecipientStore

variable {schnorr : Schnorr48} {seed : Seed} {store : GatewayOscoreRecipientStore}
  {view : RecipientView} {contextId other : ContextId} {state : RecipientReplayState} {floor : Bool}
  {storage : FileStorage}

def sealRecord (schnorr : Schnorr48) (seed : Seed) (floor : Bool) (contextId : ContextId)
    (state : RecipientReplayState) : Bytes :=
  state.encoded ++ (schnorr.sign (schnorr.deriveKeypair seed).1 (schnorr.deriveKeypair seed).2
    (recipientDomain floor ++ beBytes 2 contextId.asBytes.length ++ contextId.asBytes ++
      state.encoded)).toList

theorem length_sealRecord :
    (sealRecord schnorr seed floor contextId state).length = 13 + signatureLen := by
  rw [sealRecord, List.length_append, length_encoded, List.Vector.toList_length]

theorem transcript_eq :
    transcript domain contextId bytes =
      .ok (domain ++ beBytes 2 contextId.asBytes.length ++ contextId.asBytes ++ bytes) :=
  if_pos contextId.length_lt

theorem key_inj (h : key contextId floor = key other floor) : contextId = other := by
  rw [key, key] at h
  have hlist := congrArg String.toList h
  rw [String.toList_append, String.toList_append, String.toList_append,
    String.toList_append] at hlist
  have hhex := List.append_cancel_left (List.append_cancel_right hlist)
  have hbytes := hexEncode_inj (String.toList_injective hhex)
  cases contextId
  cases other
  cases hbytes
  rfl

/-- The directories hold the sealed records of a valid view, and nothing else for any context. -/
structure OnDisk (schnorr : Schnorr48) (seed : Seed) (store : GatewayOscoreRecipientStore)
    (view : RecipientView) : Prop where
  sealingSeed : store.sealingSeed = some seed
  directory : ∀ floor, ∃ storage, store.directory floor = some storage ∧
    ∀ contextId, storage.files (key contextId floor) =
      (view.get floor contextId).map (sealRecord schnorr seed floor contextId)
  valid : ∀ contextId, view.Valid contextId

def Sound (store : GatewayOscoreRecipientStore) : Prop :=
  ∀ floor storage, store.directory floor = some storage → storage.Sound

theorem directory_withDirectory :
    (store.withDirectory floor storage).directory floor' =
      if floor' = floor then some storage else store.directory floor' := by
  cases floor <;> cases floor' <;> rfl

theorem records_withDirectory : (store.withDirectory floor storage).records = store.records := by
  cases floor <;> rfl

theorem sealingSeed_withDirectory :
    (store.withDirectory floor storage).sealingSeed = store.sealingSeed := by
  cases floor <;> rfl

section

variable (h : OnDisk schnorr seed store view)

include h

theorem OnDisk.isSome_storage : store.storage.isSome = true := by
  obtain ⟨storage, hstorage, -⟩ := h.directory false
  exact Option.isSome_iff_exists.mpr ⟨storage, hstorage⟩

theorem OnDisk.of_eq (hseed : store'.sealingSeed = store.sealingSeed)
    (hdirectory : ∀ floor, store'.directory floor = store.directory floor) :
    OnDisk schnorr seed store' view :=
  ⟨hseed.trans h.sealingSeed, fun floor => hdirectory floor ▸ h.directory floor, h.valid⟩

theorem OnDisk.rename (hstorage : store.directory floor = some storage)
    (hput : ∀ other, (view.put floor contextId state).Valid other) :
    OnDisk schnorr seed (store.withDirectory floor (storage.rename (key contextId floor)
      (sealRecord schnorr seed floor contextId state))) (view.put floor contextId state) := by
  refine ⟨sealingSeed_withDirectory.trans h.sealingSeed, fun floor' => ?_, hput⟩
  rw [directory_withDirectory]
  split_ifs with hfloor
  · subst hfloor
    refine ⟨_, rfl, fun other => ?_⟩
    obtain ⟨old, hold, hfiles⟩ := h.directory floor'
    cases hold.symm.trans hstorage
    rw [FileStorage.files_rename]
    by_cases hother : other = contextId
    · rw [hother, RecipientView.get_put_self, Function.update_self, Option.map_some]
    · rw [RecipientView.get_put_other hother, ← hfiles other,
        Function.update_of_ne fun heq => hother (key_inj heq)]
  · obtain ⟨old, hold, hfiles⟩ := h.directory floor'
    refine ⟨old, hold, fun other => ?_⟩
    rw [RecipientView.get_put_of_ne hfloor, hfiles]

theorem OnDisk.withFates (hstorage : store.directory floor = some storage) :
    OnDisk schnorr seed (store.withDirectory floor (storage.withFates fates)) view := by
  refine ⟨sealingSeed_withDirectory.trans h.sealingSeed, fun floor' => ?_, h.valid⟩
  rw [directory_withDirectory]
  split_ifs with hfloor
  · subst hfloor
    obtain ⟨_, hold, hfiles⟩ := h.directory floor'
    cases hold.symm.trans hstorage
    exact ⟨_, rfl, hfiles⟩
  · exact h.directory floor'

end

theorem Sound.withDirectory (h : store.Sound)
    (hstorage : storage'.Sound) : (store.withDirectory floor storage').Sound := by
  intro floor' storage hdirectory
  rw [directory_withDirectory] at hdirectory
  split_ifs at hdirectory
  · cases hdirectory
    exact hstorage
  · exact h floor' storage hdirectory

theorem ensures_read (h : OnDisk schnorr seed store view) :
    Ensures (read schnorr contextId floor) store fun result store' =>
      result = .ok (view.get floor contextId) ∧ store' = store := by
  obtain ⟨_, hstorage, hfiles⟩ := h.directory floor
  rw [read, ensures_bind, ensures_get]
  dsimp only
  rw [hstorage]
  simp only [NonVolatile.read, FileStorage.read, hfiles]
  cases hstate : view.get floor contextId with
  | none => exact ensures_pure.mpr ⟨rfl, rfl⟩
  | some state =>
    have hlength := @length_sealRecord schnorr seed contextId state floor
    have hguard : ¬(min (sealRecord schnorr seed floor contextId state).length
        (13 + signatureLen + 1) ≠ 13 + signatureLen ∨
          1 < ((sealRecord schnorr seed floor contextId state).take
            (13 + signatureLen)).getD 12 0) := by
      rw [hlength, List.take_of_length_le hlength.le, sealRecord, getD_encoded]
      split_ifs <;> decide
    simp only [Option.map_some, h.sealingSeed]
    rw [ensures_bind, ensures_check]
    refine ⟨fun hbad => absurd hbad hguard, fun _ => ?_⟩
    rw [List.take_of_length_le hlength.le, sealRecord, List.take_left' length_encoded,
      List.drop_left' length_encoded, toArray_toList]
    rw [ensures_bind, transcript_eq, ensures_ofExcept]
    dsimp only
    rw [ensures_bind, ensures_check, schnorr.verify_sign]
    refine ⟨nofun, fun _ => ensures_pure.mpr ⟨?_, rfl⟩⟩
    rw [decoded_encoded]

theorem ensures_write_bind {k : Unit → EStateM _ _ α} (h : OnDisk schnorr seed store view)
    (hput : ∀ other, (view.put floor contextId state).Valid other)
    (hio : ∀ store', store'.records = store.records → ¬store.Sound →
      OnDisk schnorr seed store' view → R (.error (.error .io)) store')
    (hcrash : ∀ store', store'.records = store.records → ¬store.Sound →
      OnDisk schnorr seed store' view ∨
        OnDisk schnorr seed store' (view.put floor contextId state) → R (.error .crash) store')
    (hok : ∀ store', store'.records = store.records →
      OnDisk schnorr seed store' (view.put floor contextId state) →
      (store.Sound → store'.Sound) → Ensures (k ()) store' R) :
    Ensures (write schnorr contextId floor state >>= k) store R := by
  obtain ⟨storage, hstorage, -⟩ := h.directory floor
  rw [ensures_bind, write, ensures_bind, ensures_get]
  simp only [h.sealingSeed, hstorage]
  rw [ensures_bind, transcript_eq, ensures_ofExcept]
  simp only
  rw [ensures_bind, ensures_set]
  simp only
  rw [ensures_ofExcept, FileStorage.nonVolatile_write, ← sealRecord]
  obtain hwrite | ⟨hunsound, hwrite⟩ := storage.write_cases
  · rw [hwrite]
    refine hok _ records_withDirectory (h.rename hstorage hput) fun hsound => ?_
    exact hsound.withDirectory (hsound floor storage hstorage).tail
  · have hns : ¬store.Sound := fun hsound => hunsound (hsound floor storage hstorage)
    obtain hwrite | hwrite | hwrite := hwrite
    · rw [hwrite]
      exact hio _ records_withDirectory hns (h.withFates hstorage)
    · rw [hwrite]
      exact hcrash _ records_withDirectory hns (.inr (h.rename hstorage hput))
    · rw [hwrite]
      exact hcrash _ records_withDirectory hns (.inl (h.withFates hstorage))

end GatewayOscoreRecipientStore

end Lichen.Gateway
