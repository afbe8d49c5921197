import Lichen.Gateway.RecipientReplay

namespace Lichen.Gateway

open Lichen.Lib Lichen.Hal Lichen.Core RecipientView List

namespace GatewayOscoreRecipientStore

variable {schnorr : Schnorr48} {seed : Seed} {store store' : GatewayOscoreRecipientStore}
  {view view' : RecipientView} {contextId other : ContextId} {sequence : UInt64}

theorem ensures_publish (h : OnDisk schnorr seed store view)
    (hcached : ∀ record ∈ store.records, record.1 ≠ contextId → record.2 = view.settled record.1)
    (hnodup : (store.records.map Prod.fst).Nodup) (hmem : contextId ∈ store.records.map Prod.fst) :
    Ensures (publish contextId (view.settled contextId)) store fun result store' =>
      result = .ok () ∧ Represents schnorr seed store' view := by
  rw [publish, ensures_bind, ensures_get]
  dsimp only
  cases hfind : store.records.findIdx? fun record => record.1 = contextId with
  | none =>
    obtain ⟨record, hrecord, heq⟩ := mem_map.mp hmem
    exact absurd heq (of_decide_eq_false (List.findIdx?_eq_none_iff.mp hfind record hrecord))
  | some i =>
    obtain ⟨hi, hkey, -⟩ := List.findIdx?_eq_some_iff_getElem.mp hfind
    have hkeys : (store.records.set i (contextId, view.settled contextId)).map Prod.fst =
        store.records.map Prod.fst := by
      rw [map_set, ← of_decide_eq_true hkey, ← getElem_map Prod.fst, set_getElem_self]
      rwa [length_map]
    refine ensures_set.mpr ⟨rfl, h.of_eq rfl fun floor => by cases floor <;> rfl, ?_, hkeys ▸ hnodup⟩
    intro record hrecord
    obtain ⟨_, hj, rfl⟩ := getElem_of_mem hrecord
    rw [length_set] at hj
    rw [getElem_set]
    split_ifs with hij
    · rfl
    · refine hcached _ (getElem_mem hj) fun heq => hij ?_
      refine (List.getElem?_inj (by rwa [length_map]) hnodup).mp ?_
      rw [List.getElem?_map, List.getElem?_map, List.getElem?_eq_getElem hi,
        List.getElem?_eq_getElem hj, Option.map_some, Option.map_some, heq,
        of_decide_eq_true hkey]

/-- What an accept does. Only a crash can leave the cache behind the disk. -/
structure Accepts (schnorr : Schnorr48) (seed : Seed) (store : GatewayOscoreRecipientStore)
    (view : RecipientView) (contextId : ContextId) (sequence : UInt64) (result : Except Stop Unit)
    (store' : GatewayOscoreRecipientStore) (view' : RecipientView) : Prop where
  onDisk : OnDisk schnorr seed store' view'
  advances : view.Advances view'
  represents : result ≠ .error .crash → Represents schnorr seed store' view'
  ok : result = .ok () → (view.settled contextId).isReplay sequence = false ∧
    (view'.settled contextId).isReplay sequence = true
  sound : store.Sound → view.InStep →
    (view.settled contextId).isReplay sequence = true ∧ result = .error (.error .corrupt) ∧
      view' = view ∨
    (view.settled contextId).isReplay sequence = false ∧ result = .ok () ∧ view'.InStep ∧
      view'.settled contextId = (view.settled contextId).next sequence ∧
      ∀ other, other ≠ contextId → view'.settled other = view.settled other

theorem Accepts.of_error (h : Represents schnorr seed store' view')
    (hadvances : view.Advances view') (hsound : ¬(store.Sound ∧ view.InStep)) :
    Accepts schnorr seed store view contextId sequence (.error stop) store' view' :=
  ⟨h.onDisk, hadvances, fun _ => h, nofun, fun hs hstep => absurd ⟨hs, hstep⟩ hsound⟩

theorem Accepts.of_crash (h : OnDisk schnorr seed store' view') (hadvances : view.Advances view')
    (hsound : ¬(store.Sound ∧ view.InStep)) :
    Accepts schnorr seed store view contextId sequence (.error .crash) store' view' :=
  ⟨h, hadvances, fun hne => absurd rfl hne, nofun, fun hs hstep => absurd ⟨hs, hstep⟩ hsound⟩

section

variable (h : Represents schnorr seed store view)

include h

theorem ensures_isReplay (contextId : ContextId) (sequence : UInt64) :
    Ensures (isReplay schnorr contextId sequence) store fun result store' =>
      ∃ loaded view', Loads schnorr seed store view contextId loaded store' view' ∧
        result = loaded.map (·.isReplay sequence) ∧
        ∀ state, loaded = .ok state → contextId ∈ store'.records.map Prod.fst := by
  refine (ensures_load h).bind ?_ ?_
  · rintro _ store' ⟨hmem, view', hload⟩
    exact ⟨_, view', hload, rfl, hmem⟩
  · rintro _ store' ⟨hmem, view', hload⟩
    exact ensures_pure.mpr ⟨_, view', hload, rfl, hmem⟩

theorem ensures_persist {next : RecipientReplayState}
    (hmem : contextId ∈ store.records.map Prod.fst)
    (hfresh : (view.settled contextId).isReplay sequence = false)
    (hnext : (view.settled contextId).next sequence = next) :
    Ensures (do
        write schnorr contextId false next
        write schnorr contextId true next
        publish contextId next) store fun result store' =>
      ∃ view', Accepts schnorr seed store view contextId sequence result store' view' := by
  obtain ⟨_, htracks⟩ := (h.onDisk.valid contextId).tracks
  have hvalid₁ := valid_put_state h.onDisk.valid hfresh
  rw [hnext] at hvalid₁
  obtain ⟨hvalid₂, hadvances₂⟩ := valid_put_floor hvalid₁ get_put_self
  have hadvances₁ : view.Advances (view.put false contextId next) := by
    intro other earlier hreplay
    rwa [settled_put_state]
  have hadvances := hadvances₁.trans hadvances₂
  refine ensures_write_bind h.onDisk hvalid₁ ?_ ?_ ?_
  · exact fun store₁ hrecords hns hdisk => ⟨view, .of_error (h.of_records hdisk hrecords
      fun _ _ => rfl) .rfl fun hs => hns hs.1⟩
  · rintro store₁ - hns (hdisk | hdisk)
    · exact ⟨view, .of_crash hdisk .rfl fun hs => hns hs.1⟩
    · exact ⟨_, .of_crash hdisk hadvances₁ fun hs => hns hs.1⟩
  intro store₁ hrecords₁ hdisk₁ hsound₁
  have h₁ : Represents schnorr seed store₁ _ :=
    h.of_records hdisk₁ hrecords₁ fun _ _ => settled_put_state
  refine ensures_write_bind hdisk₁ hvalid₂ ?_ ?_ ?_
  · exact fun store₂ hrecords hns hdisk => ⟨_, .of_error (h₁.of_records hdisk hrecords
      fun _ _ => rfl) hadvances₁ fun hs => hns (hsound₁ hs.1)⟩
  · rintro store₂ - hns (hdisk | hdisk)
    · exact ⟨_, .of_crash hdisk hadvances₁ fun hs => hns (hsound₁ hs.1)⟩
    · exact ⟨_, .of_crash hdisk hadvances fun hs => hns (hsound₁ hs.1)⟩
  intro store₂ hrecords₂ hdisk₂ _
  have hcached : ∀ record ∈ store₂.records, record.1 ≠ contextId →
      record.2 = ((view.put false contextId next).put true contextId next).settled record.1 := by
    intro record hrecord hne
    rw [settled_put_floor_other hne, settled_put_state]
    exact h.cached record (hrecords₁ ▸ hrecords₂ ▸ hrecord)
  have hkeys : store₂.records.map Prod.fst = store.records.map Prod.fst := by
    rw [hrecords₂, hrecords₁]
  have hpublish := ensures_publish hdisk₂ hcached (hkeys ▸ h.nodup) (hkeys ▸ hmem)
  rw [settled_put_floor_self] at hpublish
  refine hpublish.imp ?_
  rintro _ _ ⟨rfl, h₃⟩
  refine ⟨_, h₃.onDisk, hadvances, fun _ => h₃, fun _ => ⟨hfresh, ?_⟩, fun _ hstep =>
    .inr ⟨hfresh, rfl, fun other => ?_, settled_put_floor_self.trans hnext.symm,
      fun other hne => ?_⟩⟩
  · rw [settled_put_floor_self, ← hnext]
    exact RecipientReplayState.isReplay_next_self htracks hfresh
  · by_cases hother : other = contextId
    · rw [hother, get_put_self, get_put_of_ne Bool.false_ne_true, get_put_self]
    · rw [get_put_other hother, get_put_other hother, get_put_other hother, get_put_other hother]
      exact hstep other
  · rw [settled_put_floor_other hne, settled_put_state]

theorem ensures_accept (contextId : ContextId) (sequence : UInt64) :
    Ensures (accept schnorr contextId sequence) store fun result store' =>
      ∃ view', Accepts schnorr seed store view contextId sequence result store' view' := by
  refine (ensures_isReplay h contextId sequence).bind ?_ ?_
  · rintro _ store₁ ⟨loaded, view₁, hload, hresult, -⟩
    refine ⟨view₁, .of_error hload.represents hload.advances ?_⟩
    rintro ⟨hsound, hstep⟩
    obtain ⟨-, -, state, hstate⟩ := hload.sound hsound hstep
    rw [hstate] at hresult
    cases hresult
  rintro _ store₁ ⟨loaded, view₁, hload, hresult, hmem⟩
  cases loaded with
  | error => cases hresult
  | ok state =>
    cases hload.ok state rfl
    cases hresult
    have h₁ := hload.represents
    rw [ensures_bind, ensures_check]
    refine ⟨fun hreplay => ?_, fun hfresh => ?_⟩
    · refine ⟨view₁, h₁.onDisk, hload.advances, fun _ => h₁, nofun, fun hs hstep => ?_⟩
      obtain ⟨-, rfl, -⟩ := hload.sound hs hstep
      exact .inl ⟨hreplay, rfl, rfl⟩
    rw [Bool.not_eq_true] at hfresh
    refine (ensures_load_of_mem h₁ (hmem _ rfl)).bind (fun _ _ hcached => nomatch hcached.1) ?_
    rintro _ _ ⟨⟨⟩, hsame⟩
    rw [hsame, ensures_bind, ensures_get]
    dsimp only
    rw [if_pos h₁.onDisk.isSome_storage]
    refine (ensures_persist h₁ (hmem _ rfl) hfresh rfl).imp ?_
    rintro result _ ⟨view₂, haccepts⟩
    refine ⟨view₂, haccepts.onDisk, hload.advances.trans haccepts.advances, haccepts.represents,
      fun hok => ⟨hload.advances.isReplay_eq_false hfresh, (haccepts.ok hok).2⟩, fun hs hstep => ?_⟩
    obtain ⟨hsound₁, rfl, -⟩ := hload.sound hs hstep
    exact haccepts.sound hsound₁ hstep

end

structure Fates where
  state : List FileFate
  floor : List FileFate

def Fates.Sound (fates : Fates) : Prop := ∀ fate ∈ fates.state ++ fates.floor, fate = .complete

instance (fates : Fates) : Decidable fates.Sound :=
  inferInstanceAs (Decidable (∀ fate ∈ fates.state ++ fates.floor, fate = .complete))

section

variable (store : GatewayOscoreRecipientStore)

def withFates (fates : Fates) : GatewayOscoreRecipientStore :=
  { store with
    storage := store.storage.map (·.withFates fates.state)
    floorStorage := store.floorStorage.map (·.withFates fates.floor) }

def restart : GatewayOscoreRecipientStore :=
  { store with records := [] }

end

inductive Request where
  | isReplay (contextId : ContextId) (sequence : UInt64) (fates : Fates)
  | accept (contextId : ContextId) (sequence : UInt64) (fates : Fates)
  | restart

def Request.Sound : Request → Prop
  | .isReplay _ _ fates | .accept _ _ fates => fates.Sound
  | .restart => True

instance (request : Request) : Decidable request.Sound :=
  match request with
  | .isReplay _ _ fates | .accept _ _ fates => inferInstanceAs (Decidable fates.Sound)
  | .restart => isTrue trivial

inductive Answer where
  | replay (result : Option (Except GatewayOscoreStoreError Bool))
  | accepted (result : Option (Except GatewayOscoreStoreError Unit))
  | restarted

def call (p : StoreM α) (store : GatewayOscoreRecipientStore) :
    Option (Except GatewayOscoreStoreError α) × GatewayOscoreRecipientStore :=
  match execute p store with
  | (.ok a, store) => (some (.ok a), store)
  | (.error (.error error), store) => (some (.error error), store)
  | (.error .crash, store) => (none, store.restart)

def step (schnorr : Schnorr48) (store : GatewayOscoreRecipientStore) :
    Request → Answer × GatewayOscoreRecipientStore
  | .isReplay contextId sequence fates =>
    let called := call (isReplay schnorr contextId sequence) (store.withFates fates)
    (.replay called.1, called.2)
  | .accept contextId sequence fates =>
    let called := call (accept schnorr contextId sequence) (store.withFates fates)
    (.accepted called.1, called.2)
  | .restart => (.restarted, store.restart)

def accepts (contextId : ContextId) : Request × Answer → Option UInt64
  | (.accept contextId' sequence _, .accepted (some (.ok ()))) =>
    if contextId' = contextId then some sequence else none
  | _ => none

/-- The sequences of the successful accepts of a run for the context, in their order. -/
def accepted (schnorr : Schnorr48) (store : GatewayOscoreRecipientStore) (requests : List Request)
    (contextId : ContextId) : List UInt64 :=
  (requests.zip (trace (step schnorr) store requests)).filterMap (accepts contextId)

def fresh (seed : Seed) : GatewayOscoreRecipientStore := persistent .empty .empty seed

theorem directory_withFates : (store.withFates fates).directory floor =
      (store.directory floor).map (·.withFates (if floor then fates.floor else fates.state)) := by
  cases floor <;> rfl

theorem Represents.withFates (h : Represents schnorr seed store view) (fates : Fates) :
    Represents schnorr seed (store.withFates fates) view := by
  refine ⟨⟨h.onDisk.sealingSeed, fun floor => ?_, h.onDisk.valid⟩, h.cached, h.nodup⟩
  obtain ⟨_, hstorage, hfiles⟩ := h.onDisk.directory floor
  rw [directory_withFates, hstorage]
  exact ⟨_, rfl, hfiles⟩

theorem sound_withFates (h : fates.Sound) : (store.withFates fates).Sound := by
  intro floor storage hstorage
  rw [directory_withFates, Option.map_eq_some_iff] at hstorage
  obtain ⟨_, -, rfl⟩ := hstorage
  intro fate hfate
  cases floor with
  | false => exact h fate (mem_append_left _ hfate)
  | true => exact h fate (mem_append_right _ hfate)

theorem Represents.restart (h : OnDisk schnorr seed store view) :
    Represents schnorr seed store.restart view :=
  ⟨h.of_eq rfl fun floor => by cases floor <;> rfl, nofun, nodup_nil⟩

theorem represents_fresh : Represents schnorr seed (fresh seed) ⟨fun _ _ => none⟩ := by
  refine ⟨⟨rfl, fun floor => ?_, fun contextId => ?_⟩, nofun, nodup_nil⟩
  · cases floor <;> exact ⟨.empty, rfl, fun _ => rfl⟩
  · exact ⟨⟨∅, RecipientReplayState.tracks_empty⟩, nofun, .inl rfl⟩

structure StepEffect (schnorr : Schnorr48) (seed : Seed) (store : GatewayOscoreRecipientStore)
    (view : RecipientView) (request : Request) (view' : RecipientView) : Prop where
  represents : Represents schnorr seed (step schnorr store request).2 view'
  advances : view.Advances view'
  accepts : ∀ contextId sequence,
    accepts contextId (request, (step schnorr store request).1) = some sequence →
      (view.settled contextId).isReplay sequence = false ∧
        (view'.settled contextId).isReplay sequence = true
  sound : request.Sound → view.InStep → view'.InStep ∧
    ∀ contextId, view'.settled contextId =
      match GatewayOscoreRecipientStore.accepts contextId
        (request, (step schnorr store request).1) with
      | none => view.settled contextId
      | some sequence => (view.settled contextId).next sequence

theorem represents_call (h : OnDisk schnorr seed (execute p store).2 view)
    (hrepresents : (execute p store).1 ≠ .error .crash →
      Represents schnorr seed (execute p store).2 view) :
    Represents schnorr seed (call p store).2 view := by
  rw [call]
  revert h hrepresents
  generalize execute p store = executed
  intro h hrepresents
  match executed with
  | (.ok _, _) => exact hrepresents nofun
  | (.error (.error _), _) => exact hrepresents nofun
  | (.error .crash, _) => exact .restart h

theorem call_eq_ok_iff : (call p store).1 = some (.ok a) ↔ (execute p store).1 = .ok a := by
  rw [call]
  generalize execute p store = executed
  match executed with
  | (.ok b, _) => simp
  | (.error (.error _), _) => simp
  | (.error .crash, _) => simp

theorem accepts_accept (contextId other : ContextId) (sequence : UInt64) (fates : Fates)
    (result : Option (Except GatewayOscoreStoreError Unit)) :
    accepts other (.accept contextId sequence fates, .accepted result) =
      if result = some (.ok ()) ∧ contextId = other then some sequence else none := by
  match result with
  | none => rfl
  | some (.error _) => rfl
  | some (.ok ()) => simp [accepts]

section

variable (h : Represents schnorr seed store view)

include h

theorem stepEffect_isReplay (contextId : ContextId) (sequence : UInt64) (fates : Fates) :
    ∃ view', StepEffect schnorr seed store view (.isReplay contextId sequence fates) view' := by
  obtain ⟨_, view', hload, -⟩ :=
    ensures_iff_execute.mp (ensures_isReplay (h.withFates fates) contextId sequence)
  have hrepresents := hload.represents
  refine ⟨view', ?_, hload.advances, nofun, fun hsound hstep => ?_⟩
  · exact represents_call hrepresents.onDisk fun _ => hrepresents
  · obtain ⟨-, rfl, -⟩ := hload.sound (sound_withFates hsound) hstep
    exact ⟨hstep, fun _ => rfl⟩

theorem stepEffect_accept (contextId : ContextId) (sequence : UInt64) (fates : Fates) :
    ∃ view', StepEffect schnorr seed store view (.accept contextId sequence fates) view' := by
  obtain ⟨view', haccepts⟩ :=
    ensures_iff_execute.mp (ensures_accept (h.withFates fates) contextId sequence)
  refine ⟨view', ?_, haccepts.advances, fun other sequence' haccepted => ?_, fun hsound hstep => ?_⟩
  · exact represents_call haccepts.onDisk haccepts.represents
  · rw [step, accepts_accept] at haccepted
    split_ifs at haccepted with hok
    obtain ⟨hok, rfl⟩ := hok
    cases haccepted
    exact haccepts.ok (call_eq_ok_iff.mp hok)
  · obtain ⟨-, hresult, rfl⟩ | ⟨-, hresult, hstep', hnext, hother⟩ :=
      haccepts.sound (sound_withFates hsound) hstep
    · refine ⟨hstep, fun other => ?_⟩
      rw [step, accepts_accept, if_neg]
      exact fun hok => nomatch hresult.symm.trans (call_eq_ok_iff.mp hok.1)
    · refine ⟨hstep', fun other => ?_⟩
      rw [step, accepts_accept]
      by_cases hsame : contextId = other
      · rw [if_pos ⟨call_eq_ok_iff.mpr hresult, hsame⟩, ← hsame]
        exact hnext
      · rw [if_neg fun h => hsame h.2]
        exact hother other (Ne.symm hsame)

theorem stepEffect : ∃ view', StepEffect schnorr seed store view request view' := by
  cases request with
  | isReplay contextId sequence fates => exact stepEffect_isReplay h contextId sequence fates
  | accept contextId sequence fates => exact stepEffect_accept h contextId sequence fates
  | restart =>
    exact ⟨view, .restart h.onDisk, .rfl, nofun, fun _ hstep => ⟨hstep, fun _ => rfl⟩⟩

end

theorem accepted_cons : accepted schnorr store (request :: requests) contextId =
      (accepts contextId (request, (step schnorr store request).1)).toList ++
        accepted schnorr (step schnorr store request).2 requests contextId := by
  rw [accepted, trace, zip_cons_cons, filterMap_cons, accepted]
  cases accepts contextId (request, (step schnorr store request).1) <;> rfl

theorem nodup_accepted (h : Represents schnorr seed store view) :
    (accepted schnorr store requests contextId).Nodup ∧
      ∀ sequence ∈ accepted schnorr store requests contextId,
        (view.settled contextId).isReplay sequence = false := by
  induction requests generalizing store view with
  | nil => exact ⟨nodup_nil, nofun⟩
  | cons request requests ih =>
    obtain ⟨_, heffect⟩ := stepEffect h
    obtain ⟨hnodup, hfresh⟩ := ih heffect.represents
    rw [accepted_cons]
    cases haccepts : accepts contextId (request, (step schnorr store request).1) with
    | none =>
      refine ⟨hnodup, fun sequence hmem => ?_⟩
      exact heffect.advances.isReplay_eq_false (hfresh sequence hmem)
    | some sequence =>
      obtain ⟨hbefore, hafter⟩ := heffect.accepts contextId sequence haccepts
      refine ⟨nodup_cons.mpr ⟨fun hmem => ?_, hnodup⟩, fun sequence' hmem => ?_⟩
      · rw [hfresh sequence hmem] at hafter
        cases hafter
      · obtain rfl | hmem := mem_cons.mp hmem
        · exact hbefore
        · exact heffect.advances.isReplay_eq_false (hfresh sequence' hmem)

theorem tracks_of_sound (h : Represents schnorr seed store view) (hstep : view.InStep)
    {S : ContextId → Set Nat} (htracks : ∀ contextId, (view.settled contextId).Tracks (S contextId))
    (hsound : ∀ request ∈ requests, request.Sound) :
    ∃ view', Represents schnorr seed
        (run (fun store request => (step schnorr store request).2) store requests) view' ∧
      view'.InStep ∧ ∀ contextId, (view'.settled contextId).Tracks
        (S contextId ∪ {x | ∃ sequence ∈ accepted schnorr store requests contextId,
          sequence.toNat = x}) := by
  induction requests generalizing store view S with
  | nil =>
    refine ⟨view, h, hstep, fun contextId => ?_⟩
    rw [show accepted schnorr store [] contextId = [] from rfl]
    simpa using htracks contextId
  | cons request requests ih =>
    obtain ⟨view', heffect⟩ := stepEffect h
    obtain ⟨hstep', hsettled⟩ := heffect.sound (hsound request mem_cons_self) hstep
    have htracks' : ∀ contextId, (view'.settled contextId).Tracks (S contextId ∪ {x | ∃ sequence ∈
        (accepts contextId (request, (step schnorr store request).1)).toList,
          sequence.toNat = x}) := by
      intro contextId
      rw [hsettled contextId]
      cases haccepts : accepts contextId (request, (step schnorr store request).1) with
      | none => simpa using htracks contextId
      | some sequence =>
        obtain ⟨hfresh, -⟩ := heffect.accepts contextId sequence haccepts
        simpa [eq_comm] using (htracks contextId).next hfresh
    obtain ⟨view'', hrun, hstep'', htracks''⟩ := ih heffect.represents hstep' htracks'
      fun request' hmem => hsound request' (mem_cons_of_mem _ hmem)
    refine ⟨view'', hrun, hstep'', fun contextId => ?_⟩
    have h := htracks'' contextId
    rw [Set.union_assoc] at h
    convert h using 2
    ext x
    simp only [accepted_cons, mem_append, Set.mem_ofPred_eq, Set.mem_union, or_and_right,
      exists_or]

theorem represents_run : ∃ view, Represents schnorr seed
      (run (fun store request => (step schnorr store request).2) (fresh seed) requests) view := by
  refine run_invariant (I := fun store => ∃ view, Represents schnorr seed store view) ?_
    ⟨_, represents_fresh⟩ requests
  rintro store request ⟨view, h⟩
  obtain ⟨view', heffect⟩ := stepEffect h
  exact ⟨view', heffect.represents⟩

theorem isReplay_eq_false_iff_of_tracks {state : RecipientReplayState}
    (h : state.Tracks S) : state.isReplay sequence = false ↔
      ∀ highest, IsGreatest S highest → highest < sequence.toNat ∨
        highest ≤ sequence.toNat + 31 ∧ sequence.toNat ∉ S := by
  rw [← Bool.not_eq_true, h.isReplay_iff]
  cases hinit : state.initialized with
  | false =>
    rw [(h.eq_empty hinit).2]
    exact ⟨fun _ _ hgreatest => hgreatest.1.elim, fun _ => nofun⟩
  | true =>
    have hgreatest := h.isGreatest hinit
    constructor
    · intro hnot highest hhighest
      rw [hhighest.unique hgreatest]
      by_cases hle : sequence.toNat ≤ state.highest.toNat
      · refine .inr ⟨?_, fun hmem => hnot ⟨rfl, hle, .inr hmem⟩⟩
        by_contra hfar
        exact hnot ⟨rfl, hle, .inl (by omega)⟩
      · exact .inl (by omega)
    · rintro hall ⟨-, hle, hknown⟩
      obtain hlt | ⟨hnear, hnew⟩ := hall _ hgreatest
      · omega
      · obtain hfar | hmem := hknown
        · omega
        · exact hnew hmem

theorem accepted_once (schnorr : Schnorr48) (seed : Seed) (requests : List Request) :
    let store := run (fun store request => (step schnorr store request).2) (fresh seed) requests
    (∀ contextId, (accepted schnorr (fresh seed) requests contextId).Nodup) ∧
    (∀ contextId fates, (execute (load schnorr contextId) (store.withFates fates)).1 ≠
      .error (.error .corrupt)) ∧
    ((∀ request ∈ requests, request.Sound) →
      ∀ contextId sequence (fates : Fates), fates.Sound →
        ((step schnorr store (.accept contextId sequence fates)).1 = .accepted (some (.ok ())) ↔
          ∀ highest, IsGreatest {x | ∃ sequence ∈ accepted schnorr (fresh seed) requests contextId,
              sequence.toNat = x} highest →
            highest < sequence.toNat ∨ highest ≤ sequence.toNat + 31 ∧
              sequence ∉ accepted schnorr (fresh seed) requests contextId)) := by
  refine ⟨fun contextId => ?_, fun contextId fates => ?_,
    fun hsound contextId sequence fates hfates => ?_⟩
  · exact (nodup_accepted represents_fresh).1
  · obtain ⟨view, h⟩ := represents_run
    obtain ⟨-, view', hload⟩ :=
      ensures_iff_execute.mp (ensures_load (h.withFates fates))
    exact hload.ne_corrupt
  · obtain ⟨view, h, hstep, htracks⟩ := tracks_of_sound represents_fresh
      (fun _ => rfl) (fun _ => RecipientReplayState.tracks_empty) hsound
    obtain ⟨view', haccepts⟩ :=
      ensures_iff_execute.mp (ensures_accept (h.withFates fates) contextId sequence)
    have htracks := htracks contextId
    rw [Set.empty_union] at htracks
    have hmem : (∃ s ∈ accepted schnorr (fresh seed) requests contextId,
        s.toNat = sequence.toNat) ↔ sequence ∈ accepted schnorr (fresh seed) requests contextId := by
      constructor
      · rintro ⟨s, hs, heq⟩
        exact UInt64.toNat_inj.mp heq ▸ hs
      · exact fun hs => ⟨sequence, hs, rfl⟩
    have hfresh := @isReplay_eq_false_iff_of_tracks sequence _ _ htracks
    rw [Set.mem_ofPred_eq, hmem] at hfresh
    rw [← hfresh, step, Answer.accepted.injEq, call_eq_ok_iff]
    obtain ⟨hreplay, hresult, -⟩ | ⟨hnew, hresult, -⟩ :=
      haccepts.sound (sound_withFates hfates) hstep
    · rw [hresult, hreplay]
      exact ⟨nofun, nofun⟩
    · exact ⟨fun _ => hnew, fun _ => hresult⟩

def sampleContext : ContextId := ⟨[1], by decide⟩

def sampleRequests : List Request := [.accept sampleContext 42 ⟨[], []⟩, .restart]

/-- The oldest number that a window at 42 still takes, after a restart. -/
theorem accepted_once_of_restart :
    accepted sumSchnorr (fresh zeroSeed) sampleRequests sampleContext = [42] ∧
      (step sumSchnorr (run (fun store request => (step sumSchnorr store request).2)
        (fresh zeroSeed) sampleRequests) (.accept sampleContext 11 ⟨[], []⟩)).1 =
        .accepted (some (.ok ())) := by
  have haccepted : accepted sumSchnorr (fresh zeroSeed) sampleRequests sampleContext = [42] := by
    decide +kernel
  refine ⟨haccepted, ((accepted_once sumSchnorr zeroSeed sampleRequests).2.2 (by decide)
    sampleContext 11 ⟨[], []⟩ (by decide)).mpr ?_⟩
  rw [haccepted]
  rintro _ ⟨⟨_, hmem, rfl⟩, -⟩
  rw [mem_singleton.mp hmem]
  exact .inr (by decide)

end GatewayOscoreRecipientStore

end Lichen.Gateway
