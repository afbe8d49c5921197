import Lichen.Gateway.RecipientDisk

namespace Lichen.Gateway.GatewayOscoreRecipientStore

open Lichen.Lib Lichen.Hal Lichen.Core RecipientReplayState RecipientView List

variable {schnorr : Schnorr48} {seed : Seed} {store store' : GatewayOscoreRecipientStore}
  {view view' : RecipientView} {contextId other : ContextId}

structure Represents (schnorr : Schnorr48) (seed : Seed) (store : GatewayOscoreRecipientStore)
    (view : RecipientView) : Prop where
  onDisk : OnDisk schnorr seed store view
  cached : ∀ record ∈ store.records, record.2 = view.settled record.1
  nodup : (store.records.map Prod.fst).Nodup

theorem Represents.of_records (h : Represents schnorr seed store view)
    (hdisk : OnDisk schnorr seed store' view') (hrecords : store'.records = store.records)
    (hsettled : ∀ record ∈ store.records, view'.settled record.1 = view.settled record.1) :
    Represents schnorr seed store' view' := by
  refine ⟨hdisk, fun record hrecord => ?_, hrecords ▸ h.nodup⟩
  rw [hrecords] at hrecord
  rw [hsettled record hrecord]
  exact h.cached record hrecord

/-- What reading the two records back does. -/
structure Loads (schnorr : Schnorr48) (seed : Seed) (store : GatewayOscoreRecipientStore)
    (view : RecipientView) (contextId : ContextId) (result : Except Stop RecipientReplayState)
    (store' : GatewayOscoreRecipientStore) (view' : RecipientView) : Prop where
  represents : Represents schnorr seed store' view'
  advances : view.Advances view'
  ok : ∀ state, result = .ok state → state = view'.settled contextId
  ne_corrupt : result ≠ .error (.error .corrupt)
  sound : store.Sound → view.InStep → store'.Sound ∧ view' = view ∧ ∃ state, result = .ok state

theorem Loads.of_error (h : Represents schnorr seed store' view') (hadvances : view.Advances view')
    (hstop : stop ≠ .error .corrupt) (hsound : ¬(store.Sound ∧ view.InStep)) :
    Loads schnorr seed store view contextId (.error stop) store' view' :=
  ⟨h, hadvances, nofun, fun heq => hstop (Except.error.inj heq),
    fun hs hstep => absurd ⟨hs, hstep⟩ hsound⟩

theorem Loads.settled (h : Represents schnorr seed store view) :
    Loads schnorr seed store view contextId (.ok (view.settled contextId)) store view := by
  refine ⟨h, .rfl, ?_, nofun, fun hsound _ => ⟨hsound, rfl, _, rfl⟩⟩
  rintro _ ⟨⟩
  rfl

section

variable (h : Represents schnorr seed store view)

include h

theorem ensures_load_of_mem (hmem : contextId ∈ store.records.map Prod.fst) :
    Ensures (load schnorr contextId) store fun result store' =>
      result = .ok (view.settled contextId) ∧ store' = store := by
  rw [load, ensures_bind, ensures_get]
  dsimp only
  cases hfind : store.records.find? fun record => record.1 = contextId with
  | none =>
    obtain ⟨record, hrecord, heq⟩ := mem_map.mp hmem
    exact absurd (decide_eq_true heq) (List.find?_eq_none.mp hfind record hrecord)
  | some record =>
    have hcontext : record.1 = contextId := by simpa using List.find?_some hfind
    have hcached := h.cached record (mem_of_find?_eq_some hfind)
    rw [hcontext] at hcached
    exact ensures_pure.mpr ⟨congrArg _ hcached, rfl⟩

variable (hnew : contextId ∉ store.records.map Prod.fst)

include hnew

theorem ensures_heal (hstate : view.get false contextId = some state)
    (hahead : view.get false contextId ≠ view.get true contextId) :
    Ensures (do write schnorr contextId true state; return state) store fun result store' =>
      store'.records = store.records ∧
        ∃ view', Loads schnorr seed store view contextId result store' view' := by
  have hstep : ¬(store.Sound ∧ view.InStep) := fun hs => hahead (hs.2 contextId)
  obtain ⟨hput, hadvances⟩ := valid_put_floor h.onDisk.valid hstate
  have hsame : ∀ store', store'.records = store.records → OnDisk schnorr seed store' view →
      Represents schnorr seed store' view :=
    fun _ hrecords hdisk => h.of_records hdisk hrecords fun _ _ => rfl
  have hhealed : ∀ store', store'.records = store.records →
      OnDisk schnorr seed store' (view.put true contextId state) →
      Represents schnorr seed store' (view.put true contextId state) := by
    refine fun store' hrecords hdisk => h.of_records hdisk hrecords fun record hrecord => ?_
    exact settled_put_floor_other fun heq => hnew (heq ▸ mem_map_of_mem hrecord)
  refine ensures_write_bind h.onDisk hput ?_ ?_ ?_
  · exact fun store' hrecords _ hdisk =>
      ⟨hrecords, view, .of_error (hsame store' hrecords hdisk) .rfl nofun hstep⟩
  · rintro store' hrecords - (hdisk | hdisk)
    · exact ⟨hrecords, view, .of_error (hsame store' hrecords hdisk) .rfl nofun hstep⟩
    · exact ⟨hrecords, _, .of_error (hhealed store' hrecords hdisk) hadvances nofun hstep⟩
  · intro store' hrecords hdisk _
    refine ensures_pure.mpr ⟨hrecords, _, hhealed store' hrecords hdisk, hadvances, ?_, nofun,
      fun hs hin => absurd ⟨hs, hin⟩ hstep⟩
    rintro _ ⟨⟩
    rw [settled_put_floor_self]

theorem ensures_reconcile :
    Ensures (reconcile schnorr contextId (view.get false contextId) (view.get true contextId)) store
      fun result store' => store'.records = store.records ∧
        ∃ view', Loads schnorr seed store view contextId result store' view' := by
  have hkeep : ∀ state, state = view.settled contextId →
      Ensures (pure state : StoreM RecipientReplayState) store fun result store' =>
        store'.records = store.records ∧
          ∃ view', Loads schnorr seed store view contextId result store' view' := by
    rintro _ rfl
    exact ensures_pure.mpr ⟨rfl, view, .settled h⟩
  obtain ⟨-, -, hcases⟩ := h.onDisk.valid contextId
  cases hstate : view.get false contextId with
  | none =>
    cases hfloor : view.get true contextId with
    | none =>
      refine hkeep _ ?_
      rw [settled, hfloor, Option.getD_none]
    | some =>
      rw [hstate, hfloor] at hcases
      obtain hsame | ⟨_, -, hnext⟩ := hcases
      · cases hsame
      · cases hnext
  | some state =>
    cases hfloor : view.get true contextId with
    | none => exact ensures_heal h hnew hstate (by rw [hstate, hfloor]; exact Option.some_ne_none _)
    | some floor =>
      have hsettled : view.settled contextId = floor := by
        rw [settled, hfloor, Option.getD_some]
      rw [hstate, hfloor, hsettled] at hcases
      have hprecedes : state.precedes floor = false ∨ state = floor := by
        obtain hsame | ⟨_, -, hnext⟩ := hcases
        · exact .inr (Option.some.inj hsame)
        · rw [Option.some.inj hnext]
          exact .inl (not_precedes_next _)
      rw [reconcile]
      by_cases heq : state = floor
      · subst heq
        rw [if_neg (by simp [precedes]), if_neg (not_not.mpr rfl)]
        exact hkeep state hsettled.symm
      · rw [if_neg (by simp [hprecedes.resolve_right heq]), if_pos heq]
        refine ensures_heal h hnew hstate ?_
        rw [hstate, hfloor]
        exact fun h => heq (Option.some.inj h)

theorem ensures_remember :
    Ensures (remember contextId (view.settled contextId)) store fun result store' =>
      result = .ok () ∧ Represents schnorr seed store' view ∧
        contextId ∈ store'.records.map Prod.fst ∧ (store.Sound → store'.Sound) := by
  have hkept : ∀ records : List (ContextId × RecipientReplayState), records.Sublist store.records →
      (∀ record ∈ records ++ [(contextId, view.settled contextId)],
          record.2 = view.settled record.1) ∧
        ((records ++ [(contextId, view.settled contextId)]).map Prod.fst).Nodup := by
    intro records hsub
    constructor
    · intro record hrecord
      obtain hrecord | hrecord := mem_append.mp hrecord
      · exact h.cached record (hsub.subset hrecord)
      · rw [mem_singleton.mp hrecord]
    · rw [map_append, map_singleton, ← concat_eq_append]
      exact (h.nodup.sublist (hsub.map _)).concat fun hmem => hnew ((hsub.map _).subset hmem)
  obtain ⟨hsettled, hdistinct⟩ := hkept
    (if maxGcpOscoreContexts ≤ store.records.length then store.records.tail else store.records)
    (by split_ifs; exacts [tail_sublist _, .refl _])
  refine ensures_modify.mpr ⟨rfl, ⟨h.onDisk.of_eq rfl fun floor => ?_, hsettled, hdistinct⟩, ?_, ?_⟩
  · cases floor <;> rfl
  · exact mem_map_of_mem (mem_append_right _ (mem_singleton_self _))
  · intro hsound floor storage hstorage
    refine hsound floor storage (hstorage ▸ ?_)
    cases floor <;> rfl

end

/-- A load also caches the context that it returns. -/
theorem ensures_load (h : Represents schnorr seed store view) :
    Ensures (load schnorr contextId) store fun result store' =>
      (∀ state, result = .ok state → contextId ∈ store'.records.map Prod.fst) ∧
        ∃ view', Loads schnorr seed store view contextId result store' view' := by
  by_cases hmem : contextId ∈ store.records.map Prod.fst
  · refine (ensures_load_of_mem h hmem).imp ?_
    rintro _ _ ⟨rfl, rfl⟩
    exact ⟨fun _ _ => hmem, view, .settled h⟩
  have hfind : store.records.find? (fun record => record.1 = contextId) = none := by
    rw [List.find?_eq_none]
    intro record hrecord heq
    exact hmem (mem_map.mpr ⟨record, hrecord, of_decide_eq_true heq⟩)
  have hpersistent : store.storage.isNone = false := by
    rw [← Option.not_isSome, h.onDisk.isSome_storage]
    rfl
  rw [load, ensures_bind, ensures_get]
  simp only [hfind, hpersistent, Bool.false_eq_true, if_false]
  refine (ensures_read h.onDisk).bind (fun _ _ hread => nomatch hread.1) ?_
  rintro _ _ ⟨⟨⟩, hsame⟩
  rw [hsame]
  refine (ensures_read h.onDisk).bind (fun _ _ hread => nomatch hread.1) ?_
  rintro _ _ ⟨⟨⟩, hsame⟩
  rw [hsame]
  refine (ensures_reconcile h hmem).bind (fun _ _ hloads => ⟨nofun, hloads.2⟩) ?_
  rintro state store' ⟨hrecords, view', hload⟩
  cases hload.ok state rfl
  refine (ensures_remember hload.represents (hrecords ▸ hmem)).bind
    (fun _ _ hrest => nomatch hrest.1) ?_
  rintro ⟨⟩ _ ⟨-, hrepresents, hin, hsound'⟩
  refine ensures_pure.mpr ⟨fun _ _ => hin, view', hrepresents, hload.advances, hload.ok, nofun, ?_⟩
  intro hsound hstep
  obtain ⟨hstore', hrest⟩ := hload.sound hsound hstep
  exact ⟨hsound' hstore', hrest⟩

end Lichen.Gateway.GatewayOscoreRecipientStore
