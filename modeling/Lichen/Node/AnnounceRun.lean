import Lichen.Node.AnnounceDisk
import Lichen.Lib.Guard

namespace Lichen.Node

open Lichen.Core Lichen.Hal Lichen.Lib AnnounceView

open Lichen.Gateway (Schnorr48 Seed)

namespace AnnounceTrustStore

variable {schnorr : Schnorr48} {seed : Seed} {store store' : AnnounceTrustStore}
  {view view' : AnnounceView} {iid : Iid} {state next : AnnounceTrustState} {dir : Directory}

def Within (store : AnnounceTrustStore) : Prop :=
  ∀ dir, store.storage = some dir → dir.files.len ≤ maxTrackedOriginators

def Counted (store : AnnounceTrustStore) : Prop :=
  ∀ dir, store.storage = some dir → store.durableCount = dir.files.len

structure Represents (schnorr : Schnorr48) (seed : Seed) (store : AnnounceTrustStore)
    (view : AnnounceView) : Prop extends OnDisk schnorr seed store view where
  cached : ∀ iid entry, store.records.get iid = some entry → view.get false iid = some entry.state
  counted : store.Counted

theorem get_evictColdest (h : (evictColdest io store iid).get other = some entry) :
    store.records.get other = some entry := by
  unfold evictColdest at h
  split at h
  · split at h
    · exact (HashMap.get_of_get_remove h).2
    · exact h
  · exact h

theorem ensures_remember (h : OnDisk schnorr seed store view) (hcounted : store.Counted)
    (hstate : view.get false iid = some state)
    (hcached : ∀ other entry, other ≠ iid → store.records.get other = some entry →
      view.get false other = some entry.state) :
    Ensures (remember io iid state) store fun result store' =>
      result = .ok () ∧ store'.storage = store.storage ∧ Represents schnorr seed store' view := by
  rw [remember, ensures_modify]
  refine ⟨rfl, rfl, h.cache _ _, ?_, hcounted⟩
  intro other entry hget
  obtain ⟨rfl, rfl⟩ | ⟨hne, hget⟩ := HashMap.get_of_get_insert hget
  · exact hstate
  · exact hcached other entry hne (get_evictColdest hget)

structure Kept (schnorr : Schnorr48) (seed : Seed) (store : AnnounceTrustStore)
    (view : AnnounceView) (store' : AnnounceTrustStore) (view' : AnnounceView) : Prop where
  represents : Represents schnorr seed store' view'
  storage : store'.storage = store.storage
  state : ∀ iid, view'.get false iid = view.get false iid
  valid : view'.Valid

theorem Kept.refl (h : Represents schnorr seed store view) (hvalid : view.Valid) :
    Kept schnorr seed store view store view :=
  ⟨h, rfl, fun _ => rfl, hvalid⟩

theorem Kept.heal (h : Represents schnorr seed store view) (hvalid : view.Valid)
    (hdir : store.directory true = some dir) (hstate : view.get false iid = some state) :
    Kept schnorr seed store view (put schnorr seed store dir true iid state)
      (view.put true iid state) := by
  have hget : ∀ other, (view.put true iid state).get false other = view.get false other :=
    fun other => get_put_of_ne Bool.false_ne_true
  refine ⟨⟨h.toOnDisk.put hdir iid state, ?_, h.counted⟩, rfl, hget, ?_⟩
  · intro other entry hcached
    rw [hget]
    exact h.cached other entry hcached
  · intro other floor hfloor
    rw [hget]
    by_cases hother : other = iid
    · subst hother
      rw [get_put_self] at hfloor
      cases hfloor
      exact ⟨state, hstate, precedes_self⟩
    · rw [get_put_other hother] at hfloor
      exact hvalid other floor hfloor

def Answers (view : AnnounceView) (iid : Iid)
    (result : Except AnnounceStop (Option AnnounceTrustState)) : Prop :=
  result = .ok (view.get false iid) ∨ result = .error (.error .io) ∨ result = .error .crash

def Loads (schnorr : Schnorr48) (seed : Seed) (store : AnnounceTrustStore) (view : AnnounceView)
    (iid : Iid) (result : Except AnnounceStop (Option AnnounceTrustState))
    (store' : AnnounceTrustStore) : Prop :=
  Answers view iid result ∧ ∃ view', Kept schnorr seed store view store' view'

section

variable (h : Represents schnorr seed store view)

include h

theorem ensures_heal (hvalid : view.Valid) (hstate : view.get false iid = some state) :
    Ensures (do
      write schnorr io iid true state
      return some state) store (Loads schnorr seed store view iid) := by
  obtain ⟨_, hdir, -⟩ := h.directory true
  refine (ensures_write h.toOnDisk hdir).bind ?_ ?_
  · intro stop store' hwrote
    cases hwrote with
    | io => exact ⟨.inr (.inl rfl), view, .refl h hvalid⟩
    | lost => exact ⟨.inr (.inr rfl), view, .refl h hvalid⟩
    | kept => exact ⟨.inr (.inr rfl), _, .heal h hvalid hdir hstate⟩
  · intro _ store' hwrote
    cases hwrote
    exact ensures_pure.mpr ⟨.inl (congrArg Except.ok hstate.symm), _, .heal h hvalid hdir hstate⟩

theorem ensures_reconcile (hvalid : view.Valid) :
    Ensures (reconcile schnorr io iid (view.get false iid) (view.get true iid)) store
      (Loads schnorr seed store view iid) := by
  cases hstate : view.get false iid with
  | none =>
    cases hfloor : view.get true iid with
    | none => exact ensures_pure.mpr ⟨.inl (congrArg Except.ok hstate.symm), view, .refl h hvalid⟩
    | some floor =>
      obtain ⟨state, hsome, -⟩ := hvalid iid floor hfloor
      exact nomatch hstate.symm.trans hsome
  | some state =>
    cases hfloor : view.get true iid with
    | none => exact ensures_heal h hvalid hstate
    | some floor =>
      obtain ⟨_, hsome, hprecedes⟩ := hvalid iid floor hfloor
      cases hstate.symm.trans hsome
      rw [reconcile, if_neg (Bool.not_eq_true _ ▸ hprecedes)]
      split
      · exact ensures_heal h hvalid hstate
      · exact ensures_pure.mpr ⟨.inl (congrArg Except.ok hstate.symm), view, .refl h hvalid⟩

theorem ensures_load (hvalid : view.Valid) :
    Ensures (load schnorr io iid) store (Loads schnorr seed store view iid) := by
  rw [load, ensures_bind, ensures_get]
  dsimp only
  split
  · rename_i entry hget
    rw [ensures_bind, ensures_set]
    refine ensures_pure.mpr ⟨.inl (congrArg Except.ok (h.cached iid entry hget).symm), view, ?_⟩
    refine ⟨⟨h.toOnDisk.cache _ _, ?_, h.counted⟩, rfl, fun _ => rfl, hvalid⟩
    intro other cached hcached
    obtain ⟨rfl, rfl⟩ | ⟨-, hcached⟩ := HashMap.get_of_get_insert hcached
    · exact h.cached _ entry hget
    · exact h.cached other cached hcached
  have hsome := h.toOnDisk.isSome_storage
  rw [if_neg (by rwa [Option.isNone_iff_eq_none, ← Option.not_isSome_iff_eq_none, not_not])]
  have hio : Loads schnorr seed store view iid (.error (.error .io)) store :=
    ⟨.inr (.inl rfl), view, .refl h hvalid⟩
  refine ensures_read_bind h.toOnDisk hio (ensures_read_bind h.toOnDisk hio ?_)
  refine (ensures_reconcile h hvalid).bind (fun _ _ hloads => hloads) ?_
  rintro _ store₁ ⟨hanswer, view₁, hkept⟩
  obtain hanswer | hanswer | hanswer := hanswer
  case inr.inl => cases hanswer
  case inr.inr => cases hanswer
  cases hanswer
  have hrep := hkept.represents
  have hsame : Loads schnorr seed store view iid (.ok (view.get false iid)) store₁ :=
    ⟨.inl rfl, view₁, hkept⟩
  cases hstate : view.get false iid with
  | none => exact ensures_pure.mpr (hstate ▸ hsame)
  | some state =>
    rw [ensures_bind, ensures_get]
    dsimp only
    split
    · refine (ensures_remember hrep.toOnDisk hrep.counted ((hkept.state iid).trans hstate)
        fun other entry _ hget => hrep.cached other entry hget).bind ?_ ?_
      · rintro _ store₂ ⟨hresult, -⟩
        cases hresult
      rintro _ store₂ ⟨-, hstorage, hrep₂⟩
      exact ensures_pure.mpr ⟨.inl (congrArg Except.ok hstate.symm), view₁, hrep₂,
        hstorage.trans hkept.storage, hkept.state, hkept.valid⟩
    · exact ensures_pure.mpr (hstate ▸ hsame)

end

theorem ensures_readDurableCurrent (h : OnDisk schnorr seed store view) :
    Ensures (readDurableCurrent schnorr io iid) store fun result store' =>
      store' = store ∧ result ≠ .error .crash ∧
        ∀ existing, result = .ok existing → existing = view.get false iid := by
  refine ensures_read_bind h ⟨rfl, nofun, nofun⟩ (ensures_read_bind h ⟨rfl, nofun, nofun⟩ ?_)
  split
  · rename_i hnone _
    exact ensures_pure.mpr ⟨rfl, nofun, fun _ heq => hnone ▸ (Except.ok.inj heq).symm⟩
  · exact ensures_throw.mpr ⟨rfl, nofun, nofun⟩
  · rename_i state hsome _
    exact ensures_pure.mpr ⟨rfl, nofun, fun _ heq => hsome ▸ (Except.ok.inj heq).symm⟩
  · rename_i state floor hsome _
    refine .check_bind ⟨rfl, nofun, nofun⟩ fun _ => ?_
    exact ensures_pure.mpr ⟨rfl, nofun, fun _ heq => hsome ▸ (Except.ok.inj heq).symm⟩

def Follows (current : Option AnnounceTrustState) (next : AnnounceTrustState) : Prop :=
  ∀ state, current = some state → next.pubkey = state.pubkey ∧ seqGt next.seq state.seq = true

theorem checkAdmission_eq_ok (h : checkAdmission store existing next = .ok ()) :
    Follows existing next ∧ (existing = none → store.storage.isSome = true →
      store.durableCount < maxTrackedOriginators) := by
  cases existing with
  | some =>
    rw [checkAdmission, ite_error_eq_ok, ite_error_eq_ok] at h
    refine ⟨?_, nofun⟩
    rintro _ ⟨⟩
    exact ⟨not_not.mp h.1, by simpa using h.2.1⟩
  | none =>
    refine ⟨nofun, fun _ hsome => ?_⟩
    rw [checkAdmission, if_pos hsome, ite_error_eq_ok] at h
    exact Nat.lt_of_not_le h.1

inductive Accepted (view : AnnounceView) (iid : Iid) (next : AnnounceTrustState) :
    Except AnnounceStop Unit → AnnounceView → Prop
  | refused (stop : AnnounceStop) : Accepted view iid next (.error stop) view
  | lagging (stop : AnnounceStop) (follows : Follows (view.get false iid) next) :
      Accepted view iid next (.error stop) (view.put false iid next)
  | complete (result : Except AnnounceStop Unit) (follows : Follows (view.get false iid) next) :
      Accepted view iid next result ((view.put false iid next).put true iid next)

/-- The store between the two writes of an accept: the cache may be behind at `iid`. -/
structure Behind (schnorr : Schnorr48) (seed : Seed) (iid : Iid) (store : AnnounceTrustStore)
    (view : AnnounceView) : Prop extends OnDisk schnorr seed store view where
  cached : ∀ other entry, other ≠ iid → store.records.get other = some entry →
    view.get false other = some entry.state
  counted : store.Counted
  within : store.Within

theorem len_rename :
    (dir.rename name data).files.len =
      if (dir.files.get name).isSome then dir.files.len else dir.files.len + 1 := by
  rw [Directory.rename]
  cases hget : dir.files.get name with
  | some => exact HashMap.len_insert_of_get hget
  | none => exact HashMap.len_insert_of_get_none hget

theorem Behind.represents_remove (h : Behind schnorr seed iid store view) :
    Represents schnorr seed { store with records := store.records.remove iid } view := by
  refine ⟨h.toOnDisk.cache _ _, ?_, h.counted⟩
  intro other entry hget
  obtain ⟨hne, hget⟩ := HashMap.get_of_get_remove hget
  exact h.cached other entry hne hget

theorem Behind.put_floor (h : Behind schnorr seed iid store view)
    (hdir : store.directory true = some dir) (next : AnnounceTrustState) :
    Behind schnorr seed iid (put schnorr seed store dir true iid next)
      (view.put true iid next) := by
  refine ⟨h.toOnDisk.put hdir iid next, ?_, h.counted, h.within⟩
  intro other entry hother hget
  rw [get_put_other hother]
  exact h.cached other entry hother hget

def Accepts (schnorr : Schnorr48) (seed : Seed) (view : AnnounceView) (iid : Iid)
    (next : AnnounceTrustState) (result : Except AnnounceStop Unit)
    (store' : AnnounceTrustStore) : Prop :=
  ∃ view', OnDisk schnorr seed store' view' ∧ store'.Within ∧
    Accepted view iid next result view' ∧
    (result ≠ .error .crash → Represents schnorr seed store' view')

theorem ensures_writeFloor (h : Behind schnorr seed iid store (view.put false iid next))
    (hfollows : Follows (view.get false iid) next) :
    Ensures (writeFloor schnorr io iid next) store fun result store' =>
      match result with
      | .ok () => Behind schnorr seed iid store' ((view.put false iid next).put true iid next)
      | .error stop => Accepts schnorr seed view iid next (.error stop) store' := by
  obtain ⟨_, hdir, -⟩ := h.directory true
  rw [writeFloor, ensures_tryCatch]
  refine (ensures_write h.toOnDisk hdir).imp ?_
  intro result store' hwrote
  cases hwrote with
  | ok => exact h.put_floor hdir next
  | io =>
    refine ensures_bind.mpr (ensures_modify.mpr (ensures_throw.mpr ?_))
    exact ⟨_, h.toOnDisk.cache _ _, h.within, .lagging _ hfollows, fun _ => h.represents_remove⟩
  | lost =>
    exact ensures_throw.mpr ⟨_, h.toOnDisk, h.within, .lagging _ hfollows, fun hne => absurd rfl hne⟩
  | kept =>
    have h' := h.put_floor hdir next
    exact ensures_throw.mpr ⟨_, h'.toOnDisk, h'.within, .complete _ hfollows,
      fun hne => absurd rfl hne⟩

section

variable (h : Represents schnorr seed store view) (hwithin : store.Within)

include h hwithin

section

variable (hroom : view.get false iid = none → store.durableCount < maxTrackedOriginators)

include hroom

theorem len_put_state (hdir : store.directory false = some dir) (next : AnnounceTrustState) :
    (dir.rename (key iid false) (sealRecord schnorr seed false iid next)).files.len =
        (if (view.get false iid).isNone then store.durableCount + 1 else store.durableCount) ∧
      (dir.rename (key iid false) (sealRecord schnorr seed false iid next)).files.len ≤
        maxTrackedOriginators := by
  obtain ⟨_, hdir', hholds⟩ := h.directory false
  cases hdir.symm.trans hdir'
  have hcounted := h.counted dir hdir
  have hle := hwithin dir hdir
  rw [len_rename, hholds.record]
  cases hview : view.get false iid with
  | none =>
    have hlt := hroom hview
    simp only [Option.map_none, Option.isSome_none, Option.isNone_none, Bool.false_eq_true,
      if_false, if_true]
    omega
  | some =>
    simp only [Option.map_some, Option.isSome_some, Option.isNone_some, Bool.false_eq_true,
      if_false, if_true]
    omega

theorem behind_put (hdir : store.directory false = some dir) (next : AnnounceTrustState) :
    Behind schnorr seed iid
      (let written := put schnorr seed store dir false iid next
      if (view.get false iid).isNone then
        { written with durableCount := written.durableCount + 1 } else written)
      (view.put false iid next) := by
  obtain ⟨hlen, hle⟩ := len_put_state h hwithin hroom hdir next
  have hdisk := h.toOnDisk.put hdir iid next
  have hcached : ∀ other entry, other ≠ iid → store.records.get other = some entry →
      (view.put false iid next).get false other = some entry.state := by
    intro other entry hother hget
    rw [get_put_other hother]
    exact h.cached other entry hget
  split
  · rename_i hnone
    rw [if_pos hnone] at hlen
    refine ⟨hdisk.of_eq rfl fun floor => by cases floor <;> rfl, hcached, ?_, ?_⟩
    · rintro _ ⟨⟩
      exact hlen.symm
    · rintro _ ⟨⟩
      exact hle
  · rename_i hsome
    rw [if_neg hsome] at hlen
    refine ⟨hdisk, hcached, ?_, ?_⟩
    · rintro _ ⟨⟩
      exact hlen.symm
    · rintro _ ⟨⟩
      exact hle

theorem ensures_commit (hfollows : Follows (view.get false iid) next) :
    Ensures (commit schnorr io iid (view.get false iid) next) store fun result store' =>
      match result with
      | .ok () => Behind schnorr seed iid store' ((view.put false iid next).put true iid next)
      | .error stop => Accepts schnorr seed view iid next (.error stop) store' := by
  obtain ⟨_, hdir, -⟩ := h.directory false
  have hbehind := behind_put h hwithin hroom hdir next
  refine (ensures_write h.toOnDisk hdir).bind ?_ ?_
  · intro stop store' hwrote
    cases hwrote with
    | io => exact ⟨view, h.toOnDisk, hwithin, .refused _, fun _ => h⟩
    | lost => exact ⟨view, h.toOnDisk, hwithin, .refused _, fun hne => absurd rfl hne⟩
    | kept =>
      have hlen := (len_put_state h hwithin hroom hdir next).2
      refine ⟨_, h.toOnDisk.put hdir iid next, ?_, .lagging _ hfollows, fun hne => absurd rfl hne⟩
      rintro _ ⟨⟩
      exact hlen
  · intro _ store' hwrote
    cases hwrote
    exact ensures_bind.mpr (ensures_modify.mpr (ensures_writeFloor hbehind hfollows))

end

theorem ensures_accept :
    Ensures (accept schnorr io iid next) store (Accepts schnorr seed view iid next) := by
  have hsome := h.toOnDisk.isSome_storage
  rw [accept, ensures_bind, ensures_get]
  dsimp only
  rw [if_pos hsome]
  refine (ensures_readDurableCurrent h.toOnDisk).bind ?_ ?_
  · rintro stop store' ⟨rfl, -, -⟩
    exact ⟨view, h.toOnDisk, hwithin, .refused _, fun _ => h⟩
  rintro existing store' ⟨rfl, -, hexisting⟩
  cases hexisting existing rfl
  rw [ensures_bind, ensures_get]
  refine .ofExcept_bind (fun stop _ => ⟨view, h.toOnDisk, hwithin, .refused _, fun _ => h⟩) ?_
  intro _ hadmission
  obtain ⟨hfollows, hroom⟩ := checkAdmission_eq_ok hadmission
  rw [if_pos hsome]
  refine (ensures_commit h hwithin (fun hnone => hroom hnone hsome) hfollows).bind
    (fun _ _ haccepts => haccepts) ?_
  intro _ store₁ hbehind
  have hstate : ((view.put false iid next).put true iid next).get false iid = some next := by
    rw [get_put_of_ne Bool.false_ne_true, get_put_self]
  refine (ensures_remember hbehind.toOnDisk hbehind.counted hstate hbehind.cached).imp ?_
  rintro _ _ ⟨rfl, hstorage, hrep⟩
  exact ⟨_, hrep.toOnDisk, fun dir hdir => hbehind.within dir (hstorage ▸ hdir),
    .complete _ hfollows, fun _ => hrep⟩

end

end AnnounceTrustStore

end Lichen.Node
