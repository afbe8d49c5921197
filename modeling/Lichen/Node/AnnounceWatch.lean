import Lichen.Node.AnnounceRun

namespace Lichen.Node

open Lichen.Core Lichen.Hal Lichen.Lib AnnounceView

open Lichen.Gateway (Schnorr48 sumSchnorr Seed zeroSeed)

structure AnnounceWatch where
  store : AnnounceTrustStore
  up : Bool

inductive AnnounceCall
  | load (iid : Iid) (io : AnnounceIo)
  | accept (iid : Iid) (next : AnnounceTrustState) (io : AnnounceIo)
  | halt
  | restart (fails : Bool)

namespace AnnounceWatch

open AnnounceTrustStore

def fresh (seed : Seed) : AnnounceWatch := ⟨⟨.new, 0, 0, some .empty, some .empty, some seed⟩, true⟩

def record (watch : AnnounceWatch) (floor : Bool) (iid : Iid) : Option AnnounceTrustState := do
  let dir ← watch.store.directory floor
  let data ← dir.files.get (key iid floor)
  (decode (data.take stateBytes)).toOption

def after (ended : Except AnnounceStop α × AnnounceTrustStore) : AnnounceWatch :=
  match ended with
  | (.error .crash, store) => ⟨store, false⟩
  | (_, store) => ⟨store, true⟩

def step (schnorr : Schnorr48) (seed : Seed) (watch : AnnounceWatch) : AnnounceCall → AnnounceWatch
  | .load iid io =>
    if watch.up then after (execute (load schnorr io iid) watch.store) else watch
  | .accept iid next io =>
    if watch.up then after (execute (accept schnorr io iid next) watch.store) else watch
  | .halt => { watch with up := false }
  | .restart fails =>
    match watch.store.storage, watch.store.floorStorage with
    | some storage, some floorStorage =>
      match persistent fails storage floorStorage seed with
      | .ok store => ⟨store, true⟩
      | .error _ => { watch with up := false }
    | _, _ => watch

/-- A sequence that advances the state also advances a floor that lags behind it. -/
def Careful (watch : AnnounceWatch) : AnnounceCall → Prop
  | .accept iid next _ => ∀ state floor, watch.record false iid = some state →
    watch.record true iid = some floor → seqGt next.seq state.seq = true →
      seqGt next.seq floor.seq = true
  | _ => True

variable {schnorr : Schnorr48} {seed : Seed} {watch : AnnounceWatch} {view view' : AnnounceView}
  {iid : Iid} {next : AnnounceTrustState}

structure Inv (schnorr : Schnorr48) (seed : Seed) (watch : AnnounceWatch) (view : AnnounceView) :
    Prop where
  onDisk : OnDisk schnorr seed watch.store view
  within : watch.store.Within
  valid : view.Valid
  represents : watch.up = true → Represents schnorr seed watch.store view

theorem inv_fresh : Inv schnorr seed (fresh seed) ⟨fun _ _ => none⟩ := by
  have hdisk : OnDisk schnorr seed (fresh seed).store ⟨fun _ _ => none⟩ := by
    refine ⟨rfl, fun floor => ⟨.empty, ?_, holds_empty⟩⟩
    cases floor <;> rfl
  refine ⟨hdisk, ?_, nofun, fun _ => ⟨hdisk, nofun, ?_⟩⟩
  · rintro _ ⟨⟩
    exact Nat.zero_le _
  · rintro _ ⟨⟩
    rfl

theorem record_eq (h : OnDisk schnorr seed watch.store view) :
    watch.record floor iid = view.get floor iid := by
  obtain ⟨_, hdir, hholds⟩ := h.directory floor
  rw [record, hdir, Option.bind_eq_bind, Option.bind_some, hholds.record]
  cases view.get floor iid with
  | none => rfl
  | some =>
    rw [Option.map_some, Option.bind_eq_bind, Option.bind_some, sealRecord,
      List.take_left' length_encode, decode_encode]
    rfl

def Pinned (view view' : AnnounceView) : Prop :=
  ∀ iid state, view.get false iid = some state →
    ∃ state', view'.get false iid = some state' ∧ state'.pubkey = state.pubkey

theorem Pinned.of_eq (h : ∀ iid, view'.get false iid = view.get false iid) : Pinned view view' :=
  fun iid state hstate => ⟨state, (h iid).trans hstate, rfl⟩

theorem pinned_put (hfollows : Follows (view.get false iid) next) :
    Pinned view (view.put false iid next) := by
  intro other state hstate
  by_cases hother : other = iid
  · subst hother
    exact ⟨next, get_put_self, (hfollows state hstate).1⟩
  · exact ⟨state, (get_put_other hother).trans hstate, rfl⟩

theorem pinned_of_accepted (h : Accepted view iid next result view') : Pinned view view' := by
  cases h with
  | refused => exact .of_eq fun _ => rfl
  | lagging _ hfollows => exact pinned_put hfollows
  | complete _ hfollows =>
    intro other state hstate
    rw [get_put_of_ne Bool.false_ne_true]
    exact pinned_put hfollows other state hstate

theorem precedes_eq_false (hkey : state.pubkey = floor.pubkey)
    (hseq : seqGt state.seq floor.seq = true) : precedes state floor = false := by
  rw [precedes, hkey, hseq]
  simp

theorem valid_of_accepted (hvalid : view.Valid)
    (hcareful : ∀ state floor, view.get false iid = some state → view.get true iid = some floor →
      seqGt next.seq state.seq = true → seqGt next.seq floor.seq = true)
    (h : Accepted view iid next result view') : view'.Valid := by
  have hother : ∀ other floor, other ≠ iid → view.get true other = some floor →
      ∃ state, (view.put false iid next).get false other = some state ∧
        precedes state floor = false := by
    intro other floor hne hfloor
    rw [get_put_other hne]
    exact hvalid other floor hfloor
  cases h with
  | refused => exact hvalid
  | lagging _ hfollows =>
    intro other floor hfloor
    rw [get_put_of_ne Bool.false_ne_true.symm] at hfloor
    by_cases hne : other = iid
    · subst hne
      obtain ⟨state, hstate, hprecedes⟩ := hvalid other floor hfloor
      obtain ⟨hkey, hseq⟩ := hfollows state hstate
      have hstatekey : state.pubkey = floor.pubkey := by
        simp only [precedes, Bool.or_eq_false_iff, decide_eq_false_iff_not, not_not] at hprecedes
        exact hprecedes.1
      exact ⟨next, get_put_self,
        precedes_eq_false (hkey.trans hstatekey) (hcareful state floor hstate hfloor hseq)⟩
    · exact hother other floor hne hfloor
  | complete =>
    intro other floor hfloor
    rw [get_put_of_ne Bool.false_ne_true]
    by_cases hne : other = iid
    · subst hne
      rw [get_put_self] at hfloor
      cases hfloor
      exact ⟨next, get_put_self, precedes_self⟩
    · rw [get_put_other hne, get_put_other hne] at hfloor
      exact hother other floor hne hfloor

theorem inv_after {store : AnnounceTrustStore}
    (hdisk : OnDisk schnorr seed store view) (hwithin : store.Within) (hvalid : view.Valid)
    (hrep : result ≠ .error .crash → Represents schnorr seed store view) :
    Inv schnorr seed (after (result, store)) view := by
  match result with
  | .ok a => exact ⟨hdisk, hwithin, hvalid, fun _ => hrep nofun⟩
  | .error (.error error) => exact ⟨hdisk, hwithin, hvalid, fun _ => hrep nofun⟩
  | .error .crash => exact ⟨hdisk, hwithin, hvalid, nofun⟩

section

variable (h : Inv schnorr seed watch view)

include h

theorem inv_load (hup : watch.up = true) :
    Answers view iid (execute (load schnorr io iid) watch.store).1 ∧
      ∃ view', Inv schnorr seed (after (execute (load schnorr io iid) watch.store)) view' ∧
        Pinned view view' := by
  have hload : Ensures (load schnorr io iid) watch.store _ :=
    ensures_load (h.represents hup) h.valid
  obtain ⟨hanswer, view', hkept⟩ := ensures_iff_execute.mp hload
  have hrep := hkept.represents
  refine ⟨hanswer, view', inv_after hrep.toOnDisk ?_ hkept.valid fun _ => hrep, .of_eq hkept.state⟩
  intro dir hdir
  exact h.within dir (hkept.storage ▸ hdir)

theorem inv_accept (hup : watch.up = true) (hcareful : watch.Careful (.accept iid next io)) :
    ∃ view', Inv schnorr seed (after (execute (accept schnorr io iid next) watch.store)) view' ∧
      Pinned view view' := by
  have haccept : Ensures (accept schnorr io iid next) watch.store _ :=
    ensures_accept (h.represents hup) h.within
  obtain ⟨view', hdisk, hwithin, haccepted, hrep⟩ := ensures_iff_execute.mp haccept
  refine ⟨view', inv_after hdisk hwithin (valid_of_accepted h.valid ?_ haccepted) hrep,
    pinned_of_accepted haccepted⟩
  intro state floor hstate hfloor
  rw [← record_eq h.onDisk] at hstate hfloor
  exact hcareful state floor hstate hfloor

theorem inv_restart : Inv schnorr seed (watch.step schnorr seed (.restart fails)) view := by
  obtain ⟨storage, hstorage, hholds⟩ := h.onDisk.directory false
  obtain ⟨floorStorage, hfloor, hfloors⟩ := h.onDisk.directory true
  have hstate : watch.store.storage = some storage := hstorage
  have hfloorState : watch.store.floorStorage = some floorStorage := hfloor
  rw [step, hstate, hfloorState]
  cases fails with
  | true => exact ⟨h.onDisk, h.within, h.valid, nofun⟩
  | false =>
    have hdisk : OnDisk schnorr seed ⟨.new, 0, countDurableStateRecords storage, some storage,
        some floorStorage, some seed⟩ view := by
      refine ⟨rfl, fun floor => ?_⟩
      cases floor
      · exact ⟨storage, rfl, hholds⟩
      · exact ⟨floorStorage, rfl, hfloors⟩
    refine ⟨hdisk, ?_, h.valid, fun _ => ⟨hdisk, nofun, ?_⟩⟩
    · rintro _ ⟨⟩
      exact h.within storage hstate
    · rintro _ ⟨⟩
      exact hholds.count

theorem inv_step (hcareful : watch.Careful call) :
    ∃ view', Inv schnorr seed (watch.step schnorr seed call) view' ∧ Pinned view view' := by
  cases call with
  | load iid io =>
    rw [step]
    split
    · exact (inv_load h ‹_›).2
    · exact ⟨view, h, .of_eq fun _ => rfl⟩
  | accept iid next io =>
    rw [step]
    split
    · exact inv_accept h ‹_› hcareful
    · exact ⟨view, h, .of_eq fun _ => rfl⟩
  | halt => exact ⟨view, ⟨h.onDisk, h.within, h.valid, nofun⟩, .of_eq fun _ => rfl⟩
  | restart => exact ⟨view, inv_restart h, .of_eq fun _ => rfl⟩

theorem inv_run (hcalls : Steps Careful (step schnorr seed) watch calls) :
    ∃ view', Inv schnorr seed (run (step schnorr seed) watch calls) view' ∧ Pinned view view' := by
  induction calls generalizing watch view with
  | nil => exact ⟨view, h, .of_eq fun _ => rfl⟩
  | cons call calls ih =>
    obtain ⟨_, h₁, hpinned₁⟩ := inv_step h hcalls.1
    obtain ⟨view₂, h₂, hpinned₂⟩ := ih h₁ hcalls.2
    refine ⟨view₂, h₂, fun iid state hstate => ?_⟩
    obtain ⟨state₁, hstate₁, hkey₁⟩ := hpinned₁ iid state hstate
    obtain ⟨state₂, hstate₂, hkey₂⟩ := hpinned₂ iid state₁ hstate₁
    exact ⟨state₂, hstate₂, hkey₂.trans hkey₁⟩

theorem records_le {iids : List Iid} (hnodup : iids.Nodup)
    (hrecords : ∀ iid ∈ iids, (watch.record false iid).isSome = true) :
    iids.length ≤ maxTrackedOriginators := by
  obtain ⟨dir, hdir, hholds⟩ := h.onDisk.directory false
  have hkeys : (iids.map (key · false)).length ≤ dir.files.len := by
    refine HashMap.length_le_len (hnodup.map_on fun _ _ _ _ heq => key_inj heq) ?_
    intro name hname
    obtain ⟨iid, hiid, rfl⟩ := List.mem_map.mp hname
    have hrecord := hrecords iid hiid
    rw [record_eq h.onDisk] at hrecord
    obtain ⟨_, hstate⟩ := Option.isSome_iff_exists.mp hrecord
    rw [hholds.record, hstate]
    exact ⟨_, rfl⟩
  rw [List.length_map] at hkeys
  exact Nat.le_trans hkeys (h.within dir hdir)

theorem record_of_accept (hup : watch.up = true) {store : AnnounceTrustStore}
    (haccepts : execute (accept schnorr io iid next) watch.store = (.ok (), store)) :
    (∀ state, watch.record false iid = some state →
      next.pubkey = state.pubkey ∧ seqGt next.seq state.seq = true) ∧
    AnnounceWatch.record ⟨store, true⟩ false iid = some next := by
  have haccept : Ensures (accept schnorr io iid next) watch.store _ :=
    ensures_accept (h.represents hup) h.within
  obtain ⟨_, hdisk, -, haccepted, -⟩ := ensures_iff_execute.mp haccept
  rw [haccepts] at hdisk haccepted
  cases haccepted with
  | complete _ hfollows =>
    refine ⟨fun state hstate => hfollows state ((record_eq h.onDisk).symm.trans hstate), ?_⟩
    have hrecord : AnnounceWatch.record ⟨store, true⟩ false iid = _ := record_eq hdisk
    rw [hrecord, get_put_of_ne Bool.false_ne_true, get_put_self]

end

/-- Announce trust over careful runs: keys stay, accepted sequences advance, a load answers with the
state on disk, and the records stay bounded. -/
theorem trust_durable (schnorr : Schnorr48) (seed : Seed) (calls more : List AnnounceCall)
    (hcalls : Steps Careful (step schnorr seed) (fresh seed) (calls ++ more)) :
    let earlier := run (step schnorr seed) (fresh seed) calls
    let watch := run (step schnorr seed) (fresh seed) (calls ++ more)
    (∀ iid state, earlier.record false iid = some state →
      ∃ state', watch.record false iid = some state' ∧ state'.pubkey = state.pubkey) ∧
    (watch.up = true → ∀ iid next io store,
      execute (accept schnorr io iid next) watch.store = (.ok (), store) →
        (∀ state, watch.record false iid = some state →
          next.pubkey = state.pubkey ∧ seqGt next.seq state.seq = true) ∧
        AnnounceWatch.record ⟨store, true⟩ false iid = some next) ∧
    (watch.up = true → ∀ iid io, (execute (load schnorr io iid) watch.store).1 ∈
      [.ok (watch.record false iid), .error (.error .io), .error .crash]) ∧
    ∀ iids : List Iid, iids.Nodup → (∀ iid ∈ iids, (watch.record false iid).isSome = true) →
      iids.length ≤ 64 := by
  intro earlier watch
  obtain ⟨hearlier, hmore⟩ := steps_append.mp hcalls
  obtain ⟨_, hinv, -⟩ := inv_run inv_fresh hearlier
  obtain ⟨_, hinv', hpinned⟩ := inv_run hinv hmore
  rw [← run_append] at hinv'
  refine ⟨?_, ?_, ?_, fun iids hnodup hrecords => records_le hinv' hnodup hrecords⟩
  · intro iid state hstate
    rw [record_eq hinv.onDisk] at hstate
    rw [record_eq hinv'.onDisk]
    exact hpinned iid state hstate
  · intro hup iid next io store haccepts
    exact record_of_accept hinv' hup haccepts
  · intro hup iid io
    obtain hanswer | hanswer | hanswer := (inv_load hinv' hup).1
    · rw [hanswer, record_eq hinv'.onDisk]
      exact List.mem_cons_self
    · rw [hanswer]
      exact List.mem_cons_of_mem _ List.mem_cons_self
    · rw [hanswer]
      exact List.mem_cons_of_mem _ (List.mem_cons_of_mem _ List.mem_cons_self)

def originator : Iid := toArray 8 [1]

def announced (seq : UInt16) : AnnounceTrustState := ⟨toArray 32 [], seq⟩

def steadyIo : AnnounceIo := ⟨fun _ => false, fun _ => .complete, .inserted⟩

def floorFails : AnnounceIo :=
  ⟨fun _ => false, fun floor => if floor then .fails else .complete, .inserted⟩

/-- A floor that was not written, and a restart. -/
theorem trust_durable_of_lag :
    let watch := run (step sumSchnorr zeroSeed) (fresh zeroSeed)
      ([.accept originator (announced 0) steadyIo] ++
        [.accept originator (announced 20000) floorFails, .restart false])
    ∃ state', watch.record false originator = some state' ∧
      state'.pubkey = (announced 0).pubkey := by
  refine (trust_durable sumSchnorr zeroSeed _ _ ?_).1 originator (announced 0) (by decide +kernel)
  refine ⟨nofun, ?_, trivial, trivial⟩
  intro state floor _ hfloor _
  have hrecord : (run (step sumSchnorr zeroSeed) (fresh zeroSeed)
      [.accept originator (announced 0) steadyIo]).record true originator = some (announced 0) := by
    decide +kernel
  cases hrecord.symm.trans hfloor
  decide

/-- Two floors that were not written, with a jump of 20000 each, and the state cannot be loaded. -/
theorem corrupt_of_lagging_floor :
    let watch := run (step sumSchnorr zeroSeed) (fresh zeroSeed)
      [.accept originator (announced 0) steadyIo,
        .accept originator (announced 20000) floorFails,
        .accept originator (announced 40000) floorFails]
    watch.up = true ∧ watch.record false originator = some (announced 40000) ∧
      (execute (load sumSchnorr steadyIo originator) watch.store).1 =
        .error (.error .corrupt) := by
  decide +kernel

end AnnounceWatch

end Lichen.Node
