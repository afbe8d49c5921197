import Lichen.Rpl.AddressTable

namespace Lichen.Rpl

open Lichen.Lib Lichen.Core

variable {c : ShortAddressCoordinator} {table : TableSnapshot} {blob : Bytes} {now : Nat}
  {request : AddressAssignmentRequest} {daoSequence last : UInt8} {eui64 : Eui64} {short : Nat}

def AddressAssignmentStore.Expired (store : AddressAssignmentStore) (now : Nat) (eui64 : Eui64) :
    Prop :=
  ∃ blob table expiry, store.state = some blob ∧ decodeTableState blob = .ok table ∧
    table.expiries.get eui64 = some expiry ∧ expiry ≤ now

namespace ShortAddressCoordinator

theorem Pruned.sequence (hp : Pruned now c c') (hkept : c.isExpired now eui64 = false) :
    c'.lastSequenceByEui.get eui64 = c.lastSequenceByEui.get eui64 := by
  cases hp with
  | kept => rfl
  | published =>
    show (c.lastSequenceByEui.retain _).get eui64 = _
    rw [HashMap.get_retain]
    cases c.lastSequenceByEui.get eui64 <;> simp [Option.filter, hkept]

theorem Pruned.lookupByEui (hp : Pruned now c c') (h : c.Sound)
    (hkept : c.isExpired now eui64 = false) : c'.lookupByEui eui64 = c.lookupByEui eui64 := by
  have h' := hp.sound h
  cases hp with
  | kept => rfl
  | published =>
    apply Option.ext
    intro short
    rw [← h'.inverse, ← h.inverse]
    show (c.byShort.filter _).get short = some eui64 ↔ c.byShort.get short = some eui64
    rw [BTreeMap.get_filter, Option.filter_eq_some_iff]
    simp [hkept]

theorem Outcome.sequence (ho : Outcome request daoSequence c result c') :
    c'.lastSequenceByEui.get eui64 = c.lastSequenceByEui.get eui64 ∨
      request.eui64 = eui64 ∧ (∃ ack, result = .ok ack ∧ ack.status = .success) ∧
        c'.lastSequenceByEui.get eui64 = some daoSequence := by
  have hinsert : (c.lastSequenceByEui.insert request.eui64 daoSequence).get eui64 =
      c.lastSequenceByEui.get eui64 ∨ request.eui64 = eui64 ∧
        (c.lastSequenceByEui.insert request.eui64 daoSequence).get eui64 = some daoSequence := by
    rw [HashMap.get_insert]
    split
    · exact Or.inr ⟨‹eui64 = _›.symm, rfl⟩
    · exact Or.inl rfl
  cases ho with
  | refused | stale | exhausted => exact Or.inl rfl
  | forgotten | released | assigned => exact hinsert.imp_right fun h => ⟨h.1, ⟨_, rfl, rfl⟩, h.2⟩

theorem Outcome.lookupByEui_eq (ho : Outcome request daoSequence c result c')
    (hstale : c.isStale request.eui64 daoSequence = true) :
    c'.lookupByEui request.eui64 = c.lookupByEui request.eui64 := by
  cases ho with
  | refused | stale | exhausted | forgotten => rfl
  | released short blob expiries hfresh | assigned assignments short blob expiries hfresh =>
    exact nomatch hstale.symm.trans hfresh

theorem isStale_of_sequence (hlast : c.lastSequenceByEui.get eui64 = some last)
    (hstale : daoSeqIsNewer daoSequence last = false) : c.isStale eui64 daoSequence = true := by
  rw [isStale, hlast, Option.any_some, hstale]
  rfl

theorem ensures_process_kept (h : c.Sound) (hkept : c.isExpired now eui64 = false) :
    Ensures (process request daoSequence authenticated now) c fun result c' =>
      (c'.lastSequenceByEui.get eui64 = c.lastSequenceByEui.get eui64 ∨
        request.eui64 = eui64 ∧ (∃ ack, result = .ok ack ∧ ack.status = .success) ∧
          c'.lastSequenceByEui.get eui64 = some daoSequence) ∧
      (request.eui64 = eui64 → c.isStale eui64 daoSequence = true →
        c'.lookupByEui eui64 = c.lookupByEui eui64) := by
  refine ensures_process h (fun _ saves => ⟨Or.inl rfl, fun _ _ => rfl⟩) ?_
  intro c₁ result c' hpruned ho
  constructor
  · rw [← hpruned.sequence hkept]
    exact ho.sequence
  · rintro rfl hstale
    rw [← hpruned.lookupByEui h hkept]
    refine ho.lookupByEui_eq ?_
    rwa [isStale, hpruned.sequence hkept]

theorem ensures_pruneExpired_kept (h : c.Sound) :
    Ensures (pruneExpired now) c fun _ c' => c'.Sound ∧ (c.isExpired now eui64 = false →
        c'.lastSequenceByEui.get eui64 = c.lastSequenceByEui.get eui64) := by
  have hpruned : ∀ {c'}, Pruned now c c' → c'.Sound ∧ (c.isExpired now eui64 = false →
        c'.lastSequenceByEui.get eui64 = c.lastSequenceByEui.get eui64) :=
    fun hp => ⟨hp.sound h, hp.sequence⟩
  exact ensures_pruneExpired (hpruned .kept) (fun _ saves => ⟨h.withSaves saves, fun _ => rfl⟩)
    fun _ blob hencode => hpruned (.published blob hencode)

theorem sequence_of_build {store : AddressAssignmentStore} {capacity : Nat} {leaseSeconds : Option Nat}
    (h : build store initial capacity leaseSeconds now = .ok c)
    (hholds : store.Holds eui64 last) (hkept : ¬store.Expired now eui64) :
    c.lastSequenceByEui.get eui64 = some last := by
  obtain ⟨hpersistent, blob, table, _, hstate, hdecode, -, hlast⟩ := hholds
  obtain ⟨_, _, hload, hstart, -, -, hpruned⟩ := of_build h
  rcases of_startTable hload hstart with ⟨blob', -, hstate', hdecode'⟩ | ⟨hnone, -⟩
  · cases hstate.symm.trans hstate'
    cases hdecode.symm.trans hdecode'
    rw [hpruned.sequence]
    · exact hlast
    · rw [isExpired, Option.any_eq_false]
      intro expiry hexpiry
      exact decide_eq_false fun hle => hkept ⟨blob, table, expiry, hstate, hdecode, hexpiry, hle⟩
  · exact nomatch hstate.symm.trans (hnone hpersistent)

end ShortAddressCoordinator

namespace AssignmentSite

/-- The sequence of the request for `eui64` that an event applies: it is answered with success and
is the one that is remembered from then on. -/
def applied (eui64 : Eui64) : AssignmentSite → AssignmentEvent → Option UInt8
  | .up c, .process request daoSequence authenticated now saves =>
    let answer := execute (ShortAddressCoordinator.process request daoSequence authenticated now)
      (c.withSaves saves)
    match answer.1 with
    | .ok ack =>
      if request.eui64 = eui64 ∧ ack.status = .success ∧
          answer.2.lastSequenceByEui.get eui64 = some daoSequence then some daoSequence
      else none
    | .error _ => none
  | _, _ => none

end AssignmentSite

/-- A run together with the sequence of the last request for one EUI-64 that was applied. -/
structure AssignmentWatch where
  site : AssignmentSite
  last : Option UInt8

namespace AssignmentWatch

open ShortAddressCoordinator

def step (eui64 : Eui64) (w : AssignmentWatch) (event : AssignmentEvent) : AssignmentWatch :=
  ⟨w.site.step event, (w.site.applied eui64 event).or w.last⟩

/-- Since the last applied request no lease of `eui64` runs out, and no restart finds it without an
assignment that the store keeps. -/
def Keeps (eui64 : Eui64) (w : AssignmentWatch) (event : AssignmentEvent) : Prop :=
  w.last ≠ none → match event with
    | .process _ _ _ now _ => ∀ c, w.site = .up c → c.isExpired now eui64 = false
    | .pruneExpired now _ => ∀ c, w.site = .up c → c.isExpired now eui64 = false
    | .restart _ _ _ now _ _ => w.site.store.persistent = true ∧
      ¬w.site.store.Expired now eui64 ∧ ∀ c, w.site = .up c → c.lookupByEui eui64 ≠ none

/-- What holds along a run: the sequence of the last applied request is remembered, or stored. -/
structure Remembers (eui64 : Eui64) (w : AssignmentWatch) : Prop where
  up : ∀ c, w.site = .up c → c.Sound ∧
    ∀ last, w.last = some last → c.lastSequenceByEui.get eui64 = some last
  down : ∀ store, w.site = .down store → ∀ last, w.last = some last → store.Holds eui64 last

variable {w : AssignmentWatch} {o : Option UInt8} {authenticated : Eui64} {saves : List Bool}
  {capacity : Nat} {leaseSeconds : Option Nat}

theorem sequence_of_applied (h : AssignmentSite.applied eui64 (.up c)
    (.process request daoSequence authenticated now saves) = some last) :
    (execute (process request daoSequence authenticated now)
      (c.withSaves saves)).2.lastSequenceByEui.get eui64 = some last := by
  simp only [AssignmentSite.applied] at h
  split at h
  · split at h
    · next hcond =>
      cases h
      exact hcond.2.2
    · cases h
  · cases h

theorem applied_eq_some {ack : AddressAssignmentAck} (heui : request.eui64 = eui64)
    (hack : (execute (process request daoSequence authenticated now)
      (c.withSaves saves)).1 = .ok ack) (hsuccess : ack.status = .success)
    (hlast : (execute (process request daoSequence authenticated now)
      (c.withSaves saves)).2.lastSequenceByEui.get eui64 = some daoSequence) :
    AssignmentSite.applied eui64 (.up c) (.process request daoSequence authenticated now saves) =
      some daoSequence := by
  simp only [AssignmentSite.applied, hack]
  exact if_pos ⟨heui, hsuccess, hlast⟩

section

variable (h : Remembers eui64 ⟨.up c, o⟩)

include h

theorem remembers_process
    (hkeeps : Keeps eui64 ⟨.up c, o⟩ (.process request daoSequence authenticated now saves)) :
    Remembers eui64 (step eui64 ⟨.up c, o⟩ (.process request daoSequence authenticated now saves)) := by
  obtain ⟨hsound, hlast⟩ := h.up c rfl
  have hsound' := hsound.withSaves saves
  refine ⟨?_, nofun⟩
  rintro _ ⟨⟩
  refine ⟨(ensures_iff_execute.mp (sound_process hsound' request daoSequence authenticated now)).1,
    fun last heq => ?_⟩
  rcases Option.or_eq_some_iff.mp heq with happlied | ⟨hnone, hsome⟩
  · exact sequence_of_applied happlied
  have hkept : (c.withSaves saves).isExpired now eui64 = false :=
    hkeeps (ne_of_eq_of_ne hsome nofun) c rfl
  obtain ⟨hsame | ⟨heui, ⟨ack, hack, hsuccess⟩, hnew⟩, -⟩ := ensures_iff_execute.mp
    (ensures_process_kept hsound' hkept)
  · exact hsame.trans (hlast last hsome)
  · exact nomatch hnone.symm.trans (applied_eq_some heui hack hsuccess hnew)

theorem remembers_pruneExpired (hkeeps : Keeps eui64 ⟨.up c, o⟩ (.pruneExpired now saves)) :
    Remembers eui64 (step eui64 ⟨.up c, o⟩ (.pruneExpired now saves)) := by
  obtain ⟨hsound, hlast⟩ := h.up c rfl
  refine ⟨?_, nofun⟩
  rintro _ ⟨⟩
  obtain ⟨hsound', hsequence⟩ := ensures_iff_execute.mp
    (ensures_pruneExpired_kept (hsound.withSaves saves))
  refine ⟨hsound', fun last hsome => ?_⟩
  exact (hsequence (hkeeps (ne_of_eq_of_ne hsome nofun) c rfl)).trans (hlast last hsome)

end

theorem remembers_restart (h : Remembers eui64 w)
    (hkeeps : Keeps eui64 w (.restart initial capacity leaseSeconds now readable saves)) :
    Remembers eui64 (w.step eui64 (.restart initial capacity leaseSeconds now readable saves)) := by
  have hholds : ∀ last, w.last = some last → w.site.store.Holds eui64 last ∧
      ¬w.site.store.Expired now eui64 := by
    intro last hsome
    obtain ⟨hpersistent, hkept, hassigned⟩ := hkeeps (ne_of_eq_of_ne hsome (Option.some_ne_none _))
    refine ⟨?_, hkept⟩
    cases hsite : w.site with
    | up c =>
      obtain ⟨short, hshort⟩ := Option.ne_none_iff_exists'.mp (hassigned c hsite)
      obtain ⟨hsound, hlast⟩ := h.up c hsite
      rw [hsite] at hpersistent
      exact hsound.stored hpersistent eui64 last short (hlast last hsome) hshort
    | down store => exact h.down store hsite last hsome
  have happlied : w.site.applied eui64
      (.restart initial capacity leaseSeconds now readable saves) = none := by
    cases w.site <;> rfl
  rw [step, happlied, Option.none_or, AssignmentSite.step]
  split
  · next c hbuild =>
    constructor
    · rintro _ ⟨⟩
      refine ⟨sound_of_build hbuild, fun last hsome => ?_⟩
      obtain ⟨hholds, hkept⟩ := hholds last hsome
      exact sequence_of_build hbuild hholds hkept
    · rintro _ ⟨⟩
  · constructor
    · rintro _ ⟨⟩
    · rintro _ ⟨⟩ last hsome
      exact (hholds last hsome).1

theorem remembers_step (w : AssignmentWatch) (event : AssignmentEvent) (h : Remembers eui64 w)
    (hkeeps : Keeps eui64 w event) : Remembers eui64 (w.step eui64 event) := by
  obtain ⟨site, o⟩ := w
  cases event with
  | restart => exact remembers_restart h hkeeps
  | process =>
    cases site with
    | up => exact remembers_process h hkeeps
    | down => exact h
  | pruneExpired =>
    cases site with
    | up => exact remembers_pruneExpired h hkeeps
    | down => exact h

/-- In a run that keeps the leases of an EUI-64, a stale request leaves its assignment alone. -/
theorem lookupByEui_of_stale {store : AddressAssignmentStore} {events : List AssignmentEvent}
    {eui64 : Eui64} (hrun : Steps (Keeps eui64) (step eui64) ⟨.down store, none⟩ events)
    {request : AddressAssignmentRequest} {daoSequence last : UInt8} {authenticated : Eui64}
    {now : Nat} {saves : List Bool} (hrequest : request.eui64 = eui64)
    (hlast : (run (step eui64) ⟨.down store, none⟩ events).last = some last)
    (hstale : daoSeqIsNewer daoSequence last = false)
    (hkeeps : Keeps eui64 (run (step eui64) ⟨.down store, none⟩ events)
      (.process request daoSequence authenticated now saves)) :
    ((run (step eui64) ⟨.down store, none⟩ events).step eui64
        (.process request daoSequence authenticated now saves)).site.lookupByEui eui64 =
      (run (step eui64) ⟨.down store, none⟩ events).site.lookupByEui eui64 := by
  have hstart : Remembers eui64 ⟨.down store, none⟩ := ⟨nofun, fun _ _ _ => nofun⟩
  have hremembers := run_invariant_of_steps remembers_step hstart events hrun
  generalize run (step eui64) ⟨.down store, none⟩ events = w at hlast hkeeps hremembers ⊢
  cases hsite : w.site with
  | down => rw [step, hsite]; rfl
  | up c =>
    obtain ⟨hsound, hsequence⟩ := hremembers.up c hsite
    have hkept : (c.withSaves saves).isExpired now eui64 = false :=
      hkeeps (ne_of_eq_of_ne hlast nofun) c hsite
    have hstale' : (c.withSaves saves).isStale eui64 daoSequence = true :=
      isStale_of_sequence (hsequence last hlast) hstale
    rw [step, hsite]
    exact (ensures_iff_execute.mp (ensures_process_kept (hsound.withSaves saves) hkept)).2 hrequest
      hstale'

def sampleAllocate (daoSequence : UInt8) (now : Nat) : AssignmentEvent :=
  .process sampleRequest daoSequence sampleEui now []

def sampleRelease (daoSequence : UInt8) : AssignmentEvent :=
  .process ⟨sampleEui, .release, none⟩ daoSequence sampleEui 0 []

theorem lookupByEui_of_old_release :
    ((run (step sampleEui) ⟨.down sampleStore, none⟩ [sampleStart none, sampleAllocate 10 0]).step
        sampleEui (sampleRelease 9)).site.lookupByEui sampleEui =
      (run (step sampleEui) ⟨.down sampleStore, none⟩
        [sampleStart none, sampleAllocate 10 0]).site.lookupByEui sampleEui := by
  have hrun : Steps (Keeps sampleEui) (step sampleEui) ⟨.down sampleStore, none⟩
      [sampleStart none, sampleAllocate 10 0] :=
    ⟨fun h => absurd rfl h, fun h => absurd rfl h, trivial⟩
  have hlast : (run (step sampleEui) ⟨.down sampleStore, none⟩
      [sampleStart none, sampleAllocate 10 0]).last = some 10 := by
    decide +kernel
  refine lookupByEui_of_stale hrun rfl hlast (by decide) ?_
  rintro - _ ⟨⟩
  decide +kernel

/-- Once a release is followed by a restart, or a lease has run out, an old request is applied. -/
theorem stale_allocate_applied :
    ((run (step sampleEui) ⟨.down sampleStore, none⟩
        [sampleStart none, sampleAllocate 10 0, sampleRelease 11, sampleStart none]).last = some 11 ∧
      daoSeqIsNewer 10 11 = false ∧
      (run (step sampleEui) ⟨.down sampleStore, none⟩
        [sampleStart none, sampleAllocate 10 0, sampleRelease 11,
          sampleStart none]).site.lookupByEui sampleEui = none ∧
      ((run (step sampleEui) ⟨.down sampleStore, none⟩
        [sampleStart none, sampleAllocate 10 0, sampleRelease 11, sampleStart none]).step sampleEui
          (sampleAllocate 10 0)).site.lookupByEui sampleEui = some 5) ∧
    (run (step sampleEui) ⟨.down sampleStore, none⟩
        [sampleStart (some 60), sampleAllocate 10 0, .pruneExpired 60 []]).last = some 10 ∧
      daoSeqIsNewer 10 10 = false ∧
      (run (step sampleEui) ⟨.down sampleStore, none⟩
        [sampleStart (some 60), sampleAllocate 10 0, .pruneExpired 60 []]).site.lookupByEui
          sampleEui = none ∧
      ((run (step sampleEui) ⟨.down sampleStore, none⟩
        [sampleStart (some 60), sampleAllocate 10 0, .pruneExpired 60 []]).step sampleEui
          (sampleAllocate 10 61)).site.lookupByEui sampleEui = some 5 := by
  decide +kernel

end AssignmentWatch

end Lichen.Rpl
