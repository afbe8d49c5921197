import Lichen.Lib.Run
import Lichen.Rpl.AddressState

namespace Lichen.Rpl

open Lichen.Lib Lichen.Core BTreeMap

section

variable (store : AddressAssignmentStore)

def AddressAssignmentStore.saved (state : Bytes) :
    AddressAssignmentStore where
  persistent := store.persistent
  state := if store.persistent then some state else store.state
  readable := store.readable
  saves := store.saves.tail

theorem AddressAssignmentStore.save_cases (state : Bytes) :
    store.save state = (true, store.saved state) ∨
      store.save state = (false, { store with saves := store.saves.tail }) := by
  rw [AddressAssignmentStore.save]
  split
  · exact Or.inl rfl
  · exact Or.inr rfl

end

/-- The stored snapshot has an assignment of `eui64` with the sequence `last`. -/
def AddressAssignmentStore.Holds (store : AddressAssignmentStore) (eui64 : Eui64) (last : UInt8) :
    Prop :=
  store.persistent = true ∧ ∃ blob table short, store.state = some blob ∧
    decodeTableState blob = .ok table ∧ table.assignments.get short = some eui64 ∧
    table.sequences.get eui64 = some last

namespace ShortAddressCoordinator

variable {c : ShortAddressCoordinator} {table : TableSnapshot} {blob : Bytes} {now : Nat}
  {request : AddressAssignmentRequest} {daoSequence : UInt8} {eui64 : Eui64} {short : Nat}

section

variable (c : ShortAddressCoordinator)

def withSaves (saves : List Bool) : ShortAddressCoordinator :=
  { c with store := { c.store with saves } }

def published (table : TableSnapshot) (blob : Bytes) :
    ShortAddressCoordinator where
  store := c.store.saved blob
  capacity := c.capacity
  leaseSeconds := c.leaseSeconds
  byShort := table.assignments
  byEui := euiMap table.assignments
  expiresByEui := table.expiries
  lastSequenceByEui := table.sequences

end

structure Sound (c : ShortAddressCoordinator) : Prop where
  oneToOne : OneToOne c.byShort
  inverse : ∀ short eui64, c.lookupByShort short = some eui64 ↔ c.lookupByEui eui64 = some short
  bounded : c.len ≤ c.capacity
  capacity_le : c.capacity ≤ shortPoolSize
  stored : c.store.persistent = true → ∀ eui64 last short, c.lastSequenceByEui.get eui64 = some last →
    c.lookupByEui eui64 = some short → c.store.Holds eui64 last

theorem Sound.withSaves (h : c.Sound) (saves : List Bool) : (c.withSaves saves).Sound :=
  ⟨h.oneToOne, h.inverse, h.bounded, h.capacity_le, h.stored⟩

theorem Sound.published (h : c.Sound) (hencode : encodeTableState table = .ok blob)
    (hlen : table.assignments.len ≤ c.capacity) : (c.published table blob).Sound where
  oneToOne := oneToOne_of_encodeTableState hencode
  inverse _ _ := (get_euiMap (oneToOne_of_encodeTableState hencode)).symm
  bounded := hlen
  capacity_le := h.capacity_le
  stored hpersistent eui64 last short hlast hlookup := by
    have hget := (get_euiMap (oneToOne_of_encodeTableState hencode)).mp hlookup
    obtain ⟨table', hdecode, hrestores⟩ := decodeTableState_encodeTableState hencode
    refine ⟨hpersistent, blob, table', short, if_pos hpersistent, hdecode, ?_, ?_⟩
    · exact (hrestores.assignments short eui64).mpr hget
    · rw [hrestores.sequences short eui64 hget]
      exact hlast

theorem ensures_commit (hfail : ∀ e saves, Q (.error e) (c.withSaves saves))
    (hok : ∀ blob, encodeTableState table = .ok blob → Q (.ok ()) (c.published table blob)) :
    Ensures (commit table) c Q := by
  rw [commit]
  refine .ofExcept_bind (fun e _ => hfail e c.store.saves) fun blob hencode => ?_
  rw [ensures_bind, ensures_get]
  dsimp only
  rw [ensures_bind, ensures_set]
  rcases c.store.save_cases blob with hsave | hsave
  · rw [hsave, ensures_bind, ensures_check]
    exact ⟨nofun, fun _ => ensures_modify.mpr (hok blob hencode)⟩
  · rw [hsave, ensures_bind, ensures_check]
    exact ⟨fun _ => hfail _ _, fun hne => absurd rfl hne⟩

theorem ensures_pruneExpired
    (hnone : Q (.ok 0) c) (hfail : ∀ e saves, Q (.error e) (c.withSaves saves))
    (hok : ∀ n blob, encodeTableState (c.unexpired now) = .ok blob →
      Q (.ok n) (c.published (c.unexpired now) blob)) : Ensures (pruneExpired now) c Q := by
  rw [pruneExpired, ensures_bind, ensures_get]
  dsimp only
  split
  · exact ensures_pure.mpr hnone
  · rw [ensures_bind]
    refine ensures_commit hfail fun blob hencode => ?_
    exact ensures_pure.mpr (hok _ blob hencode)

theorem sound_pruneExpired (h : c.Sound) : Ensures (pruneExpired now) c fun _ c' => c'.Sound := by
  refine ensures_pruneExpired h (fun _ saves => h.withSaves saves) fun _ blob hencode => ?_
  exact h.published hencode ((len_filter_le _ _).trans h.bounded)

section candidate

theorem containsKey_of_fallbackFrom (h : fallbackFrom occupied start remaining offset = none)
    (hi : i < remaining) : occupied.containsKey
      (firstShort + (start - firstShort + (offset + i)) % shortPoolSize) = true := by
  induction remaining generalizing offset i with
  | zero => exact absurd hi (Nat.not_lt_zero i)
  | succ remaining ih =>
    rw [fallbackFrom] at h
    split at h
    · cases i with
      | zero => assumption
      | succ i =>
        have hnext := ih h (Nat.lt_of_succ_lt_succ hi)
        rwa [Nat.add_right_comm offset 1 i] at hnext
    · cases h

theorem len_of_fallback (h : fallback start occupied = none) : shortPoolSize ≤ occupied.len := by
  rw [fallback] at h
  split at h
  · assumption
  have hall : ∀ short ∈ List.range' firstShort shortPoolSize,
      occupied.containsKey short = true := by
    intro short hshort
    obtain ⟨hfirst, hlast⟩ := List.mem_range'_1.mp hshort
    generalize max start firstShort = base at h
    obtain ⟨turn, hlt, hturn⟩ : ∃ turn < shortPoolSize,
        firstShort + (base - firstShort + (0 + turn)) % shortPoolSize = short := by
      refine ⟨(short - firstShort + (shortPoolSize - (base - firstShort) % shortPoolSize)) %
        shortPoolSize, Nat.mod_lt _ (by decide), ?_⟩
      simp only [firstShort, shortPoolSize, lastShort] at hfirst hlast ⊢
      omega
    exact hturn ▸ containsKey_of_fallbackFrom h hlt
  have hlength := length_le_len List.nodup_range' hall
  rwa [List.length_range'] at hlength

theorem len_of_candidate (h : c.candidate eui64 preferred = none) :
    shortPoolSize ≤ c.byShort.len := by
  rw [candidate, Option.or_eq_none_iff] at h
  obtain ⟨-, h⟩ := h
  split at h
  · cases h
  · exact len_of_fallback (Option.or_eq_none_iff.mp h).2

end candidate

theorem ack_eq_ok {ack : AddressAssignmentAck} :
    AddressAssignmentAck.new eui64 operation status assigned daoSequence = .ok ack ↔
      (∀ short, assigned = some short → firstShort ≤ short ∧ short ≤ lastShort) ∧
        decide (operation = .allocate ∧ status = .success) = assigned.isSome ∧
          ⟨eui64, operation, status, assigned, daoSequence⟩ = ack := by
  simp only [AddressAssignmentAck.new, bind_eq_ok, ite_error_eq_ok, Except.ok.injEq, not_not, ne_eq]
  cases assigned with
  | none => simp
  | some => simp only [Option.elim_some, checkShort_eq_ok, exists_const, Option.some.injEq,
      forall_eq']

/-- What a call of `process` does once the leases that have run out are gone. -/
inductive Outcome (request : AddressAssignmentRequest) (daoSequence : UInt8)
    (c : ShortAddressCoordinator) :
    Except AssignmentError AddressAssignmentAck → ShortAddressCoordinator → Prop where
  | refused (e saves) : Outcome request daoSequence c (.error e) (c.withSaves saves)
  | stale (ack : AddressAssignmentAck) (hstale : c.isStale request.eui64 daoSequence = true)
      (hstatus : ack.status ≠ .exhausted)
      (hassigned : ack.status = .success → request.operation = .allocate →
        ∃ short, ack.assignedShort = some short ∧ c.lookupByEui request.eui64 = some short) :
      Outcome request daoSequence c (.ok ack) c
  | exhausted (hfull : c.capacity ≤ c.len) :
      Outcome request daoSequence c
        (.ok ⟨request.eui64, request.operation, .exhausted, none, daoSequence⟩) c
  | forgotten (hoperation : request.operation = .release)
      (hnone : c.lookupByEui request.eui64 = none) :
      Outcome request daoSequence c
        (.ok ⟨request.eui64, request.operation, .success, none, daoSequence⟩)
        { c with lastSequenceByEui := c.lastSequenceByEui.insert request.eui64 daoSequence }
  | released (short blob expiries) (hfresh : c.isStale request.eui64 daoSequence = false)
      (hoperation : request.operation = .release)
      (hencode : encodeTableState ⟨c.byShort.remove short, expiries,
        c.lastSequenceByEui.insert request.eui64 daoSequence⟩ = .ok blob) :
      Outcome request daoSequence c
        (.ok ⟨request.eui64, request.operation, .success, none, daoSequence⟩)
        (c.published ⟨c.byShort.remove short, expiries,
          c.lastSequenceByEui.insert request.eui64 daoSequence⟩ blob)
  | assigned (assignments short blob expiries)
      (hfresh : c.isStale request.eui64 daoSequence = false) (hlen : assignments.len ≤ c.capacity)
      (hget : assignments.get short = some request.eui64)
      (hencode : encodeTableState ⟨assignments, expiries,
        c.lastSequenceByEui.insert request.eui64 daoSequence⟩ = .ok blob) :
      Outcome request daoSequence c
        (.ok ⟨request.eui64, request.operation, .success, some short, daoSequence⟩)
        (c.published ⟨assignments, expiries,
          c.lastSequenceByEui.insert request.eui64 daoSequence⟩ blob)

theorem outcome_answerStale (hstale : c.isStale request.eui64 daoSequence = true) :
    Ensures (answerStale request daoSequence (c.byEui.get request.eui64)) c
      (Outcome request daoSequence c) := by
  refine ensures_ofExcept.mpr ?_
  generalize hack : AddressAssignmentAck.new _ _ _ _ _ = answer
  cases answer with
  | error e => exact .refused e c.store.saves
  | ok =>
    obtain ⟨-, -, rfl⟩ := ack_eq_ok.mp hack
    refine .stale _ hstale ?_ ?_
    · cases request.operation <;> cases c.byEui.get request.eui64 <;> nofun
    · intro hsuccess hoperation
      rw [lookupByEui]
      cases hcurrent : c.byEui.get request.eui64 with
      | none => simp [hoperation, hcurrent] at hsuccess
      | some short => exact ⟨short, by simp [hoperation], rfl⟩

section

variable (hfresh : c.isStale request.eui64 daoSequence = false)

include hfresh

theorem outcome_processRelease (hoperation : request.operation = .release) :
    Ensures (processRelease request daoSequence (c.byEui.get request.eui64)) c
      (Outcome request daoSequence c) := by
  have hack : AddressAssignmentAck.new request.eui64 request.operation .success none daoSequence =
      .ok ⟨request.eui64, request.operation, .success, none, daoSequence⟩ :=
    ack_eq_ok.mpr ⟨nofun, by simp [hoperation], rfl⟩
  rw [processRelease, ensures_bind, releaseCurrent, ensures_bind, ensures_get]
  cases hcurrent : c.byEui.get request.eui64 with
  | none =>
    refine ensures_set.mpr (ensures_ofExcept.mpr ?_)
    rw [hack]
    exact .forgotten hoperation hcurrent
  | some short =>
    refine ensures_commit (fun e saves => .refused e saves) fun blob hencode => ?_
    refine ensures_ofExcept.mpr ?_
    rw [hack]
    exact .released short blob _ hfresh hoperation hencode

theorem outcome_assign (hoperation : request.operation = .allocate)
    (hlen : assignments.len ≤ c.capacity) (hget : assignments.get short = some request.eui64) :
    Ensures (assign request daoSequence assignments short now) c
      (Outcome request daoSequence c) := by
  rw [assign, ensures_bind, ensures_get]
  refine .ofExcept_bind (fun e _ => .refused e c.store.saves) fun expiries _ => ?_
  rw [ensures_bind]
  refine ensures_commit (fun e saves => .refused e saves) fun blob hencode => ?_
  have hrange := (oneToOne_of_encodeTableState hencode).inRange short request.eui64 hget
  refine ensures_ofExcept.mpr ?_
  rw [ack_eq_ok.mpr ⟨?_, ?_, rfl⟩]
  · exact .assigned assignments short blob expiries hfresh hlen hget hencode
  · rintro _ ⟨⟩
    exact hrange
  · simp [hoperation]

theorem outcome_processAllocate (h : c.Sound) (hoperation : request.operation = .allocate) :
    Ensures (processAllocate request daoSequence (c.byEui.get request.eui64) now) c
      (Outcome request daoSequence c) := by
  have hack : AddressAssignmentAck.new request.eui64 request.operation .exhausted none daoSequence =
      .ok ⟨request.eui64, request.operation, .exhausted, none, daoSequence⟩ :=
    ack_eq_ok.mpr ⟨nofun, by simp, rfl⟩
  rw [processAllocate, ensures_bind, ensures_get]
  cases hcurrent : c.byEui.get request.eui64 with
  | some short =>
    exact outcome_assign hfresh hoperation h.bounded ((h.inverse short request.eui64).mpr hcurrent)
  | none =>
    dsimp only
    split
    · refine ensures_ofExcept.mpr ?_
      rw [hack]
      exact .exhausted ‹_›
    · cases hcandidate : c.candidate request.eui64 request.requestedShort with
      | none =>
        refine ensures_ofExcept.mpr ?_
        rw [hack]
        exact .exhausted (h.capacity_le.trans (len_of_candidate hcandidate))
      | some short =>
        refine outcome_assign hfresh hoperation ?_ ?_
        · exact (len_insert_le _ _ _).trans (not_le.mp ‹_›)
        · rw [get_insert, if_pos rfl]

end

inductive Pruned (now : Nat) (c : ShortAddressCoordinator) : ShortAddressCoordinator → Prop where
  | kept : Pruned now c c
  | published (blob : Bytes) (hencode : encodeTableState (c.unexpired now) = .ok blob) :
      Pruned now c (c.published (c.unexpired now) blob)

theorem Pruned.sound (hp : Pruned now c c') (h : c.Sound) : c'.Sound := by
  cases hp with
  | kept => exact h
  | published blob hencode =>
    exact h.published hencode ((len_filter_le _ _).trans h.bounded)

theorem pruned_pruneExpired :
    Ensures (pruneExpired now) c fun result c₁ => ∀ n, result = .ok n → Pruned now c c₁ :=
  ensures_pruneExpired (fun _ _ => .kept) (fun _ _ => nofun) fun _ blob hencode _ _ =>
    .published blob hencode

theorem ensures_pruneExpired_bind {R : Except _ α → _ → Prop}
    (hfail : ∀ e saves, R (.error e) (c.withSaves saves))
    (hok : ∀ n c₁, Pruned now c c₁ → Ensures (k n) c₁ R) : Ensures (pruneExpired now >>= k) c R := by
  rw [ensures_bind]
  exact ensures_pruneExpired (hok 0 c .kept) hfail fun n blob hencode =>
    hok n _ (.published blob hencode)

theorem ensures_process (h : c.Sound) (hrefused : ∀ e saves, R (.error e) (c.withSaves saves))
    (hok : ∀ c₁ result c', Pruned now c c₁ → Outcome request daoSequence c₁ result c' →
      R result c') : Ensures (process request daoSequence authenticated now) c R := by
  rw [process]
  refine .check_bind (hrefused _ c.store.saves) fun _ =>
    ensures_pruneExpired_bind hrefused fun _ c₁ hpruned => ?_
  rw [ensures_bind, ensures_get]
  refine Ensures.imp (Q := Outcome request daoSequence c₁) ?_ fun result c' ho =>
    hok c₁ result c' hpruned ho
  dsimp only
  split
  · exact outcome_answerStale ‹_›
  · have hfresh := Bool.eq_false_iff.mpr ‹_›
    cases hoperation : request.operation with
    | release => exact outcome_processRelease hfresh hoperation
    | allocate => exact outcome_processAllocate hfresh (hpruned.sound h) hoperation

/-- What a request may take from its answer, with the table that the call leaves. -/
structure Answered (request : AddressAssignmentRequest) (ack : AddressAssignmentAck)
    (c : ShortAddressCoordinator) : Prop where
  success : request.operation = .allocate → ack.status = .success →
    ∃ short, ack.assignedShort = some short ∧ c.lookupByEui request.eui64 = some short
  exhausted : ack.status = .exhausted → c.len = c.capacity

theorem Outcome.sound (ho : Outcome request daoSequence c result c') (h : c.Sound) :
    c'.Sound ∧ ∀ ack, result = .ok ack → Answered request ack c' := by
  cases ho with
  | refused e saves => exact ⟨h.withSaves saves, nofun⟩
  | stale ack hstale hstatus hassigned =>
    refine ⟨h, ?_⟩
    rintro _ ⟨⟩
    exact ⟨fun hoperation hsuccess => hassigned hsuccess hoperation, fun he => absurd he hstatus⟩
  | exhausted hfull =>
    refine ⟨h, ?_⟩
    rintro _ ⟨⟩
    exact ⟨nofun, fun _ => le_antisymm h.bounded hfull⟩
  | forgotten hoperation hnone =>
    refine ⟨{ h with stored := fun hpersistent eui64 last short hlast hlookup => ?_ }, ?_⟩
    · refine h.stored hpersistent eui64 last short ?_ hlookup
      rwa [HashMap.get_insert_ne] at hlast
      rintro rfl
      exact nomatch hnone.symm.trans hlookup
    · rintro _ ⟨⟩
      exact ⟨fun hallocate => (nomatch hoperation.symm.trans hallocate), nofun⟩
  | released short blob expiries hfresh hoperation hencode =>
    refine ⟨h.published hencode ((len_filter_le _ _).trans h.bounded), ?_⟩
    rintro _ ⟨⟩
    exact ⟨fun hallocate => (nomatch hoperation.symm.trans hallocate), nofun⟩
  | assigned assignments short blob expiries hfresh hlen hget hencode =>
    have hsound := h.published hencode hlen
    refine ⟨hsound, ?_⟩
    rintro _ ⟨⟩
    exact ⟨fun _ _ => ⟨short, rfl, (hsound.inverse short request.eui64).mp hget⟩, nofun⟩

theorem sound_process (h : c.Sound) (request : AddressAssignmentRequest) (daoSequence : UInt8)
    (authenticated : Eui64) (now : Nat) :
    Ensures (process request daoSequence authenticated now) c fun result c' =>
      c'.Sound ∧ ∀ ack, result = .ok ack → Answered request ack c' :=
  ensures_process h (fun _ saves => ⟨h.withSaves saves, nofun⟩) fun _ _ _ hpruned ho =>
    ho.sound (hpruned.sound h)

section build

variable {store : AddressAssignmentStore} {initial : Option (BTreeMap Eui64)} {capacity : Nat}
  {leaseSeconds : Option Nat}

theorem oneToOne_of_startTable
    (h : startTable stored initial = .ok table) : OneToOne table.assignments := by
  cases stored with
  | some =>
    cases initial with
    | some => cases h
    | none => exact oneToOne_of_decodeTableState h
  | none =>
    cases initial with
    | some =>
      simp only [startTable, bind_eq_ok, pure_eq_ok] at h
      obtain ⟨_, -, assignments, hdecode, rfl⟩ := h
      exact oneToOne_of_decodeAssignmentState hdecode
    | none =>
      cases h
      exact oneToOne_new

theorem sequences_of_startTable_none (h : startTable none initial = .ok table) :
    table.sequences = .new := by
  cases initial with
  | some =>
    simp only [startTable, bind_eq_ok, pure_eq_ok] at h
    obtain ⟨_, -, _, -, rfl⟩ := h
    rfl
  | none =>
    cases h
    rfl

theorem of_startTable (hload : store.load = .ok stored)
    (hstart : startTable stored initial = .ok table) :
    (∃ blob, store.persistent = true ∧ store.state = some blob ∧
      decodeTableState blob = .ok table) ∨
    (store.persistent = true → store.state = none) ∧ table.sequences = .new := by
  simp only [AddressAssignmentStore.load] at hload
  split at hload
  · cases hpersistent : store.persistent with
    | true =>
      simp only [hpersistent, if_true, Except.ok.injEq] at hload
      subst hload
      cases hstate : store.state with
      | some blob =>
        rw [hstate] at hstart
        cases initial with
        | some => cases hstart
        | none => exact Or.inl ⟨blob, rfl, rfl, hstart⟩
      | none =>
        rw [hstate] at hstart
        refine Or.inr ⟨fun _ => rfl, ?_⟩
        exact sequences_of_startTable_none hstart
    | false =>
      simp only [hpersistent, Except.ok.injEq] at hload
      subst hload
      exact Or.inr ⟨nofun, sequences_of_startTable_none hstart⟩
  · cases hload

theorem checkCapacity_eq_ok :
    checkCapacity capacity = .ok u ↔ 1 ≤ capacity ∧ capacity ≤ shortPoolSize := by
  unfold checkCapacity
  split <;> simp [*]

section

variable (h : build store initial capacity leaseSeconds now = .ok c)

include h

theorem of_build : ∃ stored table, store.load = .ok stored ∧ startTable stored initial = .ok table ∧
      table.assignments.len ≤ capacity ∧ capacity ≤ shortPoolSize ∧
      Pruned now ⟨store, capacity, leaseSeconds, table.assignments, euiMap table.assignments,
        table.expiries, table.sequences⟩ c := by
  simp only [build, bind_eq_ok, ite_error_eq_ok, pure_eq_ok] at h
  obtain ⟨_, hcapacity, -, stored, hload, table, hstart, hlen, n, hprune, hc⟩ := h
  refine ⟨stored, table, hload, hstart, not_lt.mp hlen, ?_, ?_⟩
  · exact (checkCapacity_eq_ok.mp hcapacity).2
  · rw [← hc]
    exact ensures_iff_execute.mp pruned_pruneExpired n hprune

theorem sound_of_build : c.Sound := by
  obtain ⟨_, table, hload, hstart, hlen, hcapacity, hpruned⟩ := of_build h
  have hone := oneToOne_of_startTable hstart
  refine hpruned.sound ⟨hone, fun _ _ => (get_euiMap hone).symm, hlen, hcapacity, ?_⟩
  intro hpersistent eui64 last short hlast hlookup
  rcases of_startTable hload hstart with ⟨blob, -, hstate, hdecode⟩ | ⟨-, hnew⟩
  · exact ⟨hpersistent, blob, table, short, hstate, hdecode, (get_euiMap hone).mp hlookup, hlast⟩
  · dsimp only at hlast
    rw [hnew] at hlast
    cases hlast

end

end build

end ShortAddressCoordinator

namespace AssignmentSite

def Sound : AssignmentSite → Prop
  | .up c => c.Sound
  | .down _ => True

theorem sound_step (site : AssignmentSite) (event : AssignmentEvent) (h : site.Sound) :
    (site.step event).Sound := by
  cases event with
  | process request daoSequence authenticated now saves =>
    cases site with
    | up => exact (ensures_iff_execute.mp (ShortAddressCoordinator.sound_process
        (ShortAddressCoordinator.Sound.withSaves h saves) request daoSequence authenticated now)).1
    | down => exact h
  | pruneExpired now saves =>
    cases site with
    | up => exact ensures_iff_execute.mp (ShortAddressCoordinator.sound_pruneExpired
        (ShortAddressCoordinator.Sound.withSaves h saves))
    | down => exact h
  | restart initial capacity leaseSeconds now readable saves =>
    rw [step]
    split
    · exact ShortAddressCoordinator.sound_of_build ‹_›
    · trivial

theorem sound_run (store : AddressAssignmentStore) (events : List AssignmentEvent) :
    (run step (.down store) events).Sound :=
  run_invariant sound_step (show Sound (.down store) from trivial) events

end AssignmentSite

section

open ShortAddressCoordinator

/-- In every run the table is one-to-one, and its answers say what it holds. -/
theorem assignments_one_to_one {store : AddressAssignmentStore} {events : List AssignmentEvent}
    {c : ShortAddressCoordinator} (hup : run AssignmentSite.step (.down store) events = .up c) :
    (∀ short eui64, c.lookupByShort short = some eui64 ↔ c.lookupByEui eui64 = some short) ∧
      (∀ short eui64, c.lookupByShort short = some eui64 → 0x0001 ≤ short ∧ short ≤ 0xFFFD) ∧
      c.len ≤ c.capacity ∧
      ∀ request daoSequence authenticated now saves ack,
        (execute (process request daoSequence authenticated now) (c.withSaves saves)).1 = .ok ack →
          Answered request ack
            (execute (process request daoSequence authenticated now) (c.withSaves saves)).2 := by
  have hsound := AssignmentSite.sound_run store events
  rw [hup] at hsound
  refine ⟨hsound.inverse, hsound.oneToOne.inRange, hsound.bounded, ?_⟩
  intro request daoSequence authenticated now saves
  exact (ensures_iff_execute.mp
    (sound_process (hsound.withSaves saves) request daoSequence authenticated now)).2

def sampleEui : Eui64 := ⟨[0, 0x11, 0x22, 0x33, 0x44, 0x55, 0x66, 0x77], rfl⟩

def sampleStore : AddressAssignmentStore := ⟨true, none, true, []⟩

def sampleStart (leaseSeconds : Option Nat) : AssignmentEvent :=
  .restart none 1 leaseSeconds 0 true []

def sampleCoordinator : ShortAddressCoordinator :=
  ⟨sampleStore, 1, none, .new, .new, .new, .new⟩

def sampleRequest : AddressAssignmentRequest := ⟨sampleEui, .allocate, some 5⟩

theorem allocated_of_empty :
    (execute (process sampleRequest 10 sampleEui 0) (sampleCoordinator.withSaves [])).1 =
        .ok ⟨sampleEui, .allocate, .success, some 5, 10⟩ ∧
      ∃ short, some 5 = some short ∧
        (execute (process sampleRequest 10 sampleEui 0) (sampleCoordinator.withSaves [])).2.lookupByEui
          sampleEui = some short := by
  have hup : run AssignmentSite.step (.down sampleStore) [sampleStart none] =
      .up sampleCoordinator := rfl
  have hack : (execute (process sampleRequest 10 sampleEui 0) (sampleCoordinator.withSaves [])).1 =
      .ok ⟨sampleEui, .allocate, .success, some 5, 10⟩ := by
    decide +kernel
  obtain ⟨-, -, -, hanswered⟩ := assignments_one_to_one hup
  exact ⟨hack, (hanswered sampleRequest 10 sampleEui 0 [] _ hack).success rfl rfl⟩

end

end Lichen.Rpl
