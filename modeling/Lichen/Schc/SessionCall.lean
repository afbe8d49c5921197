import Lichen.Schc.PolicyStep

namespace Lichen.Schc

open Lichen.Lib Lichen.Core FragmentationPolicy FragmentationPolicyEntry

inductive SessionCall where
  | reserveSender (now initialCounter : Nat)
  | reserveReceiver (now initialCounter : Nat)
  | releaseSender (sessionId now highCounter : Nat)
  | releaseReceiver (sessionId now highCounter : Nat) (result : ReceiverResult)
  | touchSender (sessionId nowMs : Nat)
  | touchReceiver (sessionId nowMs counter : Nat)
  | expireReceiver (sessionId nowMs : Nat)
  | abandonSender (sessionId highCounter : Nat)
  | abandonReceiver (sessionId highCounter : Nat)
  | replayReceiverTerminal (counter nowMs : Nat) (payload : Bytes)

inductive Answer where
  | permit (permit : AuthenticatedFragmentationPermit)
  | expired (count : Nat)
  | sender (id : Nat)
  | receiver (id floor : Nat)
  | reply (result : Option ReceiverResult)
  | done

namespace SessionCall

def sessionId : SessionCall → Option Nat
  | reserveSender _ _ | reserveReceiver _ _ | replayReceiverTerminal _ _ _ => none
  | releaseSender id _ _ | releaseReceiver id _ _ _ | touchSender id _ | touchReceiver id _ _
  | expireReceiver id _ | abandonSender id _ | abandonReceiver id _ => some id

def perform (permit : AuthenticatedFragmentationPermit) (ruleId : UInt8) :
    SessionCall → FragmentationPolicy.Op Answer
  | reserveSender now initialCounter =>
    Answer.sender <$> FragmentationPolicy.reserveSender permit ruleId now initialCounter
  | reserveReceiver now initialCounter => (fun granted => Answer.receiver granted.1 granted.2) <$>
    FragmentationPolicy.reserveReceiver permit ruleId now initialCounter
  | releaseSender sessionId now highCounter => (fun _ => Answer.done) <$>
    FragmentationPolicy.releaseSender permit ruleId sessionId now highCounter
  | releaseReceiver sessionId now highCounter result => (fun _ => Answer.done) <$>
    FragmentationPolicy.releaseReceiver permit ruleId sessionId now highCounter result
  | touchSender sessionId nowMs => (fun _ => Answer.done) <$>
    FragmentationPolicy.touchSender permit ruleId sessionId nowMs
  | touchReceiver sessionId nowMs counter => (fun _ => Answer.done) <$>
    FragmentationPolicy.touchReceiver permit ruleId sessionId nowMs counter
  | expireReceiver sessionId nowMs => (fun _ => Answer.done) <$>
    FragmentationPolicy.expireReceiver permit ruleId sessionId nowMs
  | abandonSender sessionId highCounter => (fun _ => Answer.done) <$>
    modify (FragmentationPolicy.abandonSender permit ruleId sessionId highCounter)
  | abandonReceiver sessionId highCounter => (fun _ => Answer.done) <$>
    modify (FragmentationPolicy.abandonReceiver permit ruleId sessionId highCounter)
  | replayReceiverTerminal counter nowMs payload => Answer.reply <$>
    FragmentationPolicy.replayReceiverTerminal permit ruleId counter nowMs payload

def ending : SessionCall → Role → RuleIndex → Ending
  | reserveSender _ _ | reserveReceiver _ _ => lapsed fun _ _ => .default
  | touchSender _ _ | touchReceiver _ _ _ | expireReceiver _ _ => lapsed expiryResult
  | _ => anyEnding

/-- The role, the id and the time of a session that the operation was granted. -/
def granted : SessionCall → Except FragmentError Answer → Option (Role × Nat × Nat)
  | reserveSender now _, .ok (.sender id) => some (.sender, id, now)
  | reserveReceiver now _, .ok (.receiver id _) => some (.receiver, id, now)
  | _, _ => none

/-- The admission floor of a receiver session that the operation was granted. -/
def floor : SessionCall → Except FragmentError Answer → Option Nat
  | reserveReceiver _ _, .ok (.receiver _ floor) => some floor
  | _, _ => none

/-- The counter that the operation made the receiver accept in a session, or observe in the
hold-down after it; `slot` is the slot of the receiver before. -/
def observed (slot : Slot) : SessionCall → Except FragmentError Answer → Option Nat
  | touchReceiver _ _ counter, .ok _ => some counter
  | releaseReceiver _ _ highCounter _, .ok _ => some highCounter
  | abandonReceiver sessionId highCounter, .ok _ =>
    if slot.session.any (·.id = sessionId) then some highCounter else none
  | replayReceiverTerminal counter nowMs _, .ok _ =>
    if slot.tombstone.any (nowMs < ·.untilMs) then some counter else none
  | _, _ => none

end SessionCall

namespace Slot

section

variable (slot : Slot)

def Exclusive : Prop := slot.session = none ∨ slot.tombstone = none

def highCounter : Option Nat :=
  match slot.session with
  | some session => some session.highCounter
  | none => slot.tombstone.map (·.highCounter)

def Covers (counter : Nat) : Prop := ∃ high, slot.highCounter = some high ∧ counter ≤ high

end

theorem covers_session {session : SessionReservation} {slot : Slot}
    (h : slot.session = some session) (hcounter : counter ≤ session.highCounter) :
    slot.Covers counter :=
  ⟨session.highCounter, by rw [highCounter, h], hcounter⟩

theorem covers_tombstone {tombstone : TerminalTombstone}
    (hcounter : counter ≤ tombstone.highCounter) : Covers ⟨none, some tombstone⟩ counter :=
  ⟨tombstone.highCounter, rfl, hcounter⟩

end Slot

namespace FragmentationPolicy

variable {policy : FragmentationPolicy} {permit : AuthenticatedFragmentationPermit} {ruleId : UInt8}
  {index : RuleIndex} {entry entry' : FragmentationPolicyEntry}

def target (policy : FragmentationPolicy) (permit : AuthenticatedFragmentationPermit)
    (ruleId : UInt8) : Option (RuleIndex × FragmentationPolicyEntry) :=
  match ruleIndex ruleId, policy.currentEntry permit with
  | .ok index, some entry => some (index, entry)
  | _, _ => none

theorem target_eq_some : policy.target permit ruleId = some (index, entry) ↔
    ruleIndex ruleId = .ok index ∧ policy.currentEntry permit = some entry := by
  rw [target]
  cases ruleIndex ruleId <;> cases policy.currentEntry permit <;> simp

theorem entryAt_of_currentEntry (h : policy.currentEntry permit = some entry) :
    policy.entryAt permit.slot = some entry := by
  rw [currentEntry] at h
  split at h
  · cases h
  · exact (Option.filter_eq_some_iff.mp h).1

theorem lt_length_of_entryAt (h : policy.entryAt slot = some entry) :
    slot < policy.entries.length :=
  (List.getElem?_eq_some_iff.mp (Option.join_eq_some_iff.mp h)).1

theorem entryAt_setEntry (h : slot < policy.entries.length) :
    (policy.setEntry slot entry).entryAt slot' =
      if slot = slot' then some entry else policy.entryAt slot' := by
  simp only [entryAt, setEntry, List.getElem?_set, h, if_true]
  split <;> rfl

theorem setEntry_self (h : policy.entryAt slot = some entry) : policy.setEntry slot entry = policy := by
  obtain ⟨_, hget⟩ := List.getElem?_eq_some_iff.mp (Option.join_eq_some_iff.mp h)
  rw [setEntry, ← hget, List.set_getElem_self]

theorem entryAt_map (hf : f none = none) :
    entryAt { policy with entries := policy.entries.map f } slot =
      (policy.entryAt slot).bind fun entry => f (some entry) := by
  rw [entryAt, entryAt, List.getElem?_map]
  cases policy.entries[slot]? with
  | none => rfl
  | some entry =>
    cases entry with
    | none => exact hf
    | some => rfl

theorem mem_entries_of_entryAt (h : policy.entryAt slot = some entry) :
    some entry ∈ policy.entries :=
  List.mem_of_getElem? (Option.join_eq_some_iff.mp h)

theorem ensures_withEntry :
    Ensures (withEntry permit op) policy R ↔ match policy.currentEntry permit with
      | none => R (.error .invalidPeerEvidence) policy
      | some entry => Ensures op entry fun r entry' => R r (policy.setEntry permit.slot entry') := by
  rw [ensures_iff_execute, execute, withEntry]
  cases policy.currentEntry permit with
  | none => exact Iff.rfl
  | some entry =>
    simp only [ensures_iff_execute, execute]
    cases op entry <;> exact Iff.rfl

theorem ensures_withEntry_none (h : policy.target permit ruleId = none) :
    Ensures (withEntry permit (ofExcept (ruleIndex ruleId) >>= op)) policy fun r policy' =>
      policy' = policy ∧ ∃ e, r = .error e := by
  rw [ensures_withEntry]
  cases hentry : policy.currentEntry permit with
  | none => exact ⟨rfl, _, rfl⟩
  | some =>
    refine .ofExcept_bind (fun e _ => ?_) fun index hindex => ?_
    · exact ⟨setEntry_self (entryAt_of_currentEntry hentry), e, rfl⟩
    · cases h.symm.trans (target_eq_some.mpr ⟨hindex, hentry⟩)

theorem abandon_of_target_none (h : policy.target permit ruleId = none) (role : Role)
    (result : ReceiverResult) (sessionId highCounter : Nat) :
    abandon permit ruleId role result sessionId highCounter policy = policy := by
  rw [abandon]
  cases hindex : ruleIndex ruleId with
  | error => rfl
  | ok =>
    cases hentry : policy.currentEntry permit with
    | none => rfl
    | some => cases h.symm.trans (target_eq_some.mpr ⟨hindex, hentry⟩)

theorem ensures_withEntry_some (h : policy.target permit ruleId = some (index, entry))
    (hop : Ensures (op index) entry Q) :
    Ensures (withEntry permit (ofExcept (ruleIndex ruleId) >>= op)) policy fun r policy' =>
      ∃ entry', policy' = policy.setEntry permit.slot entry' ∧ Q r entry' := by
  obtain ⟨hindex, hentry⟩ := target_eq_some.mp h
  rw [ensures_withEntry, hentry, hindex]
  exact hop.imp fun r entry' hQ => ⟨entry', rfl, hQ⟩

end FragmentationPolicy

namespace SessionCall

structure Outcome (call : SessionCall) (index : RuleIndex) (entry : FragmentationPolicyEntry)
    (r : Except FragmentError Answer) (entry' : FragmentationPolicyEntry) : Prop where
  moves : entry.Moves call.ending entry'
  stale : ∀ id, call.sessionId = some id → (∀ role, ¬entry.Names role index id) →
    entry'.slots = entry.slots
  granted : ∀ role id now, call.granted r = some (role, id, now) →
    (entry.slots role index).session = none ∧ id = entry.nextSessionId ∧ entry'.lastNowMs = now ∧
      ∃ expiresAtMs high, entry'.slots role index = ⟨some ⟨id, expiresAtMs, high⟩, none⟩
  floor : ∀ floor, call.floor r = some floor → (entry.slots .receiver index).session = none ∧
    ∃ id expiresAtMs, entry'.slots .receiver index = ⟨some ⟨id, expiresAtMs, floor⟩, none⟩
  observed : ∀ counter, (entry.slots .receiver index).Exclusive →
    call.observed (entry.slots .receiver index) r = some counter →
    (entry'.slots .receiver index).Covers counter

section

variable {entry : FragmentationPolicyEntry} {index : RuleIndex} {sessionId : Nat}

theorem outcome_reserveSender :
    Ensures (FragmentationPolicyEntry.reserve .sender (fun _ => initialCounter) index now) entry
      fun r entry' => Outcome (.reserveSender now initialCounter) index entry
        (r.map fun granted => .sender granted.1) entry' := by
  refine (ensures_reserve _ (by nofun)).imp fun r entry' ⟨hmoves, hok⟩ => ?_
  refine ⟨hmoves, nofun, fun role id time hgranted => ?_, nofun, nofun⟩
  cases r with
  | error => cases hgranted
  | ok a =>
    cases hgranted
    obtain ⟨hfree, rfl, htime, expiresAtMs, hslot⟩ := hok a rfl
    exact ⟨hfree, rfl, htime, expiresAtMs, _, hslot⟩

theorem outcome_reserveReceiver :
    Ensures (FragmentationPolicyEntry.reserve .receiver (fun tombstone => match tombstone with
        | some tombstone => max tombstone.highCounter initialCounter
        | none => initialCounter) index now) entry
      fun r entry' => Outcome (.reserveReceiver now initialCounter) index entry
        (r.map fun granted => .receiver granted.1 granted.2) entry' := by
  refine (ensures_reserve _ fun _ _ => Nat.le_max_left _ _).imp fun r entry' ⟨hmoves, hok⟩ => ?_
  refine ⟨hmoves, nofun, fun role id time hgranted => ?_, fun floor h => ?_, nofun⟩
  · cases r with
    | error => cases hgranted
    | ok a =>
      cases hgranted
      obtain ⟨hfree, rfl, htime, expiresAtMs, hslot⟩ := hok a rfl
      exact ⟨hfree, rfl, htime, expiresAtMs, _, hslot⟩
  · cases r with
    | error => cases h
    | ok a =>
      cases h
      obtain ⟨hfree, _, _, hslot⟩ := hok a rfl
      exact ⟨hfree, _, hslot⟩

theorem outcome_releaseSender :
    Ensures (FragmentationPolicyEntry.release .sender (fun _ => highCounter) .default index
        sessionId now) entry
      fun r entry' => Outcome (.releaseSender sessionId now highCounter) index entry
        (r.map fun _ => .done) entry' := by
  refine (ensures_release _ (by nofun)).imp fun r entry' ⟨hmoves, hstale, _⟩ => ?_
  refine ⟨hmoves, ?_, nofun, nofun, nofun⟩
  rintro _ ⟨⟩ hnames
  exact hstale (hnames .sender)

theorem outcome_releaseReceiver : Ensures (FragmentationPolicyEntry.release .receiver
        (fun session => max highCounter session.highCounter) { result with packetLen := none }
        index sessionId now) entry
      fun r entry' => Outcome (.releaseReceiver sessionId now highCounter result) index entry
        (r.map fun _ => .done) entry' := by
  refine (ensures_release _ fun _ _ => Nat.le_max_right _ _).imp
    fun r entry' ⟨hmoves, hstale, hok⟩ => ?_
  refine ⟨hmoves, ?_, nofun, nofun, fun counter _ hobserved => ?_⟩
  · rintro _ ⟨⟩ hnames
    exact hstale (hnames .receiver)
  · cases r with
    | error => cases hobserved
    | ok =>
      cases hobserved
      obtain ⟨session, _, hslot⟩ := hok rfl
      rw [hslot]
      exact Slot.covers_tombstone (Nat.le_max_left _ _)

theorem outcome_touchSender :
    Ensures (FragmentationPolicyEntry.touch .sender id index sessionId nowMs) entry
      fun r entry' => Outcome (.touchSender sessionId nowMs) index entry
        (r.map fun _ => .done) entry' := by
  refine (ensures_touch (by nofun)).imp fun r entry' ⟨hmoves, hstale, _⟩ => ?_
  refine ⟨hmoves, ?_, nofun, nofun, nofun⟩
  rintro _ ⟨⟩ hnames
  exact hstale (hnames .sender)

theorem outcome_touchReceiver :
    Ensures (FragmentationPolicyEntry.touch .receiver (max · counter) index sessionId nowMs) entry
      fun r entry' => Outcome (.touchReceiver sessionId nowMs counter) index entry
        (r.map fun _ => .done) entry' := by
  refine (ensures_touch fun _ _ => Nat.le_max_left _ _).imp fun r entry' ⟨hmoves, hstale, hok⟩ => ?_
  refine ⟨hmoves, ?_, nofun, nofun, fun counter _ hobserved => ?_⟩
  · rintro _ ⟨⟩ hnames
    exact hstale (hnames .receiver)
  · cases r with
    | error => cases hobserved
    | ok =>
      cases hobserved
      obtain ⟨_, _, hsession⟩ := hok rfl
      exact Slot.covers_session hsession (Nat.le_max_right _ _)

theorem outcome_expireReceiver :
    Ensures (FragmentationPolicyEntry.expireReceiver index sessionId nowMs) entry
      fun r entry' => Outcome (.expireReceiver sessionId nowMs) index entry
        (r.map fun _ => .done) entry' := by
  refine ensures_expireReceiver.imp fun r entry' ⟨hmoves, hstale⟩ => ?_
  refine ⟨hmoves, ?_, nofun, nofun, nofun⟩
  rintro _ ⟨⟩ hnames
  exact hstale (hnames .receiver)

theorem outcome_abandonSender :
    Outcome (.abandonSender sessionId highCounter) index entry (.ok .done)
      (entry.abandon .sender result index sessionId highCounter) := by
  refine ⟨abandon_step _, ?_, nofun, nofun, nofun⟩
  rintro _ ⟨⟩ hnames
  rw [abandon_of_not_names _ (hnames .sender)]

theorem outcome_abandonReceiver :
    Outcome (.abandonReceiver sessionId highCounter) index entry (.ok .done)
      (entry.abandon .receiver result index sessionId highCounter) := by
  refine ⟨abandon_step _, ?_, nofun, nofun, fun counter _ hobserved => ?_⟩
  · rintro _ ⟨⟩ hnames
    rw [abandon_of_not_names _ (hnames .receiver)]
  · obtain ⟨hany, ⟨⟩⟩ := Option.ite_none_right_eq_some.mp hobserved
    obtain ⟨session, hsession, hid⟩ := (Option.any_eq_true _ _).mp hany
    obtain ⟨_, _, hslot⟩ := abandon_of_names result ⟨session, hsession, of_decide_eq_true hid⟩
    rw [hslot]
    exact Slot.covers_tombstone (Nat.le_max_right _ _)

theorem outcome_replayReceiverTerminal :
    Ensures (FragmentationPolicyEntry.replayReceiverTerminal index ruleId counter nowMs payload)
      entry fun r entry' => Outcome (.replayReceiverTerminal counter nowMs payload) index entry
        (r.map .reply) entry' := by
  refine ensures_replayReceiverTerminal.imp fun r entry' ⟨hmoves, hok⟩ => ?_
  refine ⟨hmoves, nofun, nofun, nofun, fun counter hexclusive hobserved => ?_⟩
  cases r with
  | error => cases hobserved
  | ok reply =>
    obtain ⟨hany, ⟨⟩⟩ := Option.ite_none_right_eq_some.mp hobserved
    obtain ⟨tombstone, htombstone, huntil⟩ := (Option.any_eq_true _ _).mp hany
    have hsession : (entry.slots .receiver index).session = none :=
      hexclusive.resolve_right fun h => nomatch h.symm.trans htombstone
    rw [hok reply tombstone rfl htombstone (of_decide_eq_true huntil), hsession]
    exact Slot.covers_tombstone le_rfl

variable {policy : FragmentationPolicy} {permit : AuthenticatedFragmentationPermit} {ruleId : UInt8}

theorem granted_error (call : SessionCall) (e : FragmentError) : call.granted (.error e) = none := by
  cases call <;> rfl

theorem ensures_perform_none (h : policy.target permit ruleId = none) (call : SessionCall) :
    Ensures (call.perform permit ruleId) policy fun r policy' =>
      policy' = policy ∧ call.granted r = none := by
  have hfail : ∀ {α : Type} (f : α → Answer) (op : RuleIndex → FragmentationPolicyEntry.Op α),
      Ensures (f <$> FragmentationPolicy.withEntry permit (ofExcept (ruleIndex ruleId) >>= op))
        policy fun r policy' => policy' = policy ∧ call.granted r = none := by
    intro α f op
    rw [ensures_map]
    refine (ensures_withEntry_none h).imp ?_
    rintro _ _ ⟨hpolicy, e, rfl⟩
    exact ⟨hpolicy, granted_error call e⟩
  cases call with
  | abandonSender | abandonReceiver =>
    rw [perform, ensures_map, ensures_modify]
    exact ⟨abandon_of_target_none h _ _ _ _, rfl⟩
  | reserveSender | reserveReceiver | releaseSender | releaseReceiver | touchSender | touchReceiver
  | expireReceiver | replayReceiverTerminal => exact hfail _ _

section

variable (h : policy.target permit ruleId = some (index, entry))

include h

theorem ensures_perform_some : Ensures (call.perform permit ruleId) policy fun r policy' =>
      ∃ entry', policy' = policy.setEntry permit.slot entry' ∧
        Outcome call index entry r entry' := by
  obtain ⟨hindex, hentry⟩ := target_eq_some.mp h
  cases call with
  | reserveSender =>
    refine ensures_map.mpr (ensures_withEntry_some h ?_)
    exact outcome_reserveSender.bind (fun e _ h => h) fun a _ h =>
      ensures_pure.mpr h
  | reserveReceiver => exact ensures_map.mpr (ensures_withEntry_some h outcome_reserveReceiver)
  | releaseSender => exact ensures_map.mpr (ensures_withEntry_some h outcome_releaseSender)
  | releaseReceiver => exact ensures_map.mpr (ensures_withEntry_some h outcome_releaseReceiver)
  | touchSender => exact ensures_map.mpr (ensures_withEntry_some h outcome_touchSender)
  | touchReceiver => exact ensures_map.mpr (ensures_withEntry_some h outcome_touchReceiver)
  | expireReceiver => exact ensures_map.mpr (ensures_withEntry_some h outcome_expireReceiver)
  | abandonSender =>
    rw [perform, ensures_map, ensures_modify, FragmentationPolicy.abandonSender,
      FragmentationPolicy.abandon, hindex, hentry]
    exact ⟨_, rfl, outcome_abandonSender⟩
  | abandonReceiver =>
    rw [perform, ensures_map, ensures_modify, FragmentationPolicy.abandonReceiver,
      FragmentationPolicy.abandon, hindex, hentry]
    exact ⟨_, rfl, outcome_abandonReceiver⟩
  | replayReceiverTerminal =>
    exact ensures_map.mpr (ensures_withEntry_some h outcome_replayReceiverTerminal)

theorem ensures_outcome : Ensures (call.perform permit ruleId) policy fun r policy' =>
      policy.entryAt permit.slot = some entry ∧
      ∃ entry', policy'.entryAt permit.slot = some entry' ∧ Outcome call index entry r entry' := by
  have hentry := entryAt_of_currentEntry (target_eq_some.mp h).2
  refine (ensures_perform_some h).imp ?_
  rintro r _ ⟨entry', rfl, houtcome⟩
  refine ⟨hentry, entry', ?_, houtcome⟩
  rw [entryAt_setEntry (lt_length_of_entryAt hentry), if_pos rfl]

end

end

end SessionCall

end Lichen.Schc
