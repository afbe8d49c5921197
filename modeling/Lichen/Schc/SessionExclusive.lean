import Lichen.Lib.Run
import Lichen.Schc.PolicyRun

namespace Lichen.Schc

open Lichen.Lib Lichen.Core FragmentationPolicy FragmentationPolicyEntry List

inductive SessionEvent where
  | granted (role : Role) (index : RuleIndex) (id time : Nat)
  | ended (role : Role) (index : RuleIndex) (id time : Nat)
  deriving DecidableEq

def Call.granted (policy : FragmentationPolicy) (slot : Nat) (r : Except FragmentError Answer) :
    Call → Option SessionEvent
  | session permit ruleId call =>
    if permit.slot = slot then
      match policy.target permit ruleId, call.granted r with
      | some (index, _), some (role, id, time) => some (.granted role index id time)
      | _, _ => none
    else none
  | _ => none

namespace FragmentationPolicyEntry

def ended (entry entry' : FragmentationPolicyEntry) : List SessionEvent :=
  visits.filterMap fun visit => match (entry.slots visit.1 visit.2).session with
    | none => none
    | some session =>
      if (entry'.slots visit.1 visit.2).session.any (·.id = session.id) then none
      else some (.ended visit.1 visit.2 session.id entry'.lastNowMs)

structure Numbered (entry : FragmentationPolicyEntry) : Prop where
  lt : ∀ role index id, entry.Names role index id → id < entry.nextSessionId
  distinct : ∀ role index role' index' id, entry.Names role index id → entry.Names role' index' id →
    role = role' ∧ index = index'

/-- The hold-down of a session of this role and rule that ended at `time` is over, or lasts, or no
session is granted any more. -/
def Held (entry : FragmentationPolicyEntry) (role : Role) (index : RuleIndex) (time : Nat) : Prop :=
  time ≤ entry.lastNowMs ∧ (Spent entry.lastNowMs entry.nextSessionId ∨
    time + fragmentTombstoneMillis ≤ entry.lastNowMs ∨
    ∃ tombstone, (entry.slots role index).tombstone = some tombstone ∧
      time + fragmentTombstoneMillis ≤ tombstone.untilMs)

variable {due : Role → RuleIndex → Prop} {entry entry' : FragmentationPolicyEntry} {role : Role}
  {index : RuleIndex} {id time : Nat}

theorem names_iff : entry.Names role index id ↔
    (entry.slots role index).session.any (·.id = id) := by
  rw [Names, Option.any_eq_true]
  simp only [decide_eq_true_iff]

theorem mem_visits : (role, index) ∈ visits := by
  cases role <;> cases index <;> decide

theorem mem_ended : event ∈ entry.ended entry' ↔
    ∃ role index id, event = .ended role index id entry'.lastNowMs ∧ entry.Names role index id ∧
      ¬entry'.Names role index id := by
  rw [ended, mem_filterMap]
  constructor
  · rintro ⟨⟨role, index⟩, _, hevent⟩
    cases hsession : (entry.slots role index).session with
    | none =>
      rw [hsession] at hevent
      cases hevent
    | some session =>
      rw [hsession] at hevent
      obtain ⟨hgone, ⟨⟩⟩ := Option.ite_none_left_eq_some.mp hevent
      exact ⟨role, index, session.id, rfl, ⟨session, hsession, rfl⟩, fun h => hgone (names_iff.mp h)⟩
  · rintro ⟨role, index, _, rfl, ⟨session, hsession, rfl⟩, hgone⟩
    refine ⟨(role, index), mem_visits, ?_⟩
    rw [hsession]
    exact if_neg fun h => hgone (names_iff.mpr h)

section

variable (h : Step due ending entry entry')

include h

theorem Step.names (hnames : entry'.Names role index id) :
    entry.Names role index id ∨ (Grants entry entry' role index ∧ id = entry.nextSessionId) := by
  obtain ⟨session, hsession, rfl⟩ := hnames
  refine ((h.slots role index).session hsession).imp_right fun ⟨hnone, hid⟩ => ⟨⟨hnone, ?_⟩, hid⟩
  rw [hsession]
  exact Option.some_ne_none session

theorem Step.numbered (hnumbered : entry.Numbered) : entry'.Numbered := by
  refine ⟨fun role index id hnames => ?_, fun role index role' index' id hnames hnames' => ?_⟩
  · obtain hbefore | ⟨hgrants, rfl⟩ := h.names hnames
    · exact (hnumbered.lt role index id hbefore).trans_le h.ids
    · exact h.grant_lt role index hgrants
  · obtain hbefore | ⟨hgrants, rfl⟩ := h.names hnames
    · obtain hbefore' | ⟨_, rfl⟩ := h.names hnames'
      · exact hnumbered.distinct role index role' index' id hbefore hbefore'
      · exact absurd (hnumbered.lt role index _ hbefore) (lt_irrefl _)
    · obtain hbefore' | ⟨hgrants', _⟩ := h.names hnames'
      · exact absurd (hnumbered.lt role' index' _ hbefore') (lt_irrefl _)
      · exact h.grant_unique role index role' index' hgrants hgrants'

theorem Step.not_names (hlt : id < entry.nextSessionId)
    (hnames : ¬entry.Names role index id) : ¬entry'.Names role index id := by
  intro hafter
  obtain hbefore | ⟨_, rfl⟩ := h.names hafter
  · exact hnames hbefore
  · exact lt_irrefl _ hlt

theorem Step.held (hheld : entry.Held role index time) : entry'.Held role index time := by
  obtain ⟨htime, hheld⟩ := hheld
  refine ⟨htime.trans h.time, ?_⟩
  obtain hspent | hover | ⟨tombstone, htombstone, huntil⟩ := hheld
  · exact .inl (hspent.mono h.time h.ids)
  · exact .inr (.inl (hover.trans h.time))
  · obtain hspent | hdue | ⟨after, hafter, hsame | hnew⟩ := (h.slots role index).tombstone htombstone
    · exact .inl (hspent.mono le_rfl h.ids)
    · exact .inr (.inl (huntil.trans hdue))
    · exact .inr (.inr ⟨after, hafter, hsame ▸ huntil⟩)
    · refine (spent_or_le_saturatingAdd (htime.trans h.time) _).imp_right fun hle => .inr ?_
      exact ⟨after, hafter, hnew ▸ hle⟩

theorem Step.held_of_ended (hbefore : entry.Names role index id)
    (hafter : ¬entry'.Names role index id) : entry'.Held role index entry'.lastNowMs := by
  obtain ⟨_, hsession, rfl⟩ := hbefore
  obtain hstays | ⟨tombstone, htombstone, huntil⟩ :=
    (h.slots role index).session_or_tombstone hsession
  · exact absurd hstays hafter
  · refine ⟨le_rfl, (spent_or_le_saturatingAdd le_rfl _).imp_right fun hle => .inr ?_⟩
    exact ⟨tombstone, htombstone, huntil ▸ hle⟩

theorem Step.held_over (hgrants : Grants entry entry' role index)
    (hheld : entry.Held role index time) : time + fragmentTombstoneMillis ≤ entry'.lastNowMs := by
  obtain ⟨hspent, hfree⟩ := (h.slots role index).free_of_grant hgrants.1 hgrants.2
  obtain ⟨_, hspent' | hover | ⟨tombstone, htombstone, huntil⟩⟩ := hheld
  · exact absurd (hspent'.mono h.time le_rfl) hspent
  · exact hover.trans h.time
  · exact huntil.trans (hfree tombstone htombstone)

end

end FragmentationPolicyEntry

namespace Call

variable {policy : FragmentationPolicy} {slot : Nat}

theorem ensures_granted (call : Call) (policy : FragmentationPolicy) (slot : Nat) :
    Ensures call.perform policy fun r policy' => ∀ event, call.granted policy slot r = some event →
      ∀ entry entry', policy.entryAt slot = some entry → policy'.entryAt slot = some entry' →
        ∃ role index, event = .granted role index entry.nextSessionId entry'.lastNowMs ∧
          (entry.slots role index).session = none ∧
          entry'.Names role index entry.nextSessionId := by
  cases call with
  | acceptPeer | retirePeer | expireDue => exact ensures_iff_execute.mpr nofun
  | session permit ruleId call =>
    cases htarget : policy.target permit ruleId with
    | none =>
      refine (SessionCall.ensures_perform_none htarget call).imp fun r policy' _ event hevent => ?_
      rw [granted, htarget] at hevent
      split at hevent <;> cases hevent
    | some target =>
      obtain ⟨index, current⟩ := target
      refine (SessionCall.ensures_outcome htarget).imp ?_
      rintro r policy' ⟨hcurrent, current', hcurrent', houtcome⟩ event hevent entry entry'
        hentry hentry'
      rw [granted, htarget] at hevent
      obtain ⟨rfl, hsession⟩ := Option.ite_none_right_eq_some.mp hevent
      cases hcurrent.symm.trans hentry
      cases hcurrent'.symm.trans hentry'
      cases hgranted : call.granted r with
      | none =>
        rw [hgranted] at hsession
        cases hsession
      | some session =>
        obtain ⟨role, id, time⟩ := session
        rw [hgranted] at hsession
        cases hsession
        obtain ⟨hfree, rfl, rfl, expiresAtMs, high, hslot⟩ := houtcome.granted role id time hgranted
        refine ⟨role, index, rfl, hfree, ?_⟩
        rw [FragmentationPolicyEntry.Names, hslot]
        exact ⟨_, rfl, rfl⟩

end Call

def sessionEvents (slot : Nat) (policy : FragmentationPolicy) (call : Call)
    (r : Except FragmentError Answer) (entry entry' : FragmentationPolicyEntry) :
    List SessionEvent :=
  (call.granted policy slot r).toList ++ entry.ended entry'

def grantedIds (log : List SessionEvent) : List Nat :=
  log.filterMap fun event => match event with
    | .granted _ _ id _ => some id
    | .ended _ _ _ _ => none

def Live (log : List SessionEvent) (role : Role) (index : RuleIndex) (id : Nat) : Prop :=
  (∃ time, .granted role index id time ∈ log) ∧ ∀ time, .ended role index id time ∉ log

def Ended (log : List SessionEvent) (id : Nat) : Prop :=
  ∃ role index time, .ended role index id time ∈ log

/-- A session is granted only after the hold-down of an earlier one of the same role and rule. -/
def HoldDown (later earlier : SessionEvent) : Prop :=
  ∀ role index id time id' time', earlier = .ended role index id time →
    later = .granted role index id' time' → time + 60000 ≤ time'

structure Recorded (entry : FragmentationPolicyEntry) (log : List SessionEvent) : Prop where
  numbered : entry.Numbered
  live : ∀ role index id, Live log role index id → entry.Names role index id
  granted : ∀ id ∈ grantedIds log, id < entry.nextSessionId
  nodup : (grantedIds log).Nodup
  ended : ∀ role index id time, .ended role index id time ∈ log →
    id < entry.nextSessionId ∧ (∀ role index, ¬entry.Names role index id) ∧
      entry.Held role index time
  holdDown : log.Pairwise HoldDown

namespace Recorded

variable {entry : FragmentationPolicyEntry} {role : Role} {index : RuleIndex}

theorem fresh (peer : AuthenticatedPeerSchcContext) (generation nowMs : Nat) :
    Recorded (freshEntry peer generation nowMs) [] := by
  have hnames : ∀ role index id, ¬(freshEntry peer generation nowMs).Names role index id := by
    rintro role index id ⟨_, ⟨⟩, _⟩
  refine ⟨⟨fun role index id h => absurd h (hnames role index id),
    fun role index _ _ id h => absurd h (hnames role index id)⟩, ?_, nofun, .nil, nofun, .nil⟩
  rintro _ _ _ ⟨⟨_, ⟨⟩⟩, _⟩

theorem grantedIds_append : grantedIds (entry.ended entry' ++ log) = grantedIds log := by
  rw [grantedIds, grantedIds, filterMap_append, filterMap_eq_nil_iff.mpr, nil_append]
  intro event hevent
  obtain ⟨_, _, _, rfl, _⟩ := mem_ended.mp hevent
  rfl

theorem ends (h : Recorded entry log) (hstep : entry.Step due ending entry') :
    Recorded entry' (entry.ended entry' ++ log) := by
  have hquiet : ∀ later ∈ entry.ended entry', ∀ earlier, HoldDown later earlier := by
    intro later hlater earlier _ _ _ _ _ _ _ hgranted
    obtain ⟨_, _, _, rfl, _⟩ := mem_ended.mp hlater
    cases hgranted
  refine ⟨hstep.numbered h.numbered, ?_, ?_, ?_, ?_, ?_⟩
  · rintro role index id ⟨⟨time, hgranted⟩, hended⟩
    obtain hgranted | hgranted := mem_append.mp hgranted
    · obtain ⟨_, _, _, ⟨⟩, _⟩ := mem_ended.mp hgranted
    · have hbefore : entry.Names role index id :=
        h.live role index id ⟨⟨time, hgranted⟩, fun t ht => hended t (mem_append_right _ ht)⟩
      by_contra hafter
      refine hended entry'.lastNowMs (mem_append_left _ ?_)
      exact mem_ended.mpr ⟨role, index, id, rfl, hbefore, hafter⟩
  · rw [grantedIds_append]
    exact fun id hid => (h.granted id hid).trans_le hstep.ids
  · rw [grantedIds_append]
    exact h.nodup
  · intro role index id time hended
    obtain hended | hended := mem_append.mp hended
    · obtain ⟨_, _, _, ⟨⟩, hbefore, hafter⟩ := mem_ended.mp hended
      have hlt := h.numbered.lt role index id hbefore
      refine ⟨hlt.trans_le hstep.ids, fun role' index' hnames => ?_,
        hstep.held_of_ended hbefore hafter⟩
      obtain hbefore' | ⟨_, rfl⟩ := hstep.names hnames
      · obtain ⟨rfl, rfl⟩ := h.numbered.distinct role index role' index' id hbefore hbefore'
        exact hafter hnames
      · exact lt_irrefl _ hlt
    · obtain ⟨hlt, hnames, hheld⟩ := h.ended role index id time hended
      exact ⟨hlt.trans_le hstep.ids, fun role index => hstep.not_names hlt (hnames role index),
        hstep.held hheld⟩
  · refine pairwise_append.mpr ⟨?_, h.holdDown, fun later hlater earlier _ =>
      hquiet later hlater earlier⟩
    exact pairwise_of_forall_mem_list fun later hlater earlier _ => hquiet later hlater earlier

theorem grants (h : Recorded entry log) (hstep : entry.Step due ending entry')
    (hbefore : (entry.slots role index).session = none)
    (hafter : entry'.Names role index entry.nextSessionId) :
    Recorded entry' (.granted role index entry.nextSessionId entry'.lastNowMs ::
      (entry.ended entry' ++ log)) := by
  have hends := h.ends hstep
  have hgrants : entry.Grants entry' role index := by
    obtain ⟨session, hsession, _⟩ := hafter
    refine ⟨hbefore, ?_⟩
    rw [hsession]
    exact Option.some_ne_none session
  have hids : grantedIds (.granted role index entry.nextSessionId entry'.lastNowMs ::
      (entry.ended entry' ++ log)) = entry.nextSessionId :: grantedIds log :=
    congrArg _ grantedIds_append
  refine ⟨hends.numbered, ?_, ?_, ?_, ?_, pairwise_cons.mpr ⟨?_, hends.holdDown⟩⟩
  · rintro role' index' id ⟨⟨time, hgranted⟩, hended⟩
    obtain hgranted | hgranted := mem_cons.mp hgranted
    · cases hgranted
      exact hafter
    · exact hends.live role' index' id
        ⟨⟨time, hgranted⟩, fun t ht => hended t (mem_cons_of_mem _ ht)⟩
  · rw [hids, forall_mem_cons]
    exact ⟨hstep.grant_lt role index hgrants, fun id hid => (h.granted id hid).trans_le hstep.ids⟩
  · rw [hids, nodup_cons]
    exact ⟨fun hid => lt_irrefl _ (h.granted _ hid), h.nodup⟩
  · intro role' index' id time hended
    obtain hended | hended := mem_cons.mp hended
    · cases hended
    · exact hends.ended role' index' id time hended
  · rintro _ hearlier role' index' id time _ _ rfl ⟨⟩
    obtain hended | hended := mem_append.mp hearlier
    · obtain ⟨_, _, _, ⟨⟩, ⟨session, hsession, _⟩, _⟩ :=
        mem_ended.mp hended
      cases hbefore.symm.trans hsession
    · exact hstep.held_over hgrants (h.ended role index id time hended).2.2

end Recorded

variable {slot : Nat}

theorem tracks_sessionEvents (h : Tracks slot Recorded s) (call : Call) :
    Tracks slot Recorded (track slot (sessionEvents slot) s call) := by
  refine h.step Recorded.fresh fun entry entry' hentry hentry' hstep hrecorded => ?_
  have hgranted := ensures_iff_execute.mp (call.ensures_granted s.policy slot)
  rw [sessionEvents, append_assoc]
  cases hevent : call.granted s.policy slot (execute call.perform s.policy).1 with
  | none => exact hrecorded.ends hstep
  | some event =>
    obtain ⟨_, _, rfl, hbefore, hafter⟩ := hgranted event hevent entry entry' hentry hentry'
    exact hrecorded.grants hstep hbefore hafter

theorem tracks_run (owner maxPeers : Nat) (calls : List Call) :
    Tracks slot Recorded
      (run (track slot (sessionEvents slot)) ⟨FragmentationPolicy.new owner maxPeers, []⟩ calls) :=
  run_invariant (I := Tracks slot Recorded) (fun _ call h => tracks_sessionEvents h call)
    (.new owner maxPeers) calls

theorem slots_of_ended (h : Tracks slot Recorded s)
    (permit : AuthenticatedFragmentationPermit) (ruleId : UInt8) (call : SessionCall) {id : Nat}
    (hid : call.sessionId = some id) (hended : Ended s.log id) :
    ((execute (call.perform permit ruleId) s.policy).2.entryAt slot).map (·.slots) =
      (s.policy.entryAt slot).map (·.slots) := by
  obtain ⟨role, index, time, hended⟩ := hended
  obtain hnil | ⟨_, hentry, hrecorded⟩ := h.nil_or
  · rw [hnil] at hended
    cases hended
  · obtain ⟨_, hnames, _⟩ := hrecorded.ended role index id time hended
    cases htarget : s.policy.target permit ruleId with
    | none =>
      have hnone := ensures_iff_execute.mp (SessionCall.ensures_perform_none htarget call)
      rw [hnone.1]
    | some target =>
      obtain ⟨index', _⟩ := target
      obtain ⟨_, hpolicy, houtcome⟩ :=
        ensures_iff_execute.mp (SessionCall.ensures_perform_some htarget)
      have hcurrent := entryAt_of_currentEntry (target_eq_some.mp htarget).2
      rw [hpolicy, entryAt_setEntry (lt_length_of_entryAt hcurrent)]
      split
      · rename_i hslot
        cases (hslot ▸ hcurrent).symm.trans hentry
        rw [hentry]
        exact congrArg some (houtcome.stale id hid fun role => hnames role index')
      · rfl

/-- Sessions are exclusive and observe the hold-down: of each role and rule one session is live at
most, ids are not used twice, a session is granted after the hold-down of those before it, and the
handle of a session that ended has no effect. -/
theorem sessions_exclusive (owner maxPeers slot : Nat) (calls : List Call) :
    let s := run (track slot (sessionEvents slot)) ⟨FragmentationPolicy.new owner maxPeers, []⟩ calls
    (∀ role index id id', Live s.log role index id → Live s.log role index id' → id = id') ∧
    (grantedIds s.log).Nodup ∧
    s.log.Pairwise HoldDown ∧
    ∀ permit ruleId (call : SessionCall) id, call.sessionId = some id → Ended s.log id →
      ((execute (call.perform permit ruleId) s.policy).2.entryAt slot).map (·.slots) =
        (s.policy.entryAt slot).map (·.slots) := by
  intro s
  have htracks : Tracks slot Recorded s := tracks_run owner maxPeers calls
  have hstale := fun permit ruleId (call : SessionCall) id (hid : call.sessionId = some id) =>
    slots_of_ended htracks permit ruleId call hid
  obtain hnil | ⟨_, _, hrecorded⟩ := htracks.nil_or
  · rw [hnil] at hstale ⊢
    refine ⟨?_, .nil, .nil, hstale⟩
    rintro _ _ _ _ ⟨⟨_, ⟨⟩⟩, _⟩
  · refine ⟨fun role index id id' hlive hlive' => ?_, hrecorded.nodup, hrecorded.holdDown, hstale⟩
    obtain ⟨_, hsession, rfl⟩ := hrecorded.live role index id hlive
    obtain ⟨_, hsession', rfl⟩ := hrecorded.live role index id' hlive'
    cases hsession.symm.trans hsession'
    rfl

theorem releasedCalls_exclusive :
    let s := run (track 0 (sessionEvents 0)) ⟨FragmentationPolicy.new 7 1, []⟩
      (releasedCalls ++ [.session somePermit ruleIdAToB (.reserveReceiver 3 1),
        .session somePermit ruleIdAToB (.reserveReceiver 60002 1)])
    s.log = [.granted .receiver .aToB 2 60002, .ended .receiver .aToB 1 2,
      .granted .receiver .aToB 1 0] ∧
    ((execute ((SessionCall.touchReceiver 1 60003 9).perform somePermit ruleIdAToB)
      s.policy).2.entryAt 0).map (·.slots) = (s.policy.entryAt 0).map (·.slots) :=
  ⟨by decide +kernel, (sessions_exclusive 7 1 0 _).2.2.2 somePermit ruleIdAToB
    (.touchReceiver 1 60003 9) 1 rfl ⟨.receiver, .aToB, 2, by decide +kernel⟩⟩

end Lichen.Schc
