import Lichen.Schc.ReceiverExpiry
import Lichen.Schc.Sender

namespace Lichen.Schc

open Lichen.Lib Lichen.Core FragmentationPolicyEntry

namespace FragmentationPolicy

def ruleForPermit (policy : FragmentationPolicy) (permit : AuthenticatedFragmentationPermit)
    (outbound : Bool) : Except FragmentError UInt8 :=
  if permit.owner ≠ policy.owner ∨ ¬(policy.entryAt permit.slot).any fun entry =>
      entry.generation = permit.generation && entry.keyGeneration = permit.keyGeneration &&
        entry.signer = permit.signer then .error .invalidPeerEvidence
  else
    match policy.localSigner with
    | none => .error .invalidPeerEvidence
    | some localSigner => canonicalFragmentationRule localSigner permit.signer outbound

/-- The policy has this session, and its time is not past `now`. -/
def Holds (policy : FragmentationPolicy) (permit : AuthenticatedFragmentationPermit)
    (ruleId : UInt8) (role : Role) (now : Nat) (session : SessionReservation) : Bool :=
  (policy.target permit ruleId).any fun target =>
    (target.2.slots role target.1).session = some session && target.2.lastNowMs ≤ now

variable {policy : FragmentationPolicy} {permit : AuthenticatedFragmentationPermit} {ruleId : UInt8}
  {session : SessionReservation}

theorem holds_iff : policy.Holds permit ruleId role now session ↔
    ∃ index entry, policy.target permit ruleId = some (index, entry) ∧
      (entry.slots role index).session = some session ∧ entry.lastNowMs ≤ now := by
  simp [Holds, Option.any_eq_true]

/-- A session is released exactly if the policy has it and the time of its tombstone can be said. -/
theorem releases_iff (id : Nat) :
    Ensures (withEntry permit (ofExcept (ruleIndex ruleId) >>= fun index =>
      FragmentationPolicyEntry.release role high result index id now)) policy fun r _ =>
        r = .ok () ↔ now + fragmentTombstoneMillis < 2 ^ 64 ∧
          ∃ session, session.id = id ∧ policy.Holds permit ruleId role now session := by
  simp only [holds_iff]
  cases htarget : policy.target permit ruleId with
  | none =>
    refine (ensures_withEntry_none htarget).imp ?_
    rintro _ _ ⟨-, _, rfl⟩
    simp
  | some target =>
    obtain ⟨index, entry⟩ := target
    refine (ensures_withEntry_some (Q := fun r _ => r = .ok () ↔ _) htarget ?_).imp
      fun _ _ h => h.choose_spec.2
    simp only [release, liveSession, ensures_bind, ensures_observePolicyNow, ensures_get]
    refine ⟨fun hlt => ?_, fun hnow => ?_⟩
    · simp [hlt]
    cases hsession : (entry.slots role index).session with
    | none => simp [ensures_throw, hsession]
    | some session =>
      simp only [ensures_bind, ensures_check, ensures_pure]
      refine ⟨fun hid => ?_, fun hid => ?_⟩
      · simp [hsession, hid]
      · rw [tombstoneDeadline]
        split
        · simp [ensures_ofExcept]
          omega
        · simp [ensures_ofExcept, ensures_modify, hsession, not_not.mp hid, Nat.not_lt.mp hnow]
          omega

theorem currentEntry_setEntry {slots : Role → RuleIndex → Slot}
    (h : policy.currentEntry permit = some entry) :
    (policy.setEntry permit.slot { entry with lastNowMs := now, slots }).currentEntry permit =
      some { entry with lastNowMs := now, slots } := by
  have hslot := lt_length_of_entryAt (entryAt_of_currentEntry h)
  unfold currentEntry at h ⊢
  rw [entryAt_setEntry hslot, if_pos rfl]
  split at h
  · cases h
  · next howner =>
    obtain ⟨_, hcurrent⟩ := Option.filter_eq_some_iff.mp h
    exact (if_neg howner).trans (Option.filter_eq_some_iff.mpr ⟨rfl, hcurrent⟩)

/-- A session that could be touched can be released at the same time. -/
theorem releases_of_touch (id : Nat) :
    Ensures (withEntry permit (ofExcept (ruleIndex ruleId) >>= fun index =>
      FragmentationPolicyEntry.touch role advance index id now)) policy fun r policy' =>
        r = .ok () → now + fragmentTombstoneMillis < 2 ^ 64 ∧
          ∃ session, session.id = id ∧ policy'.Holds permit ruleId role now session := by
  cases htarget : policy.target permit ruleId with
  | none =>
    refine (ensures_withEntry_none htarget).imp ?_
    rintro _ _ ⟨-, _, rfl⟩ h
    cases h
  | some target =>
    obtain ⟨index, entry⟩ := target
    obtain ⟨hindex, hcurrent⟩ := target_eq_some.mp htarget
    refine (ensures_withEntry_some (Q := fun r entry' => r = .ok () →
      now + fragmentTombstoneMillis < 2 ^ 64 ∧ ∃ session slots, session.id = id ∧
        entry' = { entry with lastNowMs := now, slots } ∧ (slots role index).session = some session)
      htarget ?_).imp ?_
    · refine ensures_liveSession.bind (fun _ _ _ => nofun) ?_
      rintro session entry' ⟨_, _, hlive⟩
      obtain ⟨_, hid, _, rfl⟩ := hlive session rfl
      split
      · simp only [ensures_bind, ensures_modify, ensures_throw]
        nofun
      · refine .ofExcept_bind (fun _ _ => nofun) fun expiresAtMs hdeadline => ?_
        rw [ensures_modify]
        refine fun _ => ⟨?_, ⟨session.id, expiresAtMs, advance session.highCounter⟩, _, hid, rfl,
          congrArg Slot.session (if_pos ⟨rfl, rfl⟩)⟩
        rw [inactivityDeadline] at hdeadline
        split at hdeadline
        · cases hdeadline
        · omega
    · rintro r _ ⟨entry', rfl, hok⟩ hr
      obtain ⟨hdeadline, session, slots, hid, rfl, hsession⟩ := hok hr
      exact ⟨hdeadline, session, hid, holds_iff.mpr ⟨index, _,
        target_eq_some.mpr ⟨hindex, currentEntry_setEntry hcurrent⟩, hsession, le_rfl⟩⟩

end FragmentationPolicy

def retransmissionTimeoutMillis : Nat := 10000

def retransmissionDeadline (nowMs : Nat) : Except FragmentError Nat :=
  if nowMs + retransmissionTimeoutMillis ≥ 2 ^ 64 then .error .invalidPeerEvidence
  else .ok (nowMs + retransmissionTimeoutMillis)

/-- The checks of the policy, the link and the peer's context that an operation asks for first. -/
abbrev Evidence : Type := FragmentationPolicy → AuthenticatedFragmentationPermit → Bool

structure VerifiedFrame where
  evidence : Evidence
  payload : Bytes
  counter : Nat
  receiptMillis : Option Nat

def VerifiedFrame.nowMs (frame : VerifiedFrame) : Except FragmentError Nat :=
  match frame.receiptMillis with
  | none => .error .invalidPeerEvidence
  | some nowMs => .ok nowMs

/-- An operation of a session's holder, which shares the policy. -/
abbrev Held (σ α : Type) : Type := EStateM FragmentError (FragmentationPolicy × σ) α

section Held

variable {σ α : Type} {s : FragmentationPolicy × σ}

def onPolicy (op : FragmentationPolicy.Op α) : Held σ α := fun s =>
  match op s.1 with
  | .ok a policy => .ok a (policy, s.2)
  | .error e policy => .error e (policy, s.2)

def update (f : σ → σ) : Held σ Unit := modify fun s => (s.1, f s.2)

theorem ensures_onPolicy :
    Ensures (onPolicy op) s R ↔ Ensures op s.1 fun r policy => R r (policy, s.2) := by
  simp only [ensures_iff_execute, execute, onPolicy]
  cases op s.1 <;> exact Iff.rfl

theorem ensures_update : Ensures (update f) s R ↔ R (.ok ()) (s.1, f s.2) := ensures_modify

/-- What an operation leaves of its holder when it fails: all. -/
def Kept (held : σ) (r : Except FragmentError α) (s : FragmentationPolicy × σ) : Prop :=
  ∀ e, r = .error e → s.2 = held

theorem kept_map {r : Except FragmentError β} : Kept held (r.map f) s ↔ Kept held r s := by
  cases r <;> simp [Kept, Except.map]

end Held

namespace FragmentSender

variable {s : FragmentSender} {data : Bytes}

def validateAuthenticatedControl (s : FragmentSender) (data : Bytes) : Except FragmentError Unit :=
  if s.status ≠ .active ∨ data.head? ≠ some s.ruleId then .error .malformedAck
  else
    match (Control.receiverAbort s.ruleId).writeTo 3 with
    | .error error => .error error
    | .ok abort =>
      if data = abort then .ok ()
      else
        match Ack.fromBytes data with
        | .error error => .error error
        | .ok ack =>
          if ack.complete then
            if ack.window = s.finalWindow then .ok () else .error .malformedAck
          else if ack.window > s.finalWindow then .error .malformedAck
          else
            match Ack.fromBytesFor data (some (s.assignedBitmap ack.window)) with
            | .error error => .error error
            | .ok _ => .ok ()

theorem handleAckBytes_of_valid (h : s.validateAuthenticatedControl data = .ok ()) :
    ∃ output, (s.handleAckBytes data).1 = .ok output := by
  unfold validateAuthenticatedControl at h
  unfold handleAckBytes
  split at h
  · cases h
  split at h
  · cases h
  split at h
  · simp_all
  split at h
  · cases h
  split at h
  · simp_all
  split at h
  · cases h
  split at h
  · cases h
  · simp_all [-UInt8.not_lt]

end FragmentSender

/-- A sender with its session. -/
structure SenderSession where
  sender : FragmentSender
  permit : AuthenticatedFragmentationPermit
  ackHighCounter : Option Nat
  lastTimerMs : Nat
  sessionId : Nat
  reservationActive : Bool

namespace SenderSession

abbrev Op (α : Type) : Type := Held SenderSession α

def new (evidence : Evidence) (permit : AuthenticatedFragmentationPermit) (initialCounter : Nat)
    (payload : Bytes) (receiverLimit nowMs : Nat) : FragmentationPolicy.Op SenderSession := do
  let policy ← get
  check (¬evidence policy permit) .invalidPeerEvidence
  let ruleId ← ofExcept (policy.ruleForPermit permit true)
  let sender ← ofExcept (FragmentSender.newUnchecked payload ruleId receiverLimit)
  let sessionId ← FragmentationPolicy.reserveSender permit ruleId nowMs initialCounter
  return ⟨sender, permit, none, nowMs, sessionId, true⟩

def touch (h : SenderSession) (nowMs : Nat) : Op Unit :=
  onPolicy (FragmentationPolicy.touchSender h.permit h.sender.ruleId h.sessionId nowMs)

def release (h : SenderSession) (nowMs counter : Nat) : Op Unit :=
  onPolicy (FragmentationPolicy.releaseSender h.permit h.sender.ruleId h.sessionId nowMs counter)

def schedule (deadline : Option Nat) (h : SenderSession) : SenderSession :=
  { h with sender := { h.sender with retransmitAtMs := deadline } }

def start (evidence : Evidence) (nowMs : Nat) : Op Unit := do
  let s ← get
  check (s.2.sender.status ≠ .ready) .invalidState
  check (¬evidence s.1 s.2.permit) .invalidPeerEvidence
  let deadline ← ofExcept (retransmissionDeadline nowMs)
  s.2.touch nowMs
  let sender ← ofExcept s.2.sender.start
  update fun h => { h with
    sender := { sender with retransmitAtMs := some deadline }, lastTimerMs := nowMs }

/-- The common end of an ACK and a timeout: the session is touched, what the sender did is taken
over, and the session is released once the sender has `ended`. -/
def advance (h : SenderSession) (nowMs : Nat)
    (handled : Except FragmentError SenderOutput × FragmentSender) (ackHighCounter : Option Nat)
    (counter : Nat) (ended : List SenderStatus) (retries : SenderOutput → Bool) :
    Op SenderOutput := do
  let next ← ofExcept (retransmissionDeadline nowMs)
  h.touch nowMs
  update ({ · with sender := handled.2 })
  let output ← ofExcept handled.1
  update ({ · with ackHighCounter, lastTimerMs := nowMs })
  if handled.2.status ∈ ended then do
    h.release nowMs counter
    update fun h => { h.schedule none with reservationActive := false }
    return output
  else do
    update fun h => if retries output then h.schedule (some next) else h
    return output

def checkControl (h : SenderSession) (policy : FragmentationPolicy) (frame : VerifiedFrame) :
    Except FragmentError Unit :=
  if ¬frame.evidence policy h.permit ∨ h.ackHighCounter.any (frame.counter ≤ ·) then
    .error .invalidPeerEvidence
  else h.sender.validateAuthenticatedControl frame.payload

def isRetransmit : SenderOutput → Bool
  | .retransmit _ _ _ _ => true
  | _ => false

def acceptControl (h : SenderSession) (frame : VerifiedFrame) (nowMs : Nat) : Op SenderOutput := do
  check (nowMs < h.lastTimerMs) .invalidPeerEvidence
  h.advance nowMs (h.sender.handleAckBytes frame.payload) (some frame.counter) frame.counter
    [.succeeded, .aborted] isRetransmit

def handleAckFrame (frame : VerifiedFrame) : Op SenderOutput := do
  let s ← get
  let nowMs ← ofExcept frame.nowMs
  let _ ← ofExcept (s.2.checkControl s.1 frame)
  s.2.acceptControl frame nowMs

def handleAckLinkVerified (frame : VerifiedFrame) : Op SenderOutput := do
  let s ← get
  let _ ← ofExcept (s.2.checkControl s.1 frame)
  let nowMs ← ofExcept frame.nowMs
  s.2.acceptControl frame nowMs

def timeout (evidence : Evidence) (peerCounter nowMs : Nat) : Op SenderOutput := do
  let s ← get
  check (s.2.sender.status ≠ .active) .invalidState
  check (¬evidence s.1 s.2.permit) .invalidPeerEvidence
  check (nowMs < s.2.lastTimerMs) .invalidPeerEvidence
  match s.2.sender.retransmitAtMs with
  | none => throw .invalidState
  | some deadline =>
    if nowMs < deadline then return .none
    else
      s.2.advance nowMs s.2.sender.timeout s.2.ackHighCounter
        (s.2.ackHighCounter.getD peerCounter) [.aborted] fun _ => true

def cancel (nowTicks : Nat) : Op Unit := do
  let s ← get
  check (s.2.sender.status ≠ .ready ∧ s.2.sender.status ≠ .active) .invalidState
  update fun h => { h with sender := { h.sender with status := .aborted } }
  s.2.release nowTicks (s.2.ackHighCounter.getD 0)
  update fun h => { h.schedule none with reservationActive := false }

variable {h : SenderSession} {s : FragmentationPolicy × SenderSession} {nowMs : Nat}

/-- The session can be released at this time. -/
def Releasable (h : SenderSession) (policy : FragmentationPolicy) (nowMs : Nat) : Prop :=
  nowMs + fragmentTombstoneMillis < 2 ^ 64 ∧ ∃ session, session.id = h.sessionId ∧
    policy.Holds h.permit h.sender.ruleId .sender nowMs session

theorem ensures_touch : Ensures (h.touch nowMs) s fun r s' =>
    s'.2 = s.2 ∧ (r = .ok () → h.Releasable s'.1 nowMs) := by
  rw [touch, ensures_onPolicy]
  exact (FragmentationPolicy.releases_of_touch h.sessionId).imp fun _ _ h => ⟨rfl, h⟩

theorem ensures_release : Ensures (h.release nowMs counter) s fun r s' =>
    s'.2 = s.2 ∧ (r = .ok () ↔ h.Releasable s.1 nowMs) := by
  rw [release, ensures_onPolicy]
  exact (FragmentationPolicy.releases_iff h.sessionId).imp fun _ _ h => ⟨rfl, h⟩

theorem ensures_start : Ensures (start evidence nowMs) s (Kept s.2) := by
  rw [start, ensures_bind, ensures_get]
  refine .check_bind (fun _ _ => rfl) fun hready => .check_bind (fun _ _ => rfl) fun _ =>
    .ofExcept_bind (fun _ _ _ _ => rfl) fun deadline _ =>
      ensures_touch.bind (fun _ _ h _ _ => h.1) fun _ s' _ => ?_
  rw [FragmentSender.start, if_neg hready, ensures_bind, ensures_ofExcept]
  refine ensures_update.mpr ?_
  rintro _ ⟨⟩

theorem ensures_advance (hok : handled.1 = .ok output) (ackHighCounter : Option Nat) :
    Ensures (h.advance nowMs handled ackHighCounter counter ended retries) s (Kept s.2) := by
  refine .ofExcept_bind (fun _ _ _ _ => rfl) fun next _ =>
    ensures_touch.bind (fun _ _ h _ _ => h.1) fun _ s' hs' => ?_
  simp only [hok, ensures_bind, ensures_update, ensures_ofExcept]
  split
  · refine ensures_release.bind (fun _ _ h => nomatch h.2.mpr (hs'.2 rfl)) fun _ _ _ => ?_
    rw [ensures_bind, ensures_update, ensures_pure]
    nofun
  · rw [ensures_bind, ensures_update, ensures_pure]
    nofun

theorem ensures_acceptControl (hcheck : s.2.checkControl policy frame = .ok ()) :
    Ensures (s.2.acceptControl frame nowMs) s (Kept s.2) := by
  rw [checkControl] at hcheck
  split at hcheck
  · cases hcheck
  · obtain ⟨_, hok⟩ := FragmentSender.handleAckBytes_of_valid hcheck
    exact .check_bind (fun _ _ => rfl) fun _ => ensures_advance hok _

theorem ensures_handleAckFrame : Ensures (handleAckFrame frame) s (Kept s.2) := by
  rw [handleAckFrame, ensures_bind, ensures_get]
  exact .ofExcept_bind (fun _ _ _ _ => rfl) fun nowMs _ =>
    .ofExcept_bind (fun _ _ _ _ => rfl) fun _ hcheck => ensures_acceptControl hcheck

theorem ensures_handleAckLinkVerified : Ensures (handleAckLinkVerified frame) s (Kept s.2) := by
  rw [handleAckLinkVerified, ensures_bind, ensures_get]
  exact .ofExcept_bind (fun _ _ _ _ => rfl) fun _ hcheck =>
    .ofExcept_bind (fun _ _ _ _ => rfl) fun nowMs _ => ensures_acceptControl hcheck

theorem ensures_timeout : Ensures (timeout evidence peerCounter nowMs) s (Kept s.2) := by
  rw [timeout, ensures_bind, ensures_get]
  refine .check_bind (fun _ _ => rfl) fun hactive => .check_bind (fun _ _ => rfl) fun _ =>
    .check_bind (fun _ _ => rfl) fun _ => ?_
  cases s.2.sender.retransmitAtMs with
  | none => exact ensures_throw.mpr fun _ _ => rfl
  | some =>
    dsimp only
    split
    · exact ensures_pure.mpr nofun
    · obtain ⟨output, hok⟩ : ∃ output, s.2.sender.timeout.1 = .ok output := by
        rw [FragmentSender.timeout, if_neg hactive]
        split <;> exact ⟨_, rfl⟩
      exact ensures_advance hok _

theorem ensures_cancel : Ensures (cancel nowMs) s fun r s' => Kept s.2 r s' ↔
    (s.2.sender.status = .ready ∨ s.2.sender.status = .active → s.2.Releasable s.1 nowMs) := by
  rw [cancel, ensures_bind, ensures_get]
  dsimp only
  rw [ensures_bind, ensures_check]
  refine ⟨fun hended => iff_of_true (fun _ _ => rfl) fun h => absurd h (not_or.mpr hended),
    fun hlive => ?_⟩
  have hlive : s.2.sender.status = .ready ∨ s.2.sender.status = .active := by tauto
  dsimp only
  rw [ensures_bind, ensures_update]
  refine ensures_release.bind (fun e s' h => ?_) fun _ s' h => ?_
  · refine iff_of_false (fun hkept => ?_) fun hrelease => nomatch h.2.mpr (hrelease hlive)
    have hstatus : s.2.sender.status = .aborted := by rw [← hkept e rfl, h.1]
    simp [hstatus] at hlive
  · exact ensures_update.mpr (iff_of_true nofun fun _ => h.2.mp rfl)

end SenderSession

inductive SenderCall where
  | start (evidence : Evidence) (nowMs : Nat)
  | handleAckFrame (frame : VerifiedFrame)
  | handleAckLinkVerified (frame : VerifiedFrame)
  | timeout (evidence : Evidence) (peerCounter nowMs : Nat)
  | cancel (nowTicks : Nat)

namespace SenderCall

def perform : SenderCall → SenderSession.Op SenderOutput
  | start evidence nowMs => (fun _ => .none) <$> SenderSession.start evidence nowMs
  | handleAckFrame frame => SenderSession.handleAckFrame frame
  | handleAckLinkVerified frame => SenderSession.handleAckLinkVerified frame
  | timeout evidence peerCounter nowMs => SenderSession.timeout evidence peerCounter nowMs
  | cancel nowTicks => (fun _ => .none) <$> SenderSession.cancel nowTicks

/-- An operation that fails leaves the sender as it was, exactly if it is not the cancel of a live
sender whose session cannot be released. -/
theorem failed_keeps_sender_iff (call : SenderCall) (s : FragmentationPolicy × SenderSession) :
    (∀ e, (execute call.perform s).1 = .error e → (execute call.perform s).2.2 = s.2) ↔
      ∀ nowTicks, call = .cancel nowTicks →
        s.2.sender.status = .ready ∨ s.2.sender.status = .active → s.2.Releasable s.1 nowTicks := by
  have hends : Ensures call.perform s fun r s' => Kept s.2 r s' ↔ ∀ nowTicks,
      call = .cancel nowTicks →
        s.2.sender.status = .ready ∨ s.2.sender.status = .active → s.2.Releasable s.1 nowTicks := by
    cases call with
    | start =>
      rw [perform, ensures_map]
      simpa [kept_map] using SenderSession.ensures_start
    | handleAckFrame => simpa [perform] using SenderSession.ensures_handleAckFrame
    | handleAckLinkVerified => simpa [perform] using SenderSession.ensures_handleAckLinkVerified
    | timeout => simpa [perform] using SenderSession.ensures_timeout
    | cancel =>
      rw [perform, ensures_map]
      simpa [kept_map] using SenderSession.ensures_cancel
  exact ensures_iff_execute.mp hends

end SenderCall

/-- A sender that reserved its session at the time 5. -/
def reservedSender : FragmentationPolicy × SenderSession :=
  let reserved := execute (SenderSession.new (fun _ _ => true) somePermit 1 [1, 2, 3] 100 5)
    (run Call.after (FragmentationPolicy.new 7 1) (releasedCalls.take 1))
  (reserved.2, reserved.1.toOption.get (by decide +kernel))

theorem start_fails_after_expiry :
    (execute (SenderCall.start (fun _ _ => true) 60005).perform reservedSender).1 =
      .error .invalidState ∧
    (execute (SenderCall.start (fun _ _ => true) 60005).perform reservedSender).2.2 =
      reservedSender.2 :=
  ⟨by decide +kernel, (SenderCall.failed_keeps_sender_iff _ _).mpr (fun _ h => nomatch h)
    .invalidState (by decide +kernel)⟩

/-- A cancel at a time before that of the policy fails, but the sender is aborted. -/
theorem failed_cancel_aborts :
    reservedSender.2.sender.status = .ready ∧
    (execute (SenderCall.cancel 4).perform reservedSender).1 = .error .invalidPeerEvidence ∧
    (execute (SenderCall.cancel 4).perform reservedSender).2.2.sender.status = .aborted := by
  decide +kernel

end Lichen.Schc
