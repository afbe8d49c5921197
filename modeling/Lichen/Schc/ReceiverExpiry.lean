import Lichen.Schc.PermitRevocation

namespace Lichen.Schc

open Lichen.Lib Lichen.Core FragmentationPolicy FragmentationPolicyEntry

/-- The operations, besides `reserve_receiver`, that end a receiver session past its deadline. -/
def Call.checksLease : Call → Bool
  | expireDue _ | session _ _ (.touchReceiver _ _ _) | session _ _ (.expireReceiver _ _) => true
  | _ => false

def Call.reservesReceiver : Call → Bool
  | session _ _ (.reserveReceiver _ _) => true
  | _ => false

def Call.expiryAnswer (call : Call) (index : RuleIndex) : ReceiverResult :=
  if call.checksLease then expiryResult .receiver index else .default

/-- The slot of a receiver session with this high counter that expired at `now`. -/
def expiredAt (answer : ReceiverResult) (now high : Nat) : Slot :=
  ⟨none, some ⟨saturatingAdd now fragmentTombstoneMillis, high, answer⟩⟩

section

variable {policy : FragmentationPolicy} {slot : Nat} {index : RuleIndex}
  {entry entry' : FragmentationPolicyEntry} {call : Call}

theorem Call.ending_eq (h : call.checksLease ∨ call.reservesReceiver)
    (hending : call.ending .receiver index ended high result) :
    high = ended.highCounter ∧ result = call.expiryAnswer index := by
  cases call with
  | acceptPeer | retirePeer => exact h.elim nofun nofun
  | expireDue => exact hending
  | session permit ruleId call =>
    cases call with
    | touchReceiver | expireReceiver | reserveReceiver => exact hending
    | reserveSender | releaseSender | releaseReceiver | touchSender
    | abandonSender | abandonReceiver | replayReceiverTerminal => exact h.elim nofun nofun

theorem slots_of_ends (h : call.checksLease ∨ call.reservesReceiver)
    (hentry : policy.entryAt slot = some entry)
    (hentry' : (call.after policy).entryAt slot = some entry')
    (hsession : (entry.slots .receiver index).session = some session)
    (hended : (entry'.slots .receiver index).session = none) :
    entry'.slots .receiver index =
      expiredAt (call.expiryAnswer index) entry'.lastNowMs session.highCounter := by
  have hevolves := ensures_iff_execute.mp (call.evolves_perform policy slot)
  rw [hentry, show (execute call.perform policy).2.entryAt slot = some entry' from hentry']
    at hevolves
  cases hevolves with
  | install => exact h.elim nofun nofun
  | step hstep =>
    have hslot := hstep.slots .receiver index
    generalize entry.slots .receiver index = before at hslot hsession
    generalize entry'.slots .receiver index = after at hslot hended
    cases hslot with
    | same | late | retire => cases hsession.symm.trans hended
    | grant | touch => cases hended
    | spend => cases hsession
    | finish hbefore _ hending =>
      cases hbefore.symm.trans hsession
      obtain ⟨rfl, rfl⟩ := call.ending_eq h hending
      rfl

/-- The call leaves the entry in its slot, and the policy time before `untilMs`. -/
def Call.inHoldDown (slot untilMs : Nat) (policy : FragmentationPolicy) (call : Call) : Bool :=
  ((call.after policy).entryAt slot).any fun entry' => (policy.entryAt slot).any fun entry =>
    entry'.generation = entry.generation && entry'.lastNowMs < untilMs

theorem SlotStep.held {now id : Nat}
    {tombstone : TerminalTombstone} (h : SlotStep due ending now id role ⟨none, some tombstone⟩ slot')
    (hnow : now < tombstone.untilMs) :
    ∃ high, slot' = ⟨none, some { tombstone with highCounter := high }⟩ := by
  cases h with
  | same => exact ⟨_, rfl⟩
  | grant hfree | spend _ hfree => exact absurd (hfree tombstone rfl) (Nat.not_le.mpr hnow)
  | touch h | finish h => cases h
  | late => exact ⟨_, rfl⟩
  | retire _ huntil => exact absurd huntil (Nat.not_le.mpr hnow)

/-- The slot holds a tombstone with this answer. -/
def AnswerHeld (answer : ReceiverResult) (slot : Nat) (index : RuleIndex) (untilMs : Nat)
    (policy : FragmentationPolicy) : Prop :=
  ∃ entry high, policy.entryAt slot = some entry ∧
    entry.slots .receiver index = ⟨none, some ⟨untilMs, high, answer⟩⟩

theorem AnswerHeld.after (h : AnswerHeld answer slot index untilMs policy)
    (hcall : call.inHoldDown slot untilMs policy) :
    AnswerHeld answer slot index untilMs (call.after policy) := by
  obtain ⟨entry, high, hentry, hslot⟩ := h
  have hevolves := ensures_iff_execute.mp (call.evolves_perform policy slot)
  change Call.Evolves _ _ _ _ ((call.after policy).entryAt slot) at hevolves
  rw [Call.inHoldDown, hentry] at hcall
  rw [hentry] at hevolves
  cases hentry' : (call.after policy).entryAt slot with
  | none => simp [hentry'] at hcall
  | some entry' =>
    simp [hentry'] at hcall
    rw [hentry'] at hevolves
    cases hevolves with
    | step hstep =>
      have hslots := hstep.slots .receiver index
      rw [hslot] at hslots
      obtain ⟨high', hheld⟩ := hslots.held hcall.2
      exact ⟨entry', high', hentry', hheld⟩
    | install _ hlt => exact absurd hcall.1 (hlt entry rfl).ne'

theorem AnswerHeld.answers (h : AnswerHeld answer permit.slot index untilMs policy)
    (hcurrent : policy.currentEntry permit = some entry) (hrule : ruleIndex ruleId = .ok index)
    (hclock : entry.lastNowMs ≤ nowMs) (huntil : nowMs < untilMs)
    (hcounter : ∀ high ∈ (entry.slots .receiver index).highCounter, high < counter)
    (hrequest : isTerminalRequest ruleId payload) :
    (execute (replayReceiverTerminal permit ruleId counter nowMs payload)
      policy).1 = .ok (some answer) := by
  obtain ⟨_, high, hentry, hslot⟩ := h
  cases hentry.symm.trans (entryAt_of_currentEntry hcurrent)
  have hhigh : ¬counter ≤ high := by simpa [hslot, Slot.highCounter] using hcounter
  refine ensures_iff_execute.mp ((ensures_withEntry_some (Q := fun r _ =>
    r = .ok (some answer)) (target_eq_some.mpr ⟨hrule, hcurrent⟩) ?_).imp
    fun _ _ h => h.choose_spec.2)
  simp [FragmentationPolicyEntry.replayReceiverTerminal, ensures_bind, ensures_observePolicyNow,
    ensures_get, hslot, ensures_check, ensures_map, ensures_set, hhigh, hclock, huntil,
    Nat.not_le.mpr huntil, hrequest, Except.map]

theorem expiryAnswer_iff : call.expiryAnswer index = expiryResult .receiver index ↔
    call.checksLease = true := by
  have hdefault : ReceiverResult.default ≠ expiryResult .receiver index := by
    cases index <;> decide
  rw [Call.expiryAnswer]
  split
  · exact iff_of_true rfl ‹_›
  · exact iff_of_false hdefault ‹_›

/-- The expiry of a receiver session leaves the canonical Receiver-Abort, and all requests during
the hold-down are answered with it, exactly if it was not `reserve_receiver` that found it. -/
theorem expiry_answered_iff (policy : FragmentationPolicy) (call : Call)
    (hends : call.checksLease ∨ call.reservesReceiver) (slot : Nat) (index : RuleIndex)
    (entry entry' : FragmentationPolicyEntry) (session : SessionReservation)
    (hentry : policy.entryAt slot = some entry)
    (hentry' : (call.after policy).entryAt slot = some entry')
    (hsession : (entry.slots .receiver index).session = some session)
    (hended : (entry'.slots .receiver index).session = none) :
    (entry'.slots .receiver index =
      expiredAt (expiryResult .receiver index) entry'.lastNowMs session.highCounter ↔
        call.checksLease = true) ∧
    ∀ later, Steps (fun policy call => call.inHoldDown slot
        (saturatingAdd entry'.lastNowMs fragmentTombstoneMillis) policy)
        Call.after (call.after policy) later →
      ∀ permit ruleId counter nowMs payload current, permit.slot = slot →
        (run Call.after (call.after policy) later).currentEntry permit = some current →
        ruleIndex ruleId = .ok index → current.lastNowMs ≤ nowMs →
        nowMs < saturatingAdd entry'.lastNowMs fragmentTombstoneMillis →
        (∀ high ∈ (current.slots .receiver index).highCounter, high < counter) →
        isTerminalRequest ruleId payload →
        ((execute (FragmentationPolicy.replayReceiverTerminal permit ruleId counter nowMs payload)
          (run Call.after (call.after policy) later)).1 =
            .ok (some (expiryResult .receiver index)) ↔ call.checksLease = true) := by
  have hslot := slots_of_ends hends hentry hentry' hsession hended
  have hiff : call.expiryAnswer index = expiryResult .receiver index ↔ call.checksLease = true :=
    expiryAnswer_iff
  refine ⟨?_, ?_⟩
  · rw [hslot, ← hiff]
    exact ⟨fun h => congrArg TerminalTombstone.result (Option.some.inj (Slot.mk.inj h).2),
      fun h => by rw [h]⟩
  rintro later hlater permit ruleId counter nowMs payload current rfl hcurrent hrule hclock huntil
    hcounter hrequest
  have hheld : AnswerHeld (call.expiryAnswer index) permit.slot index _ _ :=
    run_invariant_of_steps (fun _ _ h hcall => h.after hcall) ⟨entry', _, hentry', hslot⟩ later hlater
  rw [hheld.answers hcurrent hrule hclock huntil hcounter hrequest, Except.ok.injEq,
    Option.some.injEq, hiff]

end

/-- A receiver session that is open since the time 0. -/
def openSession : FragmentationPolicy :=
  run Call.after (new 7 1) (releasedCalls.take 2)

/-- After the expiry, an ACK request is observed and then another answered. -/
theorem expiry_answered_twice :
    (execute (FragmentationPolicy.replayReceiverTerminal somePermit ruleIdAToB 9 60002
      [ruleIdAToB, 0]) (run Call.after ((Call.expireDue 60000).after openSession)
        [.session somePermit ruleIdAToB (.replayReceiverTerminal 8 60001 [ruleIdAToB, 0])])).1 =
      .ok (some (expiryResult .receiver .aToB)) :=
  ((expiry_answered_iff openSession (.expireDue 60000) (.inl rfl) 0 .aToB _ _ ⟨1, 60000, 1⟩ rfl rfl
    rfl rfl).2 _ (by decide +kernel) somePermit ruleIdAToB 9 60002 [ruleIdAToB, 0] _ rfl rfl rfl
    (by decide +kernel) (by decide +kernel) (by decide +kernel) (by decide +kernel)).mpr rfl

/-- The expiry that `reserve_receiver` finds leaves no response. -/
theorem reserve_forgets_abort :
    (openSession.entryAt 0).any (fun entry => (entry.slots .receiver .aToB).session =
      some ⟨1, 60000, 1⟩) = true ∧
    (execute (FragmentationPolicy.replayReceiverTerminal somePermit ruleIdAToB 9 60002
      [ruleIdAToB, 0]) ((Call.session somePermit ruleIdAToB (.reserveReceiver 60000 1)).after
        openSession)).1 = .ok (some .default) := by
  decide +kernel

end Lichen.Schc
