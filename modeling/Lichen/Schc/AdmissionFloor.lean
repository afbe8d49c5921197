import Lichen.Lib.Run
import Lichen.Schc.PolicyRun

namespace Lichen.Schc

open Lichen.Lib Lichen.Core FragmentationPolicy

/-- The counter that the operation makes the entry in a slot accept or observe, and its rule. -/
def Call.observed (policy : FragmentationPolicy) (slot : Nat) (r : Except FragmentError Answer) :
    Call → Option (RuleIndex × Nat)
  | session permit ruleId call =>
    if permit.slot = slot then
      match policy.target permit ruleId with
      | some (index, entry) => (call.observed (entry.slots .receiver index) r).map (index, ·)
      | none => none
    else none
  | _ => none

def counterEvents (slot : Nat) (policy : FragmentationPolicy) (call : Call)
    (r : Except FragmentError Answer) (_ _ : FragmentationPolicyEntry) : List (RuleIndex × Nat) :=
  (call.observed policy slot r).toList

section

variable {now id : Nat} {slot : Slot} {counter : Nat}

theorem SlotStep.exclusive (h : SlotStep due ending now id role slot slot')
    (hexclusive : slot.Exclusive) : slot'.Exclusive := by
  cases h with
  | same => exact hexclusive
  | grant | retire => exact .inr rfl
  | touch hsession =>
    exact .inr (hexclusive.resolve_left (by rw [hsession]; exact Option.some_ne_none _))
  | finish | spend => exact .inl rfl
  | late => exact .inl (hexclusive.resolve_right (Option.some_ne_none _))

theorem SlotStep.covers (h : SlotStep due ending now id .receiver slot slot') (hdue : ¬due)
    (hexclusive : slot.Exclusive) (hcovers : slot.Covers counter) :
    Spent now id ∨ slot'.Covers counter := by
  obtain ⟨high, hhigh, hcounter⟩ := hcovers
  cases h with
  | same => exact .inr ⟨high, hhigh, hcounter⟩
  | grant _ hfloor =>
    obtain ⟨t, rfl, rfl⟩ := Option.map_eq_some_iff.mp hhigh
    exact .inr (Slot.covers_session rfl (hcounter.trans (hfloor rfl t rfl)))
  | touch hsession hadvance =>
    rw [Slot.highCounter, hsession] at hhigh
    cases hhigh
    exact .inr (Slot.covers_session rfl (hcounter.trans (hadvance rfl)))
  | finish hsession hadvance =>
    rw [Slot.highCounter, hsession] at hhigh
    cases hhigh
    exact .inr (Slot.covers_tombstone (hcounter.trans (hadvance rfl)))
  | late hadvance =>
    cases hexclusive.resolve_right (Option.some_ne_none _)
    cases hhigh
    exact .inr (Slot.covers_tombstone (hcounter.trans hadvance))
  | retire h => exact absurd h hdue
  | spend hspent => exact .inl hspent

end

/-- The slot of the receiver remembers every counter that was seen, or no session is granted any
more. -/
structure Floored (index : RuleIndex) (entry : FragmentationPolicyEntry)
    (log : List (RuleIndex × Nat)) : Prop where
  exclusive : (entry.slots .receiver index).Exclusive
  covers : ∀ counter, (index, counter) ∈ log → Spent entry.lastNowMs entry.nextSessionId ∨
    (entry.slots .receiver index).Covers counter

theorem Call.ensures_observed (call : Call) (policy : FragmentationPolicy) (slot : Nat) :
    Ensures call.perform policy fun r policy' => ∀ index counter,
      call.observed policy slot r = some (index, counter) →
      ∀ entry entry', policy.entryAt slot = some entry → policy'.entryAt slot = some entry' →
        (entry.slots .receiver index).Exclusive → (entry'.slots .receiver index).Covers counter := by
  cases call with
  | acceptPeer | retirePeer | expireDue => exact ensures_iff_execute.mpr nofun
  | session permit ruleId call =>
    cases htarget : policy.target permit ruleId with
    | none =>
      refine (SessionCall.ensures_perform_none htarget call).imp ?_
      intro r policy' _ index counter hobserved
      rw [observed, htarget] at hobserved
      split at hobserved <;> cases hobserved
    | some target =>
      obtain ⟨index, _⟩ := target
      refine (SessionCall.ensures_outcome htarget).imp ?_
      rintro r policy' ⟨hcurrent, _, hcurrent', houtcome⟩ _ counter hobserved
        entry entry' hentry hentry'
      rw [observed, htarget] at hobserved
      obtain ⟨rfl, hcounter⟩ := Option.ite_none_right_eq_some.mp hobserved
      cases hcurrent.symm.trans hentry
      cases hcurrent'.symm.trans hentry'
      obtain ⟨_, hcounter, ⟨⟩⟩ := Option.map_eq_some_iff.mp hcounter
      exact fun hexclusive => houtcome.observed counter hexclusive hcounter

variable {slot : Nat} {index : RuleIndex}

theorem Floored.fresh (peer : AuthenticatedPeerSchcContext) (generation nowMs : Nat) :
    Floored index (freshEntry peer generation nowMs) [] :=
  ⟨.inl rfl, nofun⟩

theorem Floored.step (h : Floored index entry log) (hstep : entry.Step due ending entry')
    (hdue : ¬due .receiver index) : Floored index entry' log := by
  refine ⟨(hstep.slots .receiver index).exclusive h.exclusive, fun counter hcounter => ?_⟩
  obtain hspent | hcovers := h.covers counter hcounter
  · exact .inl (hspent.mono hstep.time hstep.ids)
  · exact ((hstep.slots .receiver index).covers hdue h.exclusive hcovers).imp_left
      fun hspent => hspent.mono le_rfl hstep.ids

def KeepsFloor (slot : Nat) (index : RuleIndex) (s : Tracked (RuleIndex × Nat)) (call : Call) :
    Prop :=
  ¬call.Due s.policy slot .receiver index

instance (slot : Nat) (index : RuleIndex) (s : Tracked (RuleIndex × Nat)) (call : Call) :
    Decidable (KeepsFloor slot index s call) :=
  inferInstanceAs (Decidable (¬_))

theorem tracks_counterEvents (h : Tracks slot (Floored index) s)
    (call : Call) (hkeeps : KeepsFloor slot index s call) :
    Tracks slot (Floored index) (track slot (counterEvents slot) s call) := by
  refine h.step Floored.fresh fun entry entry' hentry hentry' hstep hfloored => ?_
  have hafter := hfloored.step hstep hkeeps
  refine ⟨hafter.exclusive, fun counter hcounter => ?_⟩
  obtain hnew | hold := List.mem_append.mp hcounter
  · have hobserved := ensures_iff_execute.mp (call.ensures_observed s.policy slot)
    exact .inr (hobserved index counter (Option.mem_toList.mp hnew) entry entry' hentry hentry'
      hfloored.exclusive)
  · exact hafter.covers counter hold

theorem floored_run (owner maxPeers : Nat) (calls : List Call)
    (hkeeps : Steps (KeepsFloor slot index) (track slot (counterEvents slot))
      ⟨FragmentationPolicy.new owner maxPeers, []⟩ calls) :
    Tracks slot (Floored index)
      (run (track slot (counterEvents slot)) ⟨FragmentationPolicy.new owner maxPeers, []⟩ calls) :=
  run_invariant_of_steps (I := Tracks slot (Floored index))
    (fun _ call h => tracks_counterEvents h call) (.new owner maxPeers) calls hkeeps

theorem Floored.floor_ge {call : SessionCall}
    (h : Floored index entry log) (houtcome : call.Outcome index entry r entry')
    (hfloor : call.floor r = some floor) (hcounter : (index, counter) ∈ log) : counter ≤ floor := by
  obtain ⟨hbefore, id, expiresAtMs, hslot⟩ := houtcome.floor floor hfloor
  have hstep := houtcome.moves.slots .receiver index
  have hspent := (hstep.free_of_grant hbefore (by rw [hslot]; nofun)).1
  obtain hspent' | hcovers := h.covers counter hcounter
  · exact absurd (hspent'.mono houtcome.moves.time le_rfl) hspent
  · obtain hspent' | ⟨high, hhigh, hle⟩ := hstep.covers not_false h.exclusive hcovers
    · exact absurd hspent' hspent
    · rw [hslot] at hhigh
      cases hhigh
      exact hle

/-- The admission floor of a new receiver session is not below any counter that was accepted in a
session of the entry before, or observed in the hold-down after one. -/
theorem floor_of_kept (owner maxPeers slot : Nat) (index : RuleIndex) (calls : List Call)
    (hkeeps : Steps (KeepsFloor slot index) (track slot (counterEvents slot))
      ⟨FragmentationPolicy.new owner maxPeers, []⟩ calls)
    (permit : AuthenticatedFragmentationPermit) (ruleId : UInt8)
    (now initialCounter id floor : Nat) (policy' : FragmentationPolicy)
    (hslot : permit.slot = slot) (hrule : ruleIndex ruleId = .ok index)
    (hgranted : FragmentationPolicy.reserveReceiver permit ruleId now initialCounter
      (run (track slot (counterEvents slot))
        ⟨FragmentationPolicy.new owner maxPeers, []⟩ calls).policy = .ok (id, floor) policy')
    (counter : Nat) (hcounter : (index, counter) ∈ (run (track slot (counterEvents slot))
      ⟨FragmentationPolicy.new owner maxPeers, []⟩ calls).log) :
    counter ≤ floor := by
  have htracks := floored_run owner maxPeers calls hkeeps
  generalize run (track slot (counterEvents slot)) _ calls = s at hgranted hcounter htracks
  have hperform : execute ((SessionCall.reserveReceiver now initialCounter).perform permit ruleId)
      s.policy = (.ok (.receiver id floor), policy') := by
    simp only [execute, SessionCall.perform, Functor.map, EStateM.map, hgranted]
  obtain hnil | ⟨_, hentry, hfloored⟩ := htracks.nil_or
  · rw [hnil] at hcounter
    cases hcounter
  · cases htarget : s.policy.target permit ruleId with
    | none =>
      have hnone := ensures_iff_execute.mp (SessionCall.ensures_perform_none htarget
        (.reserveReceiver now initialCounter))
      rw [hperform] at hnone
      cases hnone.2
    | some target =>
      obtain ⟨_, _⟩ := target
      obtain ⟨hcurrent, _, _, houtcome⟩ := ensures_iff_execute.mp
        (SessionCall.ensures_outcome htarget)
      cases hrule.symm.trans (target_eq_some.mp htarget).1
      cases (hslot ▸ hcurrent).symm.trans hentry
      rw [hperform] at houtcome
      exact hfloored.floor_ge houtcome rfl hcounter

theorem releasedCalls_floor :
    let s := run (track 0 (counterEvents 0)) ⟨FragmentationPolicy.new 7 1, []⟩ releasedCalls
    s.log = [(.aToB, 6), (.aToB, 5)] ∧ ∀ counter, (.aToB, counter) ∈ s.log → counter ≤ 6 :=
  ⟨by decide +kernel, floor_of_kept 7 1 0 .aToB releasedCalls (by decide +kernel) somePermit
    ruleIdAToB 60002 1 2 6 _ rfl rfl rfl⟩

/-- The incompatible and then again compatible evidence of the same key generation. -/
def flippedCalls : List Call :=
  [.acceptPeer (List.Vector.replicate 32 0)
      { somePeer with authenticatedCounter := 2, remoteVersion := 2 } 60002,
    .acceptPeer (List.Vector.replicate 32 0) { somePeer with authenticatedCounter := 3 } 60002]

/-- After the session that took the counter 6, a new session starts from a lower counter: when the
peer was incompatible in between, and also when the tombstone was retired. -/
theorem floor_lost :
    (run (track 0 (counterEvents 0)) ⟨FragmentationPolicy.new 7 1, []⟩ releasedCalls).log =
      [(.aToB, 6), (.aToB, 5)] ∧
    (execute (FragmentationPolicy.reserveReceiver { somePermit with generation := 3 } ruleIdAToB
      60002 3) (run (track 0 (counterEvents 0)) ⟨FragmentationPolicy.new 7 1, []⟩
        (releasedCalls ++ flippedCalls)).policy).1 = .ok (1, 3) ∧
    (execute (FragmentationPolicy.reserveReceiver somePermit ruleIdAToB 60002 1)
      (run (track 0 (counterEvents 0)) ⟨FragmentationPolicy.new 7 1, []⟩
        (releasedCalls ++ [.expireDue 60002])).policy).1 = .ok (2, 1) := by
  decide +kernel

end Lichen.Schc
