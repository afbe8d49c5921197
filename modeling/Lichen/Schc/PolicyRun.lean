import Lichen.Schc.SessionCall

namespace Lichen.Schc

open Lichen.Lib Lichen.Core FragmentationPolicy FragmentationPolicyEntry

inductive Call where
  | acceptPeer (localSigner : PublicKey) (peer : AuthenticatedPeerSchcContext) (nowMs : Nat)
  | retirePeer (signer : PublicKey)
  | expireDue (nowMs : Nat)
  | session (permit : AuthenticatedFragmentationPermit) (ruleId : UInt8) (call : SessionCall)

namespace Call

def perform : Call → FragmentationPolicy.Op Answer
  | acceptPeer localSigner peer nowMs =>
    Answer.permit <$> FragmentationPolicy.acceptPeer localSigner peer nowMs
  | retirePeer signer => (fun _ => Answer.done) <$> modify (FragmentationPolicy.retirePeer signer)
  | expireDue nowMs => Answer.expired <$> FragmentationPolicy.expireDue nowMs
  | session permit ruleId call => call.perform permit ruleId

def Due (policy : FragmentationPolicy) (slot : Nat) (role : Role) (index : RuleIndex) :
    Call → Prop
  | expireDue nowMs => ¬policy.entries.any (·.any (nowMs < ·.lastNowMs)) ∧
      (policy.entryAt slot).any fun entry => (entry.slots role index).tombstone.any (nowMs ≥ ·.untilMs)
  | _ => False

instance (policy : FragmentationPolicy) (slot : Nat) (role : Role) (index : RuleIndex) :
    ∀ call : Call, Decidable (call.Due policy slot role index)
  | expireDue _ => inferInstanceAs (Decidable (_ ∧ _))
  | acceptPeer _ _ _ | retirePeer _ | session _ _ _ => inferInstanceAs (Decidable False)

def Retires (slot : Nat) (policy : FragmentationPolicy) : Call → Prop
  | retirePeer signer => (policy.entryAt slot).any (·.signer = signer)
  | _ => False

instance (slot : Nat) (policy : FragmentationPolicy) :
    ∀ call : Call, Decidable (call.Retires slot policy)
  | .retirePeer _ => inferInstanceAs (Decidable (_ = true))
  | .acceptPeer _ _ _ | .expireDue _ | .session _ _ _ => inferInstanceAs (Decidable False)

def ending : Call → Role → RuleIndex → Ending
  | expireDue _ => lapsed expiryResult
  | session _ _ call => call.ending
  | acceptPeer _ _ _ | retirePeer _ => anyEnding

variable {policy : FragmentationPolicy} {slot : Nat}

/-- What a call may do to the entry in a slot. -/
inductive Evolves (policy : FragmentationPolicy) (slot : Nat) :
    Call → Option FragmentationPolicyEntry → Option FragmentationPolicyEntry → Prop where
  | absent : Evolves policy slot call none none
  | step (h : entry.Step (fun role index => call.Due policy slot role index) call.ending entry') :
      Evolves policy slot call (some entry) (some entry')
  | retire (h : call.Retires slot policy) : Evolves policy slot call (some entry) none
  | install (generation : Nat) (h : ∀ entry, before = some entry → entry.generation < generation) :
      Evolves policy slot (.acceptPeer own peer nowMs) before
        (some (freshEntry peer generation nowMs))

theorem Evolves.refl : ∀ entry, Evolves policy slot call entry entry
  | none => .absent
  | some entry => .step (.refl entry)

theorem Evolves.setEntry (hfound : found < policy.entries.length)
    (h : Evolves policy slot call (policy.entryAt found) (some entry)) :
    Evolves policy slot call (policy.entryAt slot) ((policy.setEntry found entry).entryAt slot) := by
  rw [entryAt_setEntry hfound]
  split
  · rename_i hslot
    subst hslot
    exact h
  · exact .refl _

theorem evolves_expireDue : Ensures (FragmentationPolicy.expireDue nowMs) policy fun _ policy' =>
      Evolves policy slot (expireDue nowMs) (policy.entryAt slot) (policy'.entryAt slot) := by
  simp only [FragmentationPolicy.expireDue, ensures_bind, ensures_get, ensures_check, ensures_set,
    ensures_pure]
  refine ⟨fun _ => .refl _, fun hclock => ?_⟩
  rw [List.map_map, entryAt_map rfl]
  cases hentry : policy.entryAt slot with
  | none => exact .absent
  | some entry =>
    have hnow : entry.lastNowMs ≤ nowMs := by
      by_contra hlate
      refine hclock (List.any_eq_true.mpr ⟨some entry, ?_, ?_⟩)
      · exact mem_entries_of_entryAt hentry
      · exact decide_eq_true (Nat.not_le.mp hlate)
    refine .step ((expireSessionsAt_step hnow).mono ?_)
    intro role index hdue
    refine ⟨hclock, ?_⟩
    rw [hentry]
    exact hdue

theorem lt_length_of_findIdx
    (h : (policy.entries.findIdx? p).or (policy.entries.findIdx? q) = some found) :
    found < policy.entries.length := by
  rw [Option.or_eq_some_iff] at h
  obtain h | ⟨_, h⟩ := h
  · exact (List.findIdx?_eq_some_iff_getElem.mp h).1
  · exact (List.findIdx?_eq_some_iff_getElem.mp h).1

/-- What `install_peer` does: nothing, or it refreshes or replaces one entry. -/
theorem ensures_installPeer (peer : AuthenticatedPeerSchcContext) (nowMs : Nat) :
    Ensures (FragmentationPolicy.installPeer peer nowMs) policy fun r policy' =>
      (policy' = policy ∧ ∃ e, r = .error e) ∨ ∃ found entry, found < policy.entries.length ∧
        policy' = policy.setEntry found entry ∧
        (∀ base signer slot, Evolves base slot (acceptPeer signer peer nowMs)
          (policy.entryAt found) (some entry)) ∧
        ∀ permit, r = .ok permit → permit = policy.permitFor found entry := by
  simp only [FragmentationPolicy.installPeer, ensures_bind, ensures_get]
  cases policy.localSigner with
  | none => exact ensures_throw.mpr (.inl ⟨rfl, _, rfl⟩)
  | some =>
    refine .ofExcept_bind (fun e _ => .inl ⟨rfl, e, rfl⟩) fun _ _ => ?_
    cases hfound : (policy.entries.findIdx? (·.any (·.signer = peer.signerIdentity))).or
        (policy.entries.findIdx? Option.isNone) with
    | none => exact ensures_throw.mpr (.inl ⟨rfl, _, rfl⟩)
    | some found =>
      have hfound := lt_length_of_findIdx hfound
      dsimp only
      cases hrefresh : (policy.entryAt found).filter (FragmentationPolicy.refreshes · peer) with
      | some entry =>
        have hentry := (Option.filter_eq_some_iff.mp hrefresh).1
        simp only [ensures_bind, ensures_check, ensures_set, ensures_pure, not_or, Nat.not_lt]
        refine ⟨fun _ => .inl ⟨trivial, _, rfl⟩, fun hclock => ?_⟩
        have hstep : ∀ base signer slot, Evolves base slot (acceptPeer signer peer nowMs)
            (policy.entryAt found) (some { entry with
              authenticatedCounter := peer.authenticatedCounter, lastNowMs := nowMs }) := by
          rw [hentry]
          exact fun _ _ _ => .step (.tick rfl hclock.2 rfl rfl)
        exact ⟨fun _ => .inr ⟨found, _, hfound, rfl, hstep, by rintro _ ⟨⟩⟩,
          fun _ => .inr ⟨found, _, hfound, rfl, hstep, fun _ h => (Except.ok.inj h).symm⟩⟩
      | none =>
        cases hexhausted : (policy.entryAt found).filter (·.generation + 1 ≥ 2 ^ 32) with
        | some =>
          have hentry := (Option.filter_eq_some_iff.mp hexhausted).1
          simp only [ensures_bind, ensures_set, ensures_throw]
          refine .inr ⟨found, _, hfound, rfl, fun _ _ _ => ?_, by rintro _ ⟨⟩⟩
          rw [hentry]
          exact .step (.tick rfl le_rfl rfl rfl)
        | none =>
          simp only [ensures_bind, ensures_check, ensures_set, ensures_pure]
          refine ⟨fun _ => .inl ⟨trivial, _, rfl⟩, fun _ => ?_⟩
          refine ⟨fun _ => .inr ⟨found, _, hfound, rfl, fun _ _ _ => .install _ ?_,
            by rintro _ ⟨⟩⟩, fun _ => .inr ⟨found, _, hfound, rfl, fun _ _ _ => .install _ ?_,
            fun _ h => (Except.ok.inj h).symm⟩⟩
          all_goals
            intro entry hentry
            rw [hentry]
            exact Nat.lt_succ_self _

theorem ensures_acceptPeer (localSigner : PublicKey) (peer : AuthenticatedPeerSchcContext)
    (nowMs : Nat) :
    Ensures (FragmentationPolicy.acceptPeer localSigner peer nowMs) policy fun r policy' =>
      policy'.owner = policy.owner ∧
      (((∀ slot, policy'.entryAt slot = policy.entryAt slot) ∧ ∃ e, r = .error e) ∨
      ∃ found entry, found < policy.entries.length ∧
        (∀ slot, policy'.entryAt slot = (policy.setEntry found entry).entryAt slot) ∧
        (∀ base signer slot, Evolves base slot (acceptPeer signer peer nowMs)
          (policy.entryAt found) (some entry)) ∧
        ∀ permit, r = .ok permit → permit = policy.permitFor found entry) := by
  simp only [FragmentationPolicy.acceptPeer, FragmentationPolicy.bindLocalSigner, ensures_bind,
    ensures_get, ensures_check, ensures_set]
  refine ⟨fun _ => ⟨trivial, .inl ⟨fun _ => trivial, _, rfl⟩⟩,
    fun _ => (ensures_installPeer peer nowMs).imp ?_⟩
  rintro r _ (⟨rfl, h⟩ | ⟨found, entry, hfound, rfl, h⟩)
  · exact ⟨rfl, .inl ⟨fun _ => rfl, h⟩⟩
  · exact ⟨rfl, .inr ⟨found, entry, hfound, fun _ => rfl, h⟩⟩

theorem evolves_perform (call : Call) (policy : FragmentationPolicy) (slot : Nat) :
    Ensures call.perform policy fun _ policy' =>
      Evolves policy slot call (policy.entryAt slot) (policy'.entryAt slot) := by
  cases call with
  | acceptPeer localSigner peer nowMs =>
    rw [perform, ensures_map]
    refine (ensures_acceptPeer localSigner peer nowMs).imp ?_
    rintro _ policy' ⟨-, ⟨h, _⟩ | ⟨_, entry, hfound, h, hevolves, _⟩⟩
    · rw [h]
      exact .refl _
    · rw [h]
      exact .setEntry hfound (hevolves _ _ _)
  | retirePeer =>
    rw [perform, ensures_map, ensures_modify, FragmentationPolicy.retirePeer, entryAt_map rfl]
    cases hentry : policy.entryAt slot with
    | none => exact .absent
    | some entry =>
      rw [Option.bind_some]
      split
      · refine .retire ?_
        rwa [Retires, hentry]
      · exact .refl _
  | expireDue =>
    rw [perform, ensures_map]
    exact evolves_expireDue
  | session permit ruleId call =>
    cases htarget : policy.target permit ruleId with
    | none =>
      refine (SessionCall.ensures_perform_none htarget call).imp ?_
      rintro _ _ ⟨rfl, _⟩
      exact .refl _
    | some target =>
      obtain ⟨index, entry⟩ := target
      refine (SessionCall.ensures_perform_some htarget).imp ?_
      rintro _ _ ⟨_, rfl, houtcome⟩
      have hentry := entryAt_of_currentEntry (target_eq_some.mp htarget).2
      refine .setEntry (lt_length_of_entryAt hentry) ?_
      rw [hentry]
      exact .step (houtcome.moves.mono nofun)

end Call

/-- The policy, and what is recorded of the entry in one of its slots while it is neither replaced
nor retired. -/
structure Tracked (ε : Type) where
  policy : FragmentationPolicy
  log : List ε

section

variable {ε : Type} (slot : Nat) (events : FragmentationPolicy → Call → Except FragmentError Answer →
  FragmentationPolicyEntry → FragmentationPolicyEntry → List ε)

def track (s : Tracked ε) (call : Call) : Tracked ε :=
  let performed := execute call.perform s.policy
  ⟨performed.2, match s.policy.entryAt slot, performed.2.entryAt slot with
    | some entry, some entry' =>
      if entry'.generation = entry.generation then
        events s.policy call performed.1 entry entry' ++ s.log
      else []
    | _, _ => []⟩

def Tracks (I : FragmentationPolicyEntry → List ε → Prop) (s : Tracked ε) : Prop :=
  match s.policy.entryAt slot with
  | none => s.log = []
  | some entry => I entry s.log

variable {slot} {events}

theorem Tracks.step (hfresh : ∀ peer generation nowMs, I (freshEntry peer generation nowMs) [])
    (hstep : ∀ entry entry', s.policy.entryAt slot = some entry →
      (execute call.perform s.policy).2.entryAt slot = some entry' →
      entry.Step (fun role index => call.Due s.policy slot role index) call.ending entry' →
      I entry s.log →
      I entry' (events s.policy call (execute call.perform s.policy).1 entry entry' ++ s.log))
    (h : Tracks slot I s) : Tracks slot I (track slot events s call) := by
  have hevolves := ensures_iff_execute.mp (call.evolves_perform s.policy slot)
  simp only [Tracks, track] at h ⊢
  generalize execute call.perform s.policy = performed at hstep hevolves ⊢
  cases hbefore : s.policy.entryAt slot with
  | none =>
    cases hafter : performed.2.entryAt slot with
    | none => rfl
    | some =>
      rw [hbefore, hafter] at hevolves
      cases hevolves with
      | install => exact hfresh _ _ _
  | some entry =>
    cases hafter : performed.2.entryAt slot with
    | none => rfl
    | some entry' =>
      rw [hbefore, hafter] at hevolves
      rw [hbefore] at h
      cases hevolves with
      | step hmoves =>
        dsimp only
        rw [if_pos hmoves.generation]
        exact hstep entry entry' hbefore hafter hmoves h
      | install _ hgeneration =>
        dsimp only
        split
        · rename_i heq
          exact absurd heq (hgeneration entry rfl).ne'
        · exact hfresh _ _ _

theorem Tracks.nil_or (h : Tracks slot I s) :
    s.log = [] ∨ ∃ entry, s.policy.entryAt slot = some entry ∧ I entry s.log := by
  rw [Tracks] at h
  split at h
  · exact .inl h
  · rename_i entry hentry
    exact .inr ⟨entry, hentry, h⟩

theorem Tracks.new (owner maxPeers : Nat) :
    Tracks slot I ⟨FragmentationPolicy.new owner maxPeers, []⟩ := by
  have hentry : (FragmentationPolicy.new owner maxPeers).entryAt slot = none := by
    rw [entryAt, FragmentationPolicy.new, List.getElem?_replicate]
    split <;> rfl
  rw [Tracks, hentry]

end

/-- A peer, and the permit that a policy with the owner 7 gives out for it first. -/
def somePeer : AuthenticatedPeerSchcContext :=
  ⟨List.Vector.replicate 32 1, 1, List.Vector.replicate 16 0, 1, ruleSetVersion⟩

def somePermit : AuthenticatedFragmentationPermit :=
  ⟨7, 0, 1, 1, List.Vector.replicate 16 0, List.Vector.replicate 32 1⟩

/-- The peer is accepted; a receiver session takes the counters 5 and 6, and ends. -/
def releasedCalls : List Call :=
  [.acceptPeer (List.Vector.replicate 32 0) somePeer 0,
    .session somePermit ruleIdAToB (.reserveReceiver 0 1),
    .session somePermit ruleIdAToB (.touchReceiver 1 1 5),
    .session somePermit ruleIdAToB (.releaseReceiver 1 2 6 .default)]

end Lichen.Schc
