import Lichen.Lib.Run
import Lichen.Schc.PolicyRun

namespace Lichen.Schc

open Lichen.Lib Lichen.Core FragmentationPolicy

def Call.after (policy : FragmentationPolicy) (call : Call) : FragmentationPolicy :=
  (execute call.perform policy).2

def FragmentationPolicy.acceptsEntry (policy : FragmentationPolicy)
    (permit : AuthenticatedFragmentationPermit) (peer : AuthenticatedPeerSchcContext) : Bool :=
  peer.signerIdentity = permit.signer && peer.keyGeneration = permit.keyGeneration &&
    peer.durableKeyGeneration = permit.durableKeyGeneration &&
    (policy.currentEntry permit).any fun entry =>
      entry.compatible && entry.authenticatedCounter = peer.authenticatedCounter

variable {policy : FragmentationPolicy} {slot : Nat} {entry : FragmentationPolicyEntry}
  {permit : AuthenticatedFragmentationPermit}

def Reached (slot generation : Nat) (policy : FragmentationPolicy) : Prop :=
  ∃ entry, policy.entryAt slot = some entry ∧ generation ≤ entry.generation

theorem Reached.after (h : Reached slot generation policy) (call : Call)
    (hretires : ¬call.Retires slot policy) : Reached slot generation (call.after policy) := by
  obtain ⟨entry, hentry, hle⟩ := h
  have hevolves := ensures_iff_execute.mp (call.evolves_perform policy slot)
  rw [Reached, Call.after]
  rw [hentry] at hevolves
  generalize (execute call.perform policy).2.entryAt slot = o at hevolves ⊢
  cases hevolves with
  | step hstep => exact ⟨_, rfl, hstep.generation ▸ hle⟩
  | retire h => exact absurd h hretires
  | install _ hlt => exact ⟨_, rfl, hle.trans (hlt entry rfl).le⟩

theorem Reached.currentEntry (h : Reached permit.slot (permit.generation + 1) policy) :
    policy.currentEntry permit = none := by
  obtain ⟨entry, hentry, hle⟩ := h
  simp [FragmentationPolicy.currentEntry, hentry, Option.filter_some]
  omega

theorem reached_acceptPeer {localSigner : PublicKey}
    (h : (execute (FragmentationPolicy.acceptPeer localSigner peer nowMs) policy).1 = .ok permit) :
    Reached permit.slot permit.generation ((Call.acceptPeer localSigner peer nowMs).after policy) := by
  have hensures : Ensures (Call.acceptPeer localSigner peer nowMs).perform policy
      fun r policy' => ∀ permit, r = .ok (.permit permit) →
        Reached permit.slot permit.generation policy' := by
    rw [Call.perform, ensures_map]
    refine (Call.ensures_acceptPeer localSigner peer nowMs).imp ?_
    rintro r policy' ⟨-, ⟨_, _, rfl⟩ | ⟨_, entry, hfound, heq, _, hpermit⟩⟩ permit hr
    · cases hr
    · cases r with
      | error => cases hr
      | ok =>
        cases hr
        rw [hpermit _ rfl]
        exact ⟨entry, by simp [heq, entryAt_setEntry hfound, permitFor], le_rfl⟩
  refine ensures_iff_execute.mp hensures permit ?_
  rw [execute] at h ⊢
  simp only [Call.perform, Functor.map, EStateM.map]
  cases hrun : FragmentationPolicy.acceptPeer localSigner peer nowMs policy <;> simp_all

/-- Unless the entry in its slot is retired, a permit whose entry was replaced stays revoked. -/
theorem revoked_of_replaced (policy : FragmentationPolicy) (between later : List Call)
    (localSigner : PublicKey) (peer : AuthenticatedPeerSchcContext) (nowMs : Nat)
    (permit : AuthenticatedFragmentationPermit)
    (hissued : (execute (FragmentationPolicy.acceptPeer localSigner peer nowMs) policy).1 =
      .ok permit)
    (hkept : Steps (fun policy call => ¬call.Retires permit.slot policy) Call.after
      ((Call.acceptPeer localSigner peer nowMs).after policy) (between ++ later))
    (hreplaced : ∀ entry, (run Call.after ((Call.acceptPeer localSigner peer nowMs).after policy)
      between).entryAt permit.slot = some entry → entry.generation ≠ permit.generation) :
    (run Call.after ((Call.acceptPeer localSigner peer nowMs).after policy)
      (between ++ later)).currentEntry permit = none := by
  obtain ⟨hbetween, hlater⟩ := steps_append.mp hkept
  have hissued : Reached permit.slot permit.generation _ := run_invariant_of_steps
    (fun _ call h => h.after call) (reached_acceptPeer hissued) between hbetween
  obtain ⟨entry, hentry, hle⟩ := hissued
  rw [run_append]
  apply Reached.currentEntry
  refine run_invariant_of_steps (fun _ call h => h.after call) ⟨entry, hentry, ?_⟩ later hlater
  exact Nat.lt_of_le_of_ne hle (hreplaced entry hentry).symm

theorem revoked_of_rekeyed :
    let issued := run Call.after (FragmentationPolicy.new 7 1) (releasedCalls.take 1)
    let rekeyed := [Call.acceptPeer (List.Vector.replicate 32 0) { somePeer with keyGeneration := 2 } 1]
    (run Call.after issued rekeyed).entryAt 0 ≠ none ∧
      (run Call.after issued (rekeyed ++ [.expireDue 2])).currentEntry somePermit = none :=
  ⟨by decide +kernel, revoked_of_replaced (FragmentationPolicy.new 7 1) _ [.expireDue 2]
    (List.Vector.replicate 32 0) somePeer 0 somePermit (by decide +kernel) (by decide +kernel)
    (by decide +kernel)⟩

/-- Once its peer was retired and accepted anew, the policy accepts the permit again. -/
theorem permit_revives :
    let issued := run Call.after (FragmentationPolicy.new 7 1) (releasedCalls.take 1)
    issued.acceptsEntry somePermit somePeer = true ∧
      (run Call.after issued [.retirePeer somePeer.signerIdentity]).acceptsEntry somePermit somePeer =
        false ∧
      (run Call.after issued (.retirePeer somePeer.signerIdentity :: releasedCalls.take 1)).acceptsEntry
        somePermit somePeer = true := by
  decide +kernel

end Lichen.Schc
