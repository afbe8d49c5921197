import Lichen.Lib.Fold
import Lichen.Link.Restore

namespace Lichen.Link

open Lichen.Lib Lichen.Core

variable {crypto : Crypto} {l l' l₀ : LinkLayer}

/-- The evidence is that of a frame this link layer has released. -/
def LinkLayer.acceptsAuthenticatedFrame (l : LinkLayer) (frame : AuthenticatedFrame) : Bool :=
  frame.peerKeyGenerationId ∉ l.retired ∧
    (l.peers.get frame.sender.iid).any (fun peer =>
      peer.identity.pubkey = frame.sender.pubkey ∧
        peer.keyGenerationId = frame.peerKeyGenerationId ∧
        peer.durableKeyGeneration = frame.durablePeerKeyGeneration) ∧
    (l.pinned.get frame.sender.iid).any (·.pubkey = frame.sender.pubkey)

inductive LinkCall where
  | direct (op : LinkOp)
  | restore (record : Bytes) (minimumRevision : UInt64)

def LinkCall.perform (crypto : Crypto) (l : LinkLayer) : LinkCall → Option LinkLayer
  | direct op => (LinkRun.call crypto [] l op).link
  | restore record minimumRevision =>
    match l.restorePeerTrustState crypto record minimumRevision with
    | .ok (_, l) => some l
    | .error _ => some l

/-- A peer of `l'` is one of `l` or has a key generation that `l` had not issued. -/
structure Reissues (l l' : LinkLayer) : Prop where
  next : l.nextPeerKeyGeneration ≤ l'.nextPeerKeyGeneration
  peers : ∀ iid t', l'.peers.get iid = some t' →
    (∃ t, l.peers.get iid = some t ∧ t'.identity = t.identity ∧
      t'.keyGenerationId = t.keyGenerationId) ∨
    (l.nextPeerKeyGeneration ≤ t'.keyGenerationId ∧ t'.keyGenerationId < l'.nextPeerKeyGeneration)

theorem Reissues.refl : Reissues l l :=
  ⟨le_rfl, fun _ t ht => .inl ⟨t, ht, rfl, rfl⟩⟩

theorem Reissues.trans (h : Reissues l₀ l) (h' : Reissues l l') : Reissues l₀ l' where
  next := h.next.trans h'.next
  peers := fun iid t' ht' => by
    obtain ⟨t, ht, hidentity', hid'⟩ | ⟨hle', hlt'⟩ := h'.peers iid t' ht'
    · obtain ⟨t₀, ht₀, hidentity, hid⟩ | ⟨hle, hlt⟩ := h.peers iid t ht
      · exact .inl ⟨t₀, ht₀, hidentity'.trans hidentity, hid'.trans hid⟩
      · exact .inr ⟨hid' ▸ hle, hid' ▸ hlt.trans_le h'.next⟩
    · exact .inr ⟨h.next.trans hle', hlt'⟩

theorem reissues_insert (hnext : l'.nextPeerKeyGeneration = l.nextPeerKeyGeneration + 1)
    (hpeers : l'.peers = l.peers.insert iid t) (hid : t.keyGenerationId = l.nextPeerKeyGeneration) :
    Reissues l l' := by
  refine ⟨by omega, fun i u hu => ?_⟩
  obtain ⟨-, rfl⟩ | ⟨-, hu⟩ := HashMap.get_of_get_insert (hpeers ▸ hu)
  · exact .inr ⟨hid.ge, by omega⟩
  · exact .inl ⟨u, hu, rfl, rfl⟩

theorem Move.reissues (hmove : Move crypto l l') : Reissues l l' := by
  cases hmove with
  | keep _ _ hnext hpeers =>
    refine ⟨hnext, fun iid t' ht' => ?_⟩
    obtain ⟨t, _, ht, rfl⟩ := hpeers iid t' ht'
    exact .inl ⟨t, ht, rfl, rfl⟩
  | issue hissues _ _ hnext hpeers => exact reissues_insert hnext hpeers hissues.id

theorem restorePeerTrustState_ok
    (h : l.restorePeerTrustState crypto record minimumRevision = .ok (revision, l')) :
    ∃ state window, readTrustState crypto l.identity.pubkey record minimumRevision = .ok state ∧
      ReplayWindow.fromPersistentParts state.lastSeq state.window = some window ∧
      revision = state.revision ∧
      l' = { l with nextPeerKeyGeneration := l.nextPeerKeyGeneration + 1 }.installTrustState state
        (.fromPubkey crypto state.peerKey) window l.nextPeerKeyGeneration := by
  simp only [LinkLayer.restorePeerTrustState, bind_eq_ok] at h
  obtain ⟨state, hread, h⟩ := h
  split at h
  · rename_i window hwindow
    rw [guard_eq_ok] at h
    obtain ⟨-, h⟩ := h
    split at h
    · rename_i halloc
      obtain ⟨rfl, rfl⟩ := allocateKeyGeneration_eq_some halloc
      cases pure_eq_ok.mp h
      exact ⟨state, window, hread, hwindow, rfl, rfl⟩
    · cases h
  · cases h

theorem Reissues.perform (h : LinkCall.perform crypto l call = some l') : Reissues l l' := by
  cases call with
  | direct =>
    exact reflTransGen_invariant (fun hmove hl => hl.trans hmove.reissues) (LinkRun.moves_call h)
      Reissues.refl
  | restore record minimumRevision =>
    simp only [LinkCall.perform] at h
    split at h
    · rename_i hrestore
      obtain ⟨_, _, -, -, -, rfl⟩ := restorePeerTrustState_ok hrestore
      cases h
      exact reissues_insert rfl rfl rfl
    · cases h
      exact .refl

theorem Reissues.run (h : List.foldlM (LinkCall.perform crypto) l calls = some l') :
    Reissues l l' :=
  foldlM_invariant (fun _ _ _ _ hs hcall => hs.trans (.perform hcall)) Reissues.refl h

/-- The call that ends a peer: it unpins, removes or forgets it, or leaves another key or none. -/
def LinkCall.Revokes (call : LinkCall) (peer : PeerIdentity) (l' : LinkLayer) : Prop :=
  call = .direct (.unpinPeer peer.iid) ∨ call = .direct (.removePeer peer.iid) ∨
    call = .direct (.forgetPeer peer.iid) ∨
    ∀ t, l'.peers.get peer.iid = some t → t.identity.pubkey ≠ peer.pubkey

theorem get_removePeer : (l.removePeer iid).peers.get iid = none := by
  simp only [LinkLayer.removePeer]
  split
  · assumption
  · exact HashMap.get_remove_self _ _

theorem get_forgetPeer : (l.forgetPeer iid).peers.get iid = none := by
  simp only [LinkLayer.forgetPeer]
  cases h : l.peers.get iid with
  | none =>
    simp only [Option.map_none]
    repeat' split
    all_goals exact h
  | some =>
    simp only [Option.map_some]
    repeat' split
    all_goals exact HashMap.get_remove_self _ _

theorem LinkCall.Revokes.peers (h : call.Revokes peer l')
    (hl' : LinkCall.perform crypto l call = some l') (ht : l'.peers.get peer.iid = some t) :
    t.identity.pubkey ≠ peer.pubkey ∨ l.nextPeerKeyGeneration ≤ t.keyGenerationId := by
  obtain rfl | rfl | rfl | hother := h
  · exact .inr ((changes_unpinPeer hl').2 t ht).ge
  · cases hl'
    cases get_removePeer.symm.trans ht
  · cases hl'
    cases get_forgetPeer.symm.trans ht
  · exact .inl (hother t ht)

/-- A frame that was accepted once is never again accepted after a call has ended its peer. -/
theorem revoked_for_good (crypto : Crypto) (identity : Identity) (next : Nat)
    (before between after : List LinkCall) (call : LinkCall) (frame : AuthenticatedFrame)
    (l l₁ l₂ l₃ : LinkLayer)
    (hl : before.foldlM (LinkCall.perform crypto) (LinkLayer.new identity next) = some l)
    (haccepts : l.acceptsAuthenticatedFrame frame = true)
    (hl₁ : between.foldlM (LinkCall.perform crypto) l = some l₁)
    (hl₂ : call.perform crypto l₁ = some l₂) (hrevokes : call.Revokes frame.sender l₂)
    (hl₃ : after.foldlM (LinkCall.perform crypto) l₂ = some l₃) :
    l₃.acceptsAuthenticatedFrame frame = false := by
  simp only [LinkLayer.acceptsAuthenticatedFrame, decide_eq_true_eq, decide_eq_false_iff_not,
    Option.any_eq_true] at haccepts ⊢
  obtain ⟨-, ⟨t, ht, hkey, hid, -⟩, -⟩ := haccepts
  rintro ⟨-, ⟨t₃, ht₃, -, hid₃, -⟩, -⟩
  have hissued : t.keyGenerationId < l.nextPeerKeyGeneration := by
    obtain ⟨_, hnone, -⟩ | ⟨-, hlt⟩ := (Reissues.run hl).peers _ t ht
    · cases hnone
    · exact hlt
  have hnext := (Reissues.run hl₁).next
  have h₂ := (Reissues.run hl₁).trans (.perform hl₂)
  obtain ⟨t₂, ht₂, -, hid₂⟩ | ⟨hle, -⟩ := (Reissues.run hl₃).peers _ t₃ ht₃
  · obtain ⟨u, hu, hidentity, -⟩ | ⟨hle, -⟩ := h₂.peers _ t₂ ht₂
    · cases ht.symm.trans hu
      obtain hne | hle := hrevokes.peers hl₂ ht₂
      · exact hne (hidentity ▸ hkey)
      · omega
    · omega
  · have := h₂.next
    omega

def constantCalls : List LinkCall :=
  [.direct (.addPeer .inserted ⟨List.Vector.replicate 32 0, List.Vector.replicate 8 0⟩),
    .direct (.receive .inserted LinkRun.constantFrame.wire ⟨0, 0, none⟩)]

/-- The frame that the last call released, in the state before it. -/
def releasedFrame (l : LinkLayer) : Option AuthenticatedFrame :=
  match (l.receiveFrameWithReceipt LinkRun.constantCrypto .inserted LinkRun.constantFrame.wire
    ⟨0, 0, none⟩).1 with
  | some (.ok frame) => some frame
  | _ => none

theorem unpinned_frame_stays_revoked : ∃ frame l l₂ l₃,
    constantCalls.foldlM (LinkCall.perform LinkRun.constantCrypto)
      (LinkLayer.new LinkRun.constantIdentity 1) = some l ∧
    l.acceptsAuthenticatedFrame frame = true ∧
    (LinkCall.direct (.unpinPeer frame.sender.iid)).perform LinkRun.constantCrypto l = some l₂ ∧
    constantCalls.foldlM (LinkCall.perform LinkRun.constantCrypto) l₂ = some l₃ ∧
    l₃.acceptsAuthenticatedFrame frame = false := by
  have hrun : (do
      let l₀ ← (constantCalls.take 1).foldlM (LinkCall.perform LinkRun.constantCrypto)
        (LinkLayer.new LinkRun.constantIdentity 1)
      let frame ← releasedFrame l₀
      let l ← constantCalls.foldlM (LinkCall.perform LinkRun.constantCrypto)
        (LinkLayer.new LinkRun.constantIdentity 1)
      let l₂ ← (LinkCall.direct (.unpinPeer frame.sender.iid)).perform LinkRun.constantCrypto l
      let _ ← constantCalls.foldlM (LinkCall.perform LinkRun.constantCrypto) l₂
      pure (l.acceptsAuthenticatedFrame frame)) = some true := by
    decide +kernel
  simp only [Option.bind_eq_bind, Option.bind_eq_some_iff] at hrun
  obtain ⟨_, -, frame, -, l, hl, l₂, hl₂, l₃, hl₃, haccepts⟩ := hrun
  exact ⟨frame, l, l₂, l₃, hl, Option.some.inj haccepts, hl₂, hl₃,
    revoked_for_good _ _ _ _ [] _ _ frame l l l₂ l₃ hl (Option.some.inj haccepts) rfl hl₂ (.inl rfl)
      hl₃⟩

end Lichen.Link
