import Lichen.Link.FrameWire
import Lichen.Link.Generations
import Lichen.Link.TrustState

namespace Lichen.Link

open Lichen.Lib Lichen.Core HashMap

variable {crypto : Crypto} {l l' : LinkLayer}

/-- The durable generation of a configured peer was derived from a serial already used up. -/
structure Allocated (crypto : Crypto) (own : PublicKey) (next : Nat) (t : TrackedPeer) : Prop where
  generation : durableGenerationFor crypto own t.identity.pubkey t.durableGenerationSerial =
    some t.durableKeyGeneration
  serial_pos : 0 < t.durableGenerationSerial
  serial_lt : t.durableGenerationSerial < next

structure Durable (crypto : Crypto) (l : LinkLayer) : Prop where
  next_pos : 0 < l.nextDurableGeneration
  next_lt : l.nextDurableGeneration < 2 ^ 64
  peers : ∀ iid t, l.peers.get iid = some t →
    Allocated crypto l.identity.pubkey l.nextDurableGeneration t

theorem durable_new (identity : Identity) (next : Nat) :
    Durable crypto (LinkLayer.new identity next) :=
  ⟨Nat.one_pos, Nat.one_lt_two_pow (by decide), nofun⟩

theorem Durable.move (hmove : Move crypto l l') (h : Durable crypto l) : Durable crypto l' := by
  cases hmove with
  | keep hidentity hserial _ hpeers =>
    refine ⟨hserial ▸ h.next_pos, hserial ▸ h.next_lt, fun iid t' ht' => ?_⟩
    obtain ⟨t, _, ht, rfl⟩ := hpeers iid t' ht'
    obtain ⟨hgeneration, hpos, hlt⟩ := h.peers iid t ht
    exact ⟨hidentity ▸ hgeneration, hpos, hserial ▸ hlt⟩
  | issue hissues hidentity hserial _ hpeers =>
    refine ⟨by omega, hserial ▸ hissues.room, fun i u hu => ?_⟩
    rw [hidentity, hserial]
    obtain ⟨-, rfl⟩ | ⟨-, hu⟩ := get_of_get_insert (hpeers ▸ hu)
    · exact ⟨hissues.generation, hissues.serial ▸ h.next_pos, hissues.serial ▸ Nat.lt_succ_self _⟩
    · obtain ⟨hgeneration, hpos, hlt⟩ := h.peers i u hu
      exact ⟨hgeneration, hpos, hlt.trans (Nat.lt_succ_self _)⟩

namespace LinkRun

theorem durable_step (r : LinkRun) (op : LinkOp) (h : ∀ l, r.link = some l → Durable crypto l) :
    ∀ l, (step crypto r op).link = some l → Durable crypto l := by
  intro l' hl'
  rw [step] at hl'
  split at hl'
  · exact h l' hl'
  · exact reflTransGen_invariant Durable.move (moves_call hl') (h _ ‹_›)

theorem durable_run (identity : Identity) (next : Nat) (ops : List LinkOp) :
    ∀ l, (run (step crypto) (start identity next) ops).link = some l → Durable crypto l := by
  refine run_invariant (I := fun r : LinkRun => ∀ l, r.link = some l → Durable crypto l)
    durable_step ?_ ops
  intro l hl
  cases hl
  exact durable_new identity next

end LinkRun

structure PeerTrust where
  identity : PeerIdentity
  durable : DurablePeerKeyGeneration
  lastEpoch : UInt8
  window : ReplayWindow

def PeerTrust.check (p : PeerTrust) (epoch : UInt8) (seqnum : LinkSeqNum) : Bool × PeerTrust :=
  if epoch > p.lastEpoch then
    (true, { p with lastEpoch := epoch, window := ⟨seqnum, 1#32, true, .tracking⟩ })
  else if epoch < p.lastEpoch then (false, p)
  else ((p.window.accept seqnum).1, { p with window := (p.window.accept seqnum).2 })

structure LinkLayer.Holds (l : LinkLayer) (p : PeerTrust) : Prop where
  peer : ∃ t, l.peers.get p.identity.iid = some t ∧ t.identity = p.identity ∧
    t.durableKeyGeneration = p.durable
  pinned : l.pinned.get p.identity.iid = some ⟨p.identity.pubkey⟩
  window : ∃ lastAccess,
    l.replay.peers.get p.identity.pubkey = some ⟨p.lastEpoch, p.window, lastAccess⟩

variable {p : PeerTrust}

theorem LinkLayer.Holds.check (h : l.Holds p) (order : HashOrder) (epoch : UInt8)
    (seqnum : LinkSeqNum) :
    let checked := l.replay.checkAndUpdate order p.identity.pubkey epoch seqnum
    checked.1 = (p.check epoch seqnum).1 ∧
      { l with replay := checked.2 }.Holds (p.check epoch seqnum).2 ∧
      (p.check epoch seqnum).2.identity = p.identity := by
  obtain ⟨hpeer, hpinned, _, hget⟩ := h
  simp only [ReplayProtector.checkAndUpdate, PeerTrust.check, hget]
  split
  · exact ⟨rfl, ⟨hpeer, hpinned, _, get_insert_self _ _ _⟩, rfl⟩
  split
  · exact ⟨rfl, ⟨hpeer, hpinned, _, get_insert_self _ _ _⟩, rfl⟩
  · exact ⟨rfl, ⟨hpeer, hpinned, _, get_insert_self _ _ _⟩, rfl⟩

def AuthenticatedFrame.portable (frame : AuthenticatedFrame) : AuthenticatedFrame :=
  { frame with peerKeyGenerationId := 0 }

def outcome (result : Option (Except LinkRxError AuthenticatedFrame)) :
    Option (Except LinkRxError AuthenticatedFrame) :=
  result.map (·.map AuthenticatedFrame.portable)

/-- The frame that a link layer with this identity makes of a wire frame of the peer. -/
def PeerTrust.released (p : PeerTrust) (own : Iid) (frame : LichenFrame) (signerEui64 : Iid)
    (receipt : ReceiptEvidence) : AuthenticatedFrame :=
  ⟨frame.payload, frame.dstAddr, frame.addrMode, p.identity, signerEui64, frame.epoch, frame.seqnum,
    0, p.durable, receipt, own⟩

theorem LinkLayer.Holds.release (h : l.Holds p) (frame : LichenFrame) (eui : Iid)
    (receipt : ReceiptEvidence) :
    let released := l.release frame p.identity eui .authenticated receipt
    outcome released.1 = some (.ok (p.released l.localEui64 frame eui receipt)) ∧
      released.2.Holds p ∧ released.2.identity = l.identity := by
  obtain ⟨_, ht, hidentity, hdurable⟩ := h.peer
  simp only [LinkLayer.release, ht, LinkLayer.peerAuthState, get_insert_self, hidentity,
    if_true]
  refine ⟨?_, ⟨⟨_, get_insert_self _ _ _, rfl, hdurable⟩, get_insert_self _ _ _,
    h.window⟩, rfl⟩
  rw [PeerTrust.released, ← hdurable]
  rfl

def SentBy (iid : Iid) (wire : Bytes) : Prop :=
  ∀ frame, LichenFrame.fromBytes wire = .ok frame → frame.signerEui64.length = 8 →
    flipUniversalLocal (toArray 8 frame.signerEui64) = iid

theorem authenticate_same (crypto : Crypto) (h : l.Holds p) (h' : l'.Holds p)
    (hidentity : l'.identity = l.identity) (hsigner : frame.signerEui64.length = 8 →
      flipUniversalLocal (toArray 8 frame.signerEui64) = p.identity.iid) :
    (∃ e, l.authenticate crypto frame = .error e ∧ l'.authenticate crypto frame = .error e) ∨
      ∃ t t' eui, l.authenticate crypto frame = .ok (t, eui) ∧
        l'.authenticate crypto frame = .ok (t', eui) ∧ t.identity = p.identity ∧
        t'.identity = p.identity := by
  obtain ⟨t, ht, htp, -⟩ := h.peer
  obtain ⟨t', ht', htp', -⟩ := h'.peer
  have hlocal : l'.wireIsForLocal frame = l.wireIsForLocal frame := by
    rw [LinkLayer.wireIsForLocal, LinkLayer.wireIsForLocal, LinkLayer.localEui64,
      LinkLayer.localEui64, hidentity]
  have hmap : (l.authenticate crypto frame).map (fun a => (a.1.identity, a.2)) =
      (l'.authenticate crypto frame).map fun a => (a.1.identity, a.2) := by
    simp only [LinkLayer.authenticate, throw_bind, except_map_ite, except_map_bind,
      except_map_throw]
    by_cases hlength : frame.signerEui64.length = 8
    · simp only [hsigner hlength, ht, ht', htp, htp', h.pinned, h'.pinned, hlocal, except_map_ite,
        except_map_throw, except_map_pure]
    · simp only [ne_eq, hlength, not_false_eq_true, if_true]
  obtain hfail | ⟨⟨_, eui⟩, ⟨u', _⟩, hok, hok', heq⟩ := cases_of_except_map_eq hmap
  · exact .inl hfail
  obtain ⟨hlength, heui, hu⟩ := authenticate_ok hok
  have hiid := hsigner hlength
  rw [heui, flipUniversalLocal_flip] at hiid
  rw [hiid, ht] at hu
  cases hu
  obtain ⟨hsame, rfl⟩ := Prod.mk.inj heq
  exact .inr ⟨t, u', eui, hok, hok', htp, hsame.symm.trans htp⟩

theorem LinkLayer.Holds.peerAuthState (h : l.Holds p) :
    l.peerAuthState p.identity.iid = .authenticated := by
  obtain ⟨_, ht, hidentity, -⟩ := h.peer
  simp only [LinkLayer.peerAuthState, ht, h.pinned, hidentity, if_true]

theorem LinkLayer.Holds.receive (h : l.Holds p) (hframe : LichenFrame.fromBytes wire = .ok frame)
    (hauth : l.authenticate crypto frame = .ok (t, eui)) (ht : t.identity = p.identity)
    (order : HashOrder) (receipt : ReceiptEvidence) :
    let received := l.receiveFrameWithReceipt crypto order wire receipt
    let checked := p.check frame.epoch frame.seqnum
    outcome received.1 = some (if checked.1 then
        .ok (checked.2.released l.localEui64 frame eui receipt) else .error .replay) ∧
      received.2.Holds checked.2 ∧ received.2.identity = l.identity := by
  obtain ⟨hanswer, hholds, hidentity⟩ := h.check order frame.epoch frame.seqnum
  simp only [LinkLayer.receiveFrameWithReceipt, hframe, hauth, ht, h.peerAuthState, hanswer]
  cases (p.check frame.epoch frame.seqnum).1 with
  | false => exact ⟨rfl, hholds, rfl⟩
  | true =>
    obtain ⟨houtcome, hreleased, hown⟩ := hholds.release frame eui receipt
    rw [hidentity] at houtcome hreleased hown
    exact ⟨houtcome, hreleased, hown⟩

/-- Two link layers of one identity that say the same of the peer `iid`. -/
structure SamePeer (iid : Iid) (l l' : LinkLayer) : Prop where
  identity : l'.identity = l.identity
  peer : ∃ p, p.identity.iid = iid ∧ l.Holds p ∧ l'.Holds p

/-- A frame that reaches two link layers, each with a hash order of its own. -/
structure Arrival where
  order : HashOrder
  order' : HashOrder
  wire : Bytes
  receipt : ReceiptEvidence

theorem SamePeer.receive (h : SamePeer iid l l') (a : Arrival) (hwire : SentBy iid a.wire) :
    let received := l.receiveFrameWithReceipt crypto a.order a.wire a.receipt
    let received' := l'.receiveFrameWithReceipt crypto a.order' a.wire a.receipt
    outcome received.1 = outcome received'.1 ∧ SamePeer iid received.2 received'.2 := by
  obtain ⟨hidentity, p, rfl, hl, hl'⟩ := h
  have hsame : SamePeer p.identity.iid l l' := ⟨hidentity, p, rfl, hl, hl'⟩
  have hlocal : l'.localEui64 = l.localEui64 := by
    rw [LinkLayer.localEui64, LinkLayer.localEui64, hidentity]
  cases hframe : LichenFrame.fromBytes a.wire with
  | error =>
    simp only [LinkLayer.receiveFrameWithReceipt, hframe]
    exact ⟨trivial, hsame⟩
  | ok frame =>
    obtain ⟨_, hfail, hfail'⟩ | ⟨_, _, _, hok, hok', ht, ht'⟩ :=
      authenticate_same crypto hl hl' hidentity (hwire frame hframe)
    · simp only [LinkLayer.receiveFrameWithReceipt, hframe, hfail, hfail']
      exact ⟨trivial, hsame⟩
    · obtain ⟨houtcome, hholds, hown⟩ := hl.receive hframe hok ht a.order a.receipt
      obtain ⟨houtcome', hholds', hown'⟩ := hl'.receive hframe hok' ht' a.order' a.receipt
      refine ⟨?_, ?_, _, ?_, hholds, hholds'⟩
      · rw [houtcome, houtcome', hlocal]
      · rw [hown, hown', hidentity]
      · rw [(hl.check a.order frame.epoch frame.seqnum).2.2]

def LinkLayer.outcomes (crypto : Crypto) (order : Arrival → HashOrder) (l : LinkLayer)
    (arrivals : List Arrival) : List (Option (Except LinkRxError AuthenticatedFrame)) :=
  trace (fun l a =>
    let (result, l) := l.receiveFrameWithReceipt crypto (order a) a.wire a.receipt
    (outcome result, l)) l arrivals

theorem SamePeer.outcomes (h : SamePeer iid l l') (arrivals : List Arrival)
    (hwires : ∀ a ∈ arrivals, SentBy iid a.wire) :
    l.outcomes crypto Arrival.order arrivals = l'.outcomes crypto Arrival.order' arrivals :=
  trace_eq_of_sim (R := SamePeer iid) (fun _ _ a hs hwire => hs.receive a hwire) h arrivals hwires

def LinkLayer.trustState (crypto : Crypto) (l : LinkLayer) (peer : TrackedPeer)
    (replay : PeerReplayState) (revision : UInt64) (schcFloorRecord : Option Bytes) : TrustState :=
  ⟨revision, l.identity.pubkey, peer.identity.pubkey, peer.durableKeyGeneration,
    peer.durableGenerationSerial, l.nextDurableGeneration, schcFloorRecord.map crypto.sha256,
    replay.lastEpoch, replay.window.lastSeq, replay.window.window⟩

theorem take_sealed (body : Bytes) (signature : List.Vector UInt8 48)
    (h : body.length + trustStateSignatureLen ≤ out.length) :
    (overwrite (overwrite out 0 body) body.length signature.toList).take
      (body.length + trustStateSignatureLen) = body ++ signature.toList := by
  have hlength : [body, signature.toList].flatten.length =
      body.length + trustStateSignatureLen := by
    simp [trustStateSignatureLen]
  have hle : 0 + [body, signature.toList].flatten.length ≤ out.length := by omega
  have htake := take_overwriteAll out 0 hle
  simpa [overwriteAll, trustStateSignatureLen] using htake

theorem persistPeerTrustState_ok
    (h : l.persistPeerTrustState crypto signDigest iid revision floor out = .ok (written, out')) :
    ∃ peer replay, revision ≠ 0 ∧ l.peers.get iid = some peer ∧
      l.pinned.get iid = some ⟨peer.identity.pubkey⟩ ∧
      l.replay.peers.get peer.identity.pubkey = some replay ∧
      out'.take written = (l.trustState crypto peer replay revision floor).body ++
        (signDigest (l.trustState crypto peer replay revision floor).body).toList := by
  simp only [LinkLayer.persistPeerTrustState, guard_eq_ok] at h
  obtain ⟨hrevision, hrest⟩ := h
  split at hrest
  · rename_i peer hpeer
    rw [guard_eq_ok] at hrest
    obtain ⟨hpin, hrest⟩ := hrest
    split at hrest
    · rename_i replay hreplay
      split at hrest
      · rename_i lastSeq window hparts
        obtain ⟨rfl, rfl⟩ := Prod.mk.inj (ReplayWindow.persistentParts_eq_some.mp hparts).2
        simp only [guard_eq_ok, pure_eq_ok] at hrest
        obtain ⟨hroom, hwritten⟩ := hrest
        obtain ⟨rfl, rfl⟩ := Prod.mk.inj hwritten
        refine ⟨peer, replay, hrevision, hpeer, ?_, hreplay, ?_⟩
        · cases hpinned : l.pinned.get iid with
          | none => simp [hpinned] at hpin
          | some pin =>
            obtain ⟨_⟩ := pin
            simpa [hpinned] using hpin
        · exact take_sealed _ _ (Nat.not_lt.mp hroom)
      · cases hrest
    · cases hrest
  · cases hrest

theorem restorePeerTrustState_new (hgood : LinkGood crypto l log) (hdurable : Durable crypto l)
    (hsign : ∀ m, crypto.verify l.identity.pubkey m (signDigest m) = true)
    (hpersist : l.persistPeerTrustState crypto signDigest iid revision floor out =
      .ok (written, out')) (minimumRevision : UInt64) (next : Nat) :
    match (LinkLayer.new l.identity next).restorePeerTrustState crypto (out'.take written)
      minimumRevision with
    | .error e => (e = .rollback ∧ revision < minimumRevision) ∨ (e = .conflict ∧ 2 ^ 64 ≤ next + 1)
    | .ok (restoredRevision, restored) => restoredRevision = revision ∧ SamePeer iid l restored := by
  obtain ⟨peer, replay, hrevision, hpeer, hpin, hreplay, hrecord⟩ :=
    persistPeerTrustState_ok hpersist
  obtain ⟨hgeneration, hpos, hlt⟩ := hdurable.peers iid peer hpeer
  obtain ⟨_, htracks⟩ := hgood.inv.tracks hreplay
  obtain ⟨hiid, hkey⟩ := hgood.inv.peers_iid iid peer hpeer
  have hvalid : (l.trustState crypto peer replay revision floor).Valid crypto :=
    ⟨hrevision, hgeneration, hpos, hlt, hdurable.next_lt⟩
  have hread : readTrustState crypto (LinkLayer.new l.identity next).identity.pubkey
      (out'.take written) minimumRevision = if revision < minimumRevision then .error .rollback
        else .ok (l.trustState crypto peer replay revision floor) := by
    rw [hrecord]
    exact readTrustState_body hvalid (hsign _)
  have hpeerIdentity : PeerIdentity.fromPubkey crypto peer.identity.pubkey = peer.identity := by
    rw [PeerIdentity.fromPubkey, hkey, ← hiid]
  simp only [LinkLayer.restorePeerTrustState, hread, throw_bind]
  by_cases hmin : revision < minimumRevision
  · rw [if_pos hmin]
    exact .inl ⟨rfl, hmin⟩
  have hfresh : ¬((LinkLayer.new l.identity next).peers.len ≥ (LinkLayer.new l.identity next).maxPeers ∨
      (LinkLayer.new l.identity next).replay.peers.len ≥
        (LinkLayer.new l.identity next).replay.maxPeers ∨
      (LinkLayer.new l.identity next).peers.containsKey peer.identity.iid ∨
      (LinkLayer.new l.identity next).pinned.containsKey peer.identity.iid) := by
    simp [LinkLayer.new, ReplayProtector.new, HashMap.containsKey]
  rw [if_neg hmin]
  simp only [bind, Except.bind, LinkLayer.trustState, htracks.fromPersistentParts, hpeerIdentity]
  rw [if_neg hfresh]
  cases halloc : (LinkLayer.new l.identity next).allocateKeyGeneration with
  | none =>
    refine .inr ⟨rfl, ?_⟩
    simpa [LinkLayer.allocateKeyGeneration, LinkLayer.new] using halloc
  | some allocated =>
    obtain ⟨_, _⟩ := allocated
    obtain ⟨rfl, rfl⟩ := allocateKeyGeneration_eq_some halloc
    rw [← hiid] at hpeer hpin
    exact ⟨rfl, rfl, ⟨peer.identity, peer.durableKeyGeneration, replay.lastEpoch, replay.window⟩,
      hiid, ⟨⟨peer, hpeer, rfl, rfl⟩, hpin, _, hreplay⟩,
      ⟨_, get_insert_self _ _ _, rfl, rfl⟩, get_insert_self _ _ _, _, get_insert_self _ _ _⟩

namespace LinkRun

/-- A peer's record, sealed in any reachable state and restored into a fresh link layer of the same
identity, answers every later sequence of the peer's frames as the original would. The restore is
refused only for a revision that is too old or when the process has no key generation left. -/
theorem restored_answers_same (crypto : Crypto) (identity : Identity) (first : Nat)
    (ops : List LinkOp) (l : LinkLayer)
    (hl : (run (step crypto) (start identity first) ops).link = some l)
    (signDigest : Bytes → List.Vector UInt8 48)
    (hsign : ∀ m, crypto.verify l.identity.pubkey m (signDigest m) = true)
    (iid : Iid) (revision : UInt64) (schcFloorRecord : Option Bytes) (out out' : Bytes)
    (written : Nat)
    (hpersist : l.persistPeerTrustState crypto signDigest iid revision schcFloorRecord out =
      .ok (written, out'))
    (minimumRevision : UInt64) (next : Nat) :
    match (LinkLayer.new l.identity next).restorePeerTrustState crypto (out'.take written)
      minimumRevision with
    | .error e => (e = .rollback ∧ revision < minimumRevision) ∨ (e = .conflict ∧ 2 ^ 64 ≤ next + 1)
    | .ok (restoredRevision, restored) => restoredRevision = revision ∧
      ∀ arrivals : List Arrival, (∀ a ∈ arrivals, SentBy iid a.wire) →
        l.outcomes crypto Arrival.order arrivals = restored.outcomes crypto Arrival.order' arrivals
    := by
  have hgood : Good crypto (run (step crypto) (start identity first) ops) :=
    run_invariant good_step (good_start identity first) ops
  have hrestore := restorePeerTrustState_new (hgood.link l hl)
    (durable_run identity first ops l hl) hsign hpersist minimumRevision next
  split at hrestore
  · exact hrestore
  · exact ⟨hrestore.1, fun arrivals hwires => hrestore.2.outcomes arrivals hwires⟩

def constantCrypto : Crypto :=
  ⟨fun _ => List.Vector.replicate 32 1, fun _ => List.Vector.replicate 64 0, sumVerify⟩

def constantIdentity : Identity := ⟨List.Vector.replicate 32 1, List.Vector.replicate 8 1⟩

def constantFrame : LichenFrame :=
  ⟨3, 7, [], [2, 0, 0, 0, 0, 0, 0, 0], [0x61], 44 :: List.replicate 47 0, .none, .bits32, .present,
    .plaintext⟩

def constantRun : LinkRun :=
  run (step constantCrypto) (start constantIdentity 1)
    [.addPeer .inserted ⟨List.Vector.replicate 32 0, List.Vector.replicate 8 0⟩,
      .receive .inserted constantFrame.wire ⟨0, 0, none⟩]

theorem constantRun_restored_answers_same : ∃ l written out' restored,
    constantRun.link = some l ∧
    l.persistPeerTrustState constantCrypto (sumSignature constantIdentity.pubkey)
      (List.Vector.replicate 8 0) 1 none (List.replicate 256 0) = .ok (written, out') ∧
    (LinkLayer.new constantIdentity 1).restorePeerTrustState constantCrypto (out'.take written) 1 =
      .ok (1, restored) ∧
    ∀ arrivals : List Arrival, (∀ a ∈ arrivals, SentBy (List.Vector.replicate 8 0) a.wire) →
      l.outcomes constantCrypto Arrival.order arrivals =
        restored.outcomes constantCrypto Arrival.order' arrivals := by
  have hpersisted : (constantRun.link.any fun l => l.identity = constantIdentity ∧
      (l.persistPeerTrustState constantCrypto (sumSignature constantIdentity.pubkey)
        (List.Vector.replicate 8 0) 1 none (List.replicate 256 0)).isOk) = true := by
    decide +kernel
  cases hl : constantRun.link with
  | none => rw [hl] at hpersisted; cases hpersisted
  | some l =>
    rw [hl, Option.any_some, decide_eq_true_iff] at hpersisted
    obtain ⟨hidentity, hok⟩ := hpersisted
    cases hpersist : l.persistPeerTrustState constantCrypto (sumSignature constantIdentity.pubkey)
        (List.Vector.replicate 8 0) 1 none (List.replicate 256 0) with
    | error e => rw [hpersist] at hok; cases hok
    | ok result =>
      obtain ⟨written, out'⟩ := result
      have hsame := restored_answers_same _ _ _ _ l hl _
        (fun m => hidentity ▸ sumVerify_sumSignature _ m) _ _ _ _ _ _ hpersist 1 1
      rw [hidentity] at hsame
      split at hsame
      · obtain ⟨-, hold⟩ | ⟨-, hspent⟩ := hsame
        · exact absurd hold (by decide)
        · exact absurd hspent (by decide)
      · rename_i restored hrestored
        obtain ⟨rfl, hanswers⟩ := hsame
        exact ⟨l, written, out', restored, rfl, hpersist, hrestored, hanswers⟩

end LinkRun

def PeerReplayState.mark (state : PeerReplayState) : UInt8 × ReplayWindow :=
  (state.lastEpoch, state.window)

theorem ReplayProtector.mark_of_rejected {r r' : ReplayProtector}
    (h : r.checkAndUpdate order k epoch seqnum = (false, r')) (k' : PublicKey) :
    (r'.peers.get k').map PeerReplayState.mark = (r.peers.get k').map PeerReplayState.mark := by
  have hkept : ∀ {old new : PeerReplayState}, r.peers.get k = some old → new.mark = old.mark →
      ((r.peers.insert k new).get k').map PeerReplayState.mark =
        (r.peers.get k').map PeerReplayState.mark := by
    intro old new hget hmark
    rw [get_insert]
    split
    · subst k'
      rw [hget, Option.map_some, Option.map_some, hmark]
    · rfl
  simp only [checkAndUpdate] at h
  cases hget : r.peers.get k with
  | none => simp [hget, PeerReplayState.new, ReplayWindow.accept_fresh] at h
  | some =>
    simp only [hget] at h
    split_ifs at h
    · cases h
    · cases h
      exact hkept hget rfl
    · obtain ⟨hok, rfl⟩ := Prod.mk.inj h
      refine hkept hget ?_
      simp [PeerReplayState.mark, ReplayWindow.accept_false _ _ hok]

/-- A frame that is refused leaves the peers, the pins and the generations as they are, and of the
windows changes only when they were last used. -/
theorem rejected_frame_keeps_trust (crypto : Crypto) (l : LinkLayer) (order : HashOrder)
    (wire : Bytes) (receipt : ReceiptEvidence) (e : LinkRxError) (l' : LinkLayer)
    (h : l.receiveFrameWithReceipt crypto order wire receipt = (some (.error e), l')) :
    l' = { l with replay := l'.replay } ∧ ∀ k,
      (l'.replay.peers.get k).map PeerReplayState.mark =
        (l.replay.peers.get k).map PeerReplayState.mark := by
  obtain ⟨_, hreceive⟩ | ⟨_, _, _, replay, -, hcheck, hcases⟩ :=
    receive_cases crypto l order wire receipt
  · cases hreceive.symm.trans h
    exact ⟨rfl, fun _ => rfl⟩
  obtain ⟨rfl, hreceive⟩ | ⟨-, _, _, hreceive, -⟩ := hcases
  · cases hreceive.symm.trans h
    exact ⟨rfl, ReplayProtector.mark_of_rejected hcheck⟩
  · cases hreceive.symm.trans h

theorem constantFrame_again_keeps_trust : ∃ l l', LinkRun.constantRun.link = some l ∧
    l.receiveFrameWithReceipt LinkRun.constantCrypto .inserted LinkRun.constantFrame.wire
      ⟨0, 0, none⟩ = (some (.error .replay), l') ∧
    l' = { l with replay := l'.replay } ∧ ∀ k,
      (l'.replay.peers.get k).map PeerReplayState.mark =
        (l.replay.peers.get k).map PeerReplayState.mark := by
  have hrefused : (LinkRun.constantRun.link.any fun l => (l.receiveFrameWithReceipt
      LinkRun.constantCrypto .inserted LinkRun.constantFrame.wire ⟨0, 0, none⟩).1 =
        some (.error .replay)) = true := by
    decide +kernel
  obtain ⟨l, hl, hreplay⟩ := (Option.any_eq_true _ _).mp hrefused
  have hreceive := of_decide_eq_true hreplay
  exact ⟨l, _, hl, Prod.ext hreceive rfl,
    rejected_frame_keeps_trust _ l _ _ _ _ _ (Prod.ext hreceive rfl)⟩

end Lichen.Link
