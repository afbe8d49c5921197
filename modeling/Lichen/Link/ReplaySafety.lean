import Lichen.Lib.Guard
import Lichen.Link.LinkLayer

namespace Lichen.Link

open Lichen.Lib Lichen.Core

/-- A frame that was released, under the key generation of its sender at that time. -/
structure Accepted where
  pubkey : PublicKey
  generation : Nat
  epoch : UInt8
  seqnum : LinkSeqNum

/-- What may be said of two accepted frames of one key generation, the later one first. -/
def Accepted.Follows (newer older : Accepted) : Prop :=
  newer.generation = older.generation →
    newer.pubkey = older.pubkey ∧ older.epoch ≤ newer.epoch ∧
      (newer.epoch, newer.seqnum) ≠ (older.epoch, older.seqnum)

/-- The replay state of a configured peer accounts for all frames of its key generation. -/
def Accounts (log : List Accepted) (peer : TrackedPeer) : Option PeerReplayState → Prop
  | none => ∀ e ∈ log, e.generation ≠ peer.keyGenerationId
  | some state => ∃ seen, state.window.Tracks seen ∧
      ∀ e ∈ log, e.generation = peer.keyGenerationId →
        e.pubkey = peer.identity.pubkey ∧ e.epoch ≤ state.lastEpoch ∧
          (e.epoch = state.lastEpoch → e.seqnum ∈ seen)

/-- The tables' keys belong together, and every configured peer's window accounts for its log. -/
structure LinkInv (crypto : Crypto) (l : LinkLayer) (log : List Accepted) : Prop where
  maxPeers : l.maxPeers = 64
  replayMaxPeers : l.replay.maxPeers = 64
  peers_iid : ∀ iid t, l.peers.get iid = some t →
    t.identity.iid = iid ∧ iidFromPubkeyBytes crypto t.identity.pubkey = iid
  pinned_iid : ∀ iid p, l.pinned.get iid = some p → iidFromPubkeyBytes crypto p.pubkey = iid
  configured : ∀ k state, l.replay.peers.get k = some state →
    ∃ t, l.peers.get (iidFromPubkeyBytes crypto k) = some t ∧ t.identity.pubkey = k
  generation_lt : ∀ iid t, l.peers.get iid = some t → t.keyGenerationId < l.nextPeerKeyGeneration
  generation_inj : ∀ i j t u, l.peers.get i = some t → l.peers.get j = some u →
    t.keyGenerationId = u.keyGenerationId → i = j
  log_lt : ∀ e ∈ log, e.generation < l.nextPeerKeyGeneration
  accounts : ∀ iid t, l.peers.get iid = some t →
    Accounts log t (l.replay.peers.get t.identity.pubkey)
  follows : log.Pairwise Accepted.Follows

/-- `l'` keeps some of the peers of `l`, with their key generations and windows. -/
structure Shrinks (crypto : Crypto) (l l' : LinkLayer) : Prop where
  maxPeers : l'.maxPeers = l.maxPeers
  replayMaxPeers : l'.replay.maxPeers = l.replay.maxPeers
  peers : ∀ iid t', l'.peers.get iid = some t' → ∃ t, l.peers.get iid = some t ∧
    t'.identity = t.identity ∧ t'.keyGenerationId = t.keyGenerationId
  pinned : ∀ iid p, l'.pinned.get iid = some p →
    l.pinned.get iid = some p ∨ iidFromPubkeyBytes crypto p.pubkey = iid
  windows : ∀ iid t', l'.peers.get iid = some t' →
    l'.replay.peers.get t'.identity.pubkey = l.replay.peers.get t'.identity.pubkey
  configured : ∀ k state, l'.replay.peers.get k = some state →
    ∃ t, l'.peers.get (iidFromPubkeyBytes crypto k) = some t ∧ t.identity.pubkey = k
  next : l.nextPeerKeyGeneration ≤ l'.nextPeerKeyGeneration

variable {crypto : Crypto} {l : LinkLayer} {log : List Accepted}

theorem Accounts.congr (h : Accounts log t o) (hidentity : t'.identity = t.identity)
    (hgen : t'.keyGenerationId = t.keyGenerationId) : Accounts log t' o := by
  cases o <;> simp only [Accounts, hidentity, hgen] at h ⊢ <;> exact h

theorem LinkInv.shrink (h : LinkInv crypto l log) (hs : Shrinks crypto l l') :
    LinkInv crypto l' log where
  maxPeers := hs.maxPeers.trans h.maxPeers
  replayMaxPeers := hs.replayMaxPeers.trans h.replayMaxPeers
  peers_iid := fun iid t' ht' => by
    obtain ⟨t, ht, hidentity, -⟩ := hs.peers iid t' ht'
    rw [hidentity]
    exact h.peers_iid iid t ht
  pinned_iid := fun iid p hp => (hs.pinned iid p hp).elim (h.pinned_iid iid p) id
  configured := hs.configured
  generation_lt := fun iid t' ht' => by
    obtain ⟨t, ht, -, hgen⟩ := hs.peers iid t' ht'
    rw [hgen]
    exact (h.generation_lt iid t ht).trans_le hs.next
  generation_inj := fun i j t' u' ht' hu' heq => by
    obtain ⟨t, ht, -, hgt⟩ := hs.peers i t' ht'
    obtain ⟨u, hu, -, hgu⟩ := hs.peers j u' hu'
    exact h.generation_inj i j t u ht hu (by rw [← hgt, ← hgu, heq])
  log_lt := fun e he => (h.log_lt e he).trans_le hs.next
  accounts := fun iid t' ht' => by
    obtain ⟨t, ht, hidentity, hgen⟩ := hs.peers iid t' ht'
    rw [hs.windows iid t' ht', hidentity]
    exact (h.accounts iid t ht).congr hidentity hgen
  follows := h.follows

theorem len_le_of_configured {m : HashMap PublicKey PeerReplayState}
    (h : ∀ k state, m.get k = some state →
      ∃ t, l.peers.get (iidFromPubkeyBytes crypto k) = some t ∧ t.identity.pubkey = k) :
    m.len ≤ l.peers.len := by
  refine HashMap.len_le_of_injOn (iidFromPubkeyBytes crypto) ?_ ?_
  · intro k state hk
    obtain ⟨t, ht, -⟩ := h k state hk
    exact ⟨t, ht⟩
  · intro k k' state state' hk hk' heq
    obtain ⟨t, ht, rfl⟩ := h k state hk
    obtain ⟨_, ht', rfl⟩ := h k' state' hk'
    rw [heq, ht'] at ht
    cases ht
    rfl

theorem LinkInv.tracks (h : LinkInv crypto l log) (hk : l.replay.peers.get k = some state) :
    ∃ seen, state.window.Tracks seen := by
  obtain ⟨t, ht, rfl⟩ := h.configured k state hk
  have haccounts := h.accounts _ t ht
  rw [hk] at haccounts
  obtain ⟨seen, htracks, -⟩ := haccounts
  exact ⟨seen, htracks⟩

/-- What a peer gets that is configured anew: the next key generation and the next serial. -/
structure Issues (crypto : Crypto) (l : LinkLayer) (t : TrackedPeer) : Prop where
  id : t.keyGenerationId = l.nextPeerKeyGeneration
  serial : t.durableGenerationSerial = l.nextDurableGeneration
  generation : durableGenerationFor crypto l.identity.pubkey t.identity.pubkey
    t.durableGenerationSerial = some t.durableKeyGeneration
  room : l.nextDurableGeneration + 1 < 2 ^ 64

def LinkLayer.issue (l : LinkLayer) : LinkLayer :=
  { l with
    nextDurableGeneration := l.nextDurableGeneration + 1
    nextPeerKeyGeneration := l.nextPeerKeyGeneration + 1 }

/-- One change of the tables. An operation is a sequence of them, but for the window of a frame that
is received and for a peer that is added. -/
inductive Change (crypto : Crypto) (l : LinkLayer) : LinkLayer → Prop where
  | clock (accessCounter next : Nat) (h : l.nextPeerKeyGeneration ≤ next) :
      Change crypto l { l with accessCounter, nextPeerKeyGeneration := next }
  | unpin (iid : Iid) : Change crypto l { l with pinned := l.pinned.remove iid }
  | unpinReset (hpin : l.pinned.get iid = some p) (hnone : l.peers.get iid = none) :
      Change crypto l ({ l with pinned := l.pinned.remove iid }.resetPeer p.pubkey)
  | drop (ht : l.peers.get iid = some t) :
      Change crypto l
        (({ l with peers := l.peers.remove iid }.retire t).resetPeer t.identity.pubkey)
  | access (accessCounter : Nat) (ht : l.peers.get iid = some t) :
      Change crypto l { l with
        accessCounter, peers := l.peers.insert iid { t with lastAccess := accessCounter } }
  | pin (ht : l.peers.get iid = some t) :
      Change crypto l { l with pinned := l.pinned.insert iid ⟨t.identity.pubkey⟩ }
  | renew (hissues : Issues crypto l t') (ht : l.peers.get iid = some t)
      (hidentity : t'.identity = t.identity) :
      Change crypto l { (l.retire t).issue with peers := l.peers.insert iid t' }

abbrev Changes (crypto : Crypto) : LinkLayer → LinkLayer → Prop := Relation.ReflTransGen (Change crypto)

theorem LinkInv.renew (h : LinkInv crypto l log)
    (hmax : replay.maxPeers = l.replay.maxPeers) (hiid : t.identity.iid = iid)
    (hkey : iidFromPubkeyBytes crypto t.identity.pubkey = iid)
    (hgen : t.keyGenerationId = l.nextPeerKeyGeneration)
    (hother : ∀ k, iidFromPubkeyBytes crypto k ≠ iid → replay.peers.get k = l.replay.peers.get k)
    (hown : ∀ k state, iidFromPubkeyBytes crypto k = iid → replay.peers.get k = some state →
      k = t.identity.pubkey ∧ ∃ seen, state.window.Tracks seen) :
    LinkInv crypto { l.issue with peers := l.peers.insert iid t, replay, retired } log := by
  have hnext : l.issue.nextPeerKeyGeneration = l.nextPeerKeyGeneration + 1 := rfl
  refine ⟨h.maxPeers, hmax.trans h.replayMaxPeers, fun i u hu => ?_, h.pinned_iid,
    fun k state hk => ?_, fun i u hu => ?_, fun i j u v hu hv heq => ?_, fun e he => ?_,
    fun i u hu => ?_, h.follows⟩
  · obtain ⟨rfl, rfl⟩ | ⟨-, hu⟩ := HashMap.get_of_get_insert hu
    · exact ⟨hiid, hkey⟩
    · exact h.peers_iid i u hu
  · dsimp only at hk ⊢
    by_cases hi : iidFromPubkeyBytes crypto k = iid
    · obtain ⟨rfl, -⟩ := hown k state hi hk
      exact ⟨t, by rw [hkey, HashMap.get_insert_self], rfl⟩
    · obtain ⟨u, hu, hku⟩ := h.configured k state (hother k hi ▸ hk)
      exact ⟨u, by rw [HashMap.get_insert_ne _ _ hi, hu], hku⟩
  · dsimp only
    obtain ⟨rfl, rfl⟩ | ⟨-, hu⟩ := HashMap.get_of_get_insert hu
    · omega
    · have := h.generation_lt i u hu
      omega
  · obtain ⟨rfl, rfl⟩ | ⟨-, hi⟩ := HashMap.get_of_get_insert hu <;>
      obtain ⟨rfl, rfl⟩ | ⟨-, hj⟩ := HashMap.get_of_get_insert hv
    · rfl
    · have := h.generation_lt j v hj
      omega
    · have := h.generation_lt i u hi
      omega
    · exact h.generation_inj i j u v hi hj heq
  · have := h.log_lt e he
    dsimp only
    omega
  · dsimp only
    obtain ⟨rfl, rfl⟩ | ⟨hne, hu⟩ := HashMap.get_of_get_insert hu
    · have hfresh : ∀ e ∈ log, e.generation ≠ u.keyGenerationId := fun e he heq => by
        have := h.log_lt e he
        omega
      cases hstate : replay.peers.get u.identity.pubkey with
      | none => exact hfresh
      | some state =>
        obtain ⟨-, seen, hseen⟩ := hown _ state hkey hstate
        exact ⟨seen, hseen, fun e he heq => absurd heq (hfresh e he)⟩
    · rw [hother _ (fun heq => hne ((h.peers_iid i u hu).2.symm.trans heq))]
      exact h.accounts i u hu

theorem LinkInv.change (hchange : Change crypto l l') (h : LinkInv crypto l log) :
    LinkInv crypto l' log := by
  have hpeers : ∀ iid t', l.peers.get iid = some t' → ∃ t, l.peers.get iid = some t ∧
      t'.identity = t.identity ∧ t'.keyGenerationId = t.keyGenerationId :=
    fun _ t ht => ⟨t, ht, rfl, rfl⟩
  cases hchange with
  | clock _ _ hnext =>
    exact h.shrink ⟨rfl, rfl, hpeers, fun _ _ hp => .inl hp, fun _ _ _ => rfl, h.configured, hnext⟩
  | unpin =>
    exact h.shrink ⟨rfl, rfl, hpeers, fun _ _ hp => .inl (HashMap.get_of_get_remove hp).2,
      fun _ _ _ => rfl, h.configured, le_rfl⟩
  | @unpinReset iid p hpin hnone =>
    have hget : ∀ k, (l.replay.resetPeer p.pubkey).peers.get k = l.replay.peers.get k := by
      intro k
      rw [ReplayProtector.resetPeer, HashMap.get_remove]
      split
      · subst k
        cases hstate : l.replay.peers.get p.pubkey with
        | none => rfl
        | some state =>
          obtain ⟨t, ht, -⟩ := h.configured _ state hstate
          rw [h.pinned_iid iid p hpin, hnone] at ht
          cases ht
      · rfl
    exact h.shrink ⟨rfl, rfl, hpeers, fun _ _ hp => .inl (HashMap.get_of_get_remove hp).2,
      fun _ _ _ => hget _, fun k state hk => h.configured k state (hget k ▸ hk), le_rfl⟩
  | @drop iid t ht =>
    have hkey := (h.peers_iid iid t ht).2
    refine h.shrink ⟨rfl, rfl, fun i u hu => ⟨u, (HashMap.get_of_get_remove hu).2, rfl, rfl⟩,
      fun _ _ hp => .inl hp, fun i u hu => ?_, fun k state hk => ?_, le_rfl⟩
    · obtain ⟨hne, hu⟩ := HashMap.get_of_get_remove hu
      refine HashMap.get_remove_ne _ fun heq => ?_
      exact hne ((h.peers_iid i u hu).2.symm.trans (heq ▸ hkey))
    · obtain ⟨hne, hk⟩ := HashMap.get_of_get_remove hk
      obtain ⟨u, hu, rfl⟩ := h.configured k state hk
      refine ⟨u, (HashMap.get_remove_ne _ fun heq => ?_).trans hu, rfl⟩
      rw [heq, ht] at hu
      cases hu
      exact hne rfl
  | @access iid t accessCounter ht =>
    refine h.shrink ⟨rfl, rfl, fun i u hu => ?_, fun _ _ hp => .inl hp, fun _ _ _ => rfl,
      fun k state hk => ?_, le_rfl⟩
    · obtain ⟨rfl, rfl⟩ | ⟨-, hu⟩ := HashMap.get_of_get_insert hu
      · exact ⟨t, ht, rfl, rfl⟩
      · exact ⟨u, hu, rfl, rfl⟩
    · obtain ⟨u, hu, hku⟩ := h.configured k state hk
      rw [HashMap.get_insert]
      split
      · rename_i hi
        rw [hi, ht] at hu
        cases hu
        exact ⟨_, rfl, hku⟩
      · exact ⟨u, hu, hku⟩
  | @pin iid t ht =>
    refine h.shrink ⟨rfl, rfl, hpeers, fun i p hp => ?_, fun _ _ _ => rfl, h.configured, le_rfl⟩
    obtain ⟨rfl, rfl⟩ | ⟨-, hp⟩ := HashMap.get_of_get_insert hp
    · exact .inr (h.peers_iid i t ht).2
    · exact .inl hp
  | @renew t' iid t hissues ht hidentity =>
    obtain ⟨hiid, hkey⟩ := h.peers_iid iid t ht
    refine h.renew rfl (hidentity ▸ hiid) (hidentity ▸ hkey) hissues.id (fun _ _ => rfl)
      fun k state hk hstate => ?_
    obtain ⟨u, hu, rfl⟩ := h.configured k state hstate
    rw [hk, ht] at hu
    cases hu
    exact ⟨congrArg _ hidentity.symm, h.tracks hstate⟩

theorem LinkInv.changes (h : LinkInv crypto l log) (hchanges : Changes crypto l l') :
    LinkInv crypto l' log :=
  reflTransGen_invariant (I := (LinkInv crypto · log)) LinkInv.change hchanges h

theorem ReplayProtector.evictIfNeeded_of_le {r : ReplayProtector} (h : r.peers.len ≤ r.maxPeers) :
    r.evictIfNeeded order = r := by
  rw [evictIfNeeded]
  cases r.peers.len with
  | zero => rfl
  | succ => rw [evict, if_neg (Nat.not_lt.mpr h)]

theorem LinkInv.room (h : LinkInv crypto l log) (hlen : l.peers.len ≤ 64)
    (ht : l.peers.get iid = some t) (state : PeerReplayState) :
    (l.replay.peers.insert t.identity.pubkey state).len ≤ l.replay.maxPeers := by
  have hkey := (h.peers_iid iid t ht).2
  have hconfigured : ∀ k state', (l.replay.peers.insert t.identity.pubkey state).get k = some state' →
      ∃ u, l.peers.get (iidFromPubkeyBytes crypto k) = some u ∧ u.identity.pubkey = k := by
    intro k state' hk
    obtain ⟨rfl, -⟩ | ⟨-, hk⟩ := HashMap.get_of_get_insert hk
    · exact ⟨t, hkey ▸ ht, rfl⟩
    · exact h.configured k state' hk
  rw [h.replayMaxPeers]
  exact (len_le_of_configured hconfigured).trans hlen

theorem Accounts.cons_other (h : Accounts log t o) (hne : e.generation ≠ t.keyGenerationId) :
    Accounts (e :: log) t o := by
  cases o with
  | none =>
    rintro e' (_ | ⟨_, he'⟩)
    · exact hne
    · exact h e' he'
  | some =>
    obtain ⟨seen, htracks, hlog⟩ := h
    refine ⟨seen, htracks, ?_⟩
    rintro e' (_ | ⟨_, he'⟩) heq
    · exact absurd heq hne
    · exact hlog e' he' heq

def TrackedPeer.accepted (t : TrackedPeer) (epoch : UInt8) (seqnum : LinkSeqNum) : Accepted :=
  ⟨t.identity.pubkey, t.keyGenerationId, epoch, seqnum⟩

theorem Accounts.cons (htracks : new.window.Tracks (seqnum :: seen)) (hnew : seqnum ∉ seen)
    (hlog : ∀ e ∈ log, e.generation = t.keyGenerationId → e.pubkey = t.identity.pubkey ∧
      e.epoch ≤ new.lastEpoch ∧ (e.epoch = new.lastEpoch → e.seqnum ∈ seen)) :
    Accounts (t.accepted new.lastEpoch seqnum :: log) t (some new) ∧
      (log.Pairwise Accepted.Follows →
        (t.accepted new.lastEpoch seqnum :: log).Pairwise Accepted.Follows) := by
  refine ⟨⟨seqnum :: seen, htracks, ?_⟩, fun h => List.pairwise_cons.mpr ⟨fun e he heq => ?_, h⟩⟩
  · rintro e (_ | ⟨_, he⟩) heq
    · exact ⟨rfl, UInt8.le_refl _, fun _ => List.mem_cons_self⟩
    · obtain ⟨hkey, hle, hmem⟩ := hlog e he heq
      exact ⟨hkey, hle, fun habs => List.mem_cons_of_mem _ (hmem habs)⟩
  · obtain ⟨hkey, hle, hmem⟩ := hlog e he heq.symm
    refine ⟨hkey.symm, hle, fun hpair => ?_⟩
    obtain ⟨hpe, hps⟩ := Prod.mk.inj hpair
    have hseen := hmem hpe.symm
    rw [← hps] at hseen
    exact hnew hseen

def logged (log : List Accepted) (t : TrackedPeer) (epoch : UInt8) (seqnum : LinkSeqNum) :
    Bool → List Accepted
  | true => t.accepted epoch seqnum :: log
  | false => log

/-- What a replay check makes of the state of a peer, as long as the table has room. -/
theorem ReplayProtector.checkAndUpdate_spec (r : ReplayProtector) (order : HashOrder)
    (epoch : UInt8) (seqnum : LinkSeqNum) (h : Accounts log t (r.peers.get t.identity.pubkey))
    (hroom : ∀ state, (r.peers.insert t.identity.pubkey state).len ≤ r.maxPeers) :
    ∃ ok new, r.checkAndUpdate order t.identity.pubkey epoch seqnum = (ok, { r with
        peers := r.peers.insert t.identity.pubkey new
        accessCounter := saturatingSucc r.accessCounter }) ∧
      Accounts (logged log t epoch seqnum ok) t (some new) ∧
      (log.Pairwise Accepted.Follows → (logged log t epoch seqnum ok).Pairwise Accepted.Follows) := by
  simp only [checkAndUpdate]
  cases hget : r.peers.get t.identity.pubkey with
  | none =>
    rw [hget] at h
    simp only [PeerReplayState.new, ReplayWindow.accept_fresh]
    rw [evictIfNeeded_of_le (hroom _)]
    exact ⟨true, _, rfl, Accounts.cons .start List.not_mem_nil fun e he heq => absurd heq (h e he)⟩
  | some old =>
    rw [hget] at h
    obtain ⟨seen, hold, hlog⟩ := h
    simp only
    split
    · rename_i hlt
      refine ⟨true, _, rfl, Accounts.cons .start List.not_mem_nil fun e he heq => ?_⟩
      obtain ⟨hkey, hle, -⟩ := hlog e he heq
      have helt := UInt8.lt_of_le_of_lt hle hlt
      exact ⟨hkey, UInt8.le_of_lt helt, fun habs => absurd (habs ▸ helt) (UInt8.lt_irrefl _)⟩
    split
    · exact ⟨false, _, rfl, ⟨seen, hold, hlog⟩, id⟩
    · rename_i hle hge
      obtain rfl : old.lastEpoch = epoch :=
        UInt8.le_antisymm (UInt8.not_lt.mp hge) (UInt8.not_lt.mp hle)
      refine ⟨_, _, rfl, ?_⟩
      cases hok : (old.window.accept seqnum).1 with
      | false => exact ⟨⟨seen, (ReplayWindow.accept_false _ _ hok).symm ▸ hold, hlog⟩, id⟩
      | true =>
        obtain ⟨hnew, htracks⟩ := hold.accept_true hok
        exact Accounts.cons htracks hnew hlog

theorem LinkInv.checked (h : LinkInv crypto l log) (ht : l.peers.get iid = some t)
    (hnew : Accounts (logged log t epoch seqnum ok) t (some new))
    (hfollows : (logged log t epoch seqnum ok).Pairwise Accepted.Follows)
    (hmax : replay.maxPeers = l.replay.maxPeers)
    (hreplay : replay.peers = l.replay.peers.insert t.identity.pubkey new) :
    LinkInv crypto { l with replay } (logged log t epoch seqnum ok) := by
  have hkey := (h.peers_iid iid t ht).2
  refine ⟨h.maxPeers, hmax.trans h.replayMaxPeers, h.peers_iid, h.pinned_iid, fun k state hk => ?_,
    h.generation_lt, h.generation_inj, ?_, fun j u hu => ?_, hfollows⟩
  · obtain ⟨rfl, -⟩ | ⟨-, hk⟩ := HashMap.get_of_get_insert (hreplay ▸ hk)
    · exact ⟨t, hkey ▸ ht, rfl⟩
    · exact h.configured k state hk
  · cases ok with
    | false => exact h.log_lt
    | true =>
      rintro e (_ | ⟨_, he⟩)
      · exact h.generation_lt iid t ht
      · exact h.log_lt e he
  · rw [hreplay]
    by_cases hj : j = iid
    · subst hj
      obtain rfl : t = u := Option.some.inj (ht.symm.trans hu)
      rw [HashMap.get_insert_self]
      exact hnew
    · have hne : u.identity.pubkey ≠ t.identity.pubkey := fun heq =>
        hj ((h.peers_iid j u hu).2.symm.trans (heq ▸ hkey))
      rw [HashMap.get_insert_ne _ _ hne]
      cases ok with
      | false => exact h.accounts j u hu
      | true =>
        exact (h.accounts j u hu).cons_other fun heq => hj (h.generation_inj j iid u t hu ht heq.symm)

theorem changes_evict (order : HashOrder) (fuel : Nat) (l : LinkLayer)
    (evicted : Option PeerIdentity) : Changes crypto l (LinkLayer.evict order fuel l evicted).1 := by
  induction fuel generalizing l evicted with
  | zero => exact .refl
  | succ fuel ih =>
    simp only [LinkLayer.evict]
    split
    · split
      · exact .refl
      · split
        · exact ih l _
        · exact (Relation.ReflTransGen.single (.drop ‹_›)).trans (.head (.unpin _) (ih _ _))
    · exact .refl

theorem peers_len_evict (order : HashOrder) (fuel : Nat) (l : LinkLayer)
    (evicted : Option PeerIdentity) (hfuel : l.peers.len ≤ fuel + l.maxPeers) :
    (LinkLayer.evict order fuel l evicted).1.peers.len ≤ l.maxPeers := by
  induction fuel generalizing l evicted with
  | zero => simpa [LinkLayer.evict] using hfuel
  | succ fuel ih =>
    simp only [LinkLayer.evict]
    split
    · cases hmin : l.peers.minByKey order (·.lastAccess) with
      | none =>
        have := HashMap.len_of_minByKey_none hmin
        omega
      | some =>
        obtain ⟨_, ht⟩ := HashMap.get_of_minByKey hmin
        have hlen := HashMap.len_remove_of_get ht
        simp only [ht]
        refine ih _ _ ?_
        simp only [LinkLayer.resetPeer, LinkLayer.retire]
        omega
    · exact Nat.not_lt.mp ‹_›

/-- The invariant of the whole link layer, with the bound on the peer table. -/
structure LinkGood (crypto : Crypto) (l : LinkLayer) (log : List Accepted) : Prop where
  inv : LinkInv crypto l log
  peers_len : l.peers.len ≤ 64

theorem LinkInv.evictIfNeeded (h : LinkInv crypto l log) (order : HashOrder) :
    LinkGood crypto (l.evictIfNeeded order).1 log where
  inv := h.changes (changes_evict order _ l none)
  peers_len := (peers_len_evict order _ l none (Nat.le_add_right _ _)).trans h.maxPeers.le

theorem allocateDurableGeneration_eq_some
    (h : l.allocateDurableGeneration crypto k = some (d, l')) :
    durableGenerationFor crypto l.identity.pubkey k d.2 = some d.1 ∧
      d.2 = l.nextDurableGeneration ∧ l.nextDurableGeneration + 1 < 2 ^ 64 ∧
      l' = { l with nextDurableGeneration := l.nextDurableGeneration + 1 } := by
  simp only [LinkLayer.allocateDurableGeneration] at h
  split at h
  · cases h
  · split at h
    · cases h
    · cases h
      exact ⟨‹_›, rfl, Nat.not_le.mp ‹_›, rfl⟩

theorem allocateKeyGeneration_eq_some (h : l.allocateKeyGeneration = some (generation, l')) :
    generation = l.nextPeerKeyGeneration ∧
      l' = { l with nextPeerKeyGeneration := l.nextPeerKeyGeneration + 1 } := by
  simp only [LinkLayer.allocateKeyGeneration] at h
  split at h
  · cases h
  · cases h
    exact ⟨rfl, rfl⟩

theorem LinkGood.changes (h : LinkGood crypto l log) (hchanges : Changes crypto l l') :
    LinkGood crypto l' log := by
  refine ⟨h.inv.changes hchanges,
    reflTransGen_invariant (I := (·.peers.len ≤ 64)) (fun hchange hlen => ?_) hchanges h.peers_len⟩
  cases hchange with
  | clock | unpin | unpinReset | pin => exact hlen
  | drop => exact (HashMap.len_remove_le _ _).trans hlen
  | access _ ht | renew _ ht => exact (HashMap.len_insert_of_get ht).le.trans hlen

theorem changes_unpinPeer (hl : l.unpinPeer crypto iid = some l') : Changes crypto l l' ∧
      ∀ t, l'.peers.get iid = some t → t.keyGenerationId = l.nextPeerKeyGeneration := by
  simp only [LinkLayer.unpinPeer] at hl
  cases hpeer : l.peers.get iid with
  | none =>
    simp only [hpeer] at hl
    cases hl
    exact ⟨.single (.unpin iid), fun t ht => by cases hpeer.symm.trans ht⟩
  | some t =>
    simp only [hpeer, Option.bind_eq_bind, Option.bind_eq_some_iff, Prod.exists] at hl
    obtain ⟨durable, serial, _, hdurable, _, _, hgeneration, hl⟩ := hl
    obtain ⟨hfor, hserial, hlt, rfl⟩ := allocateDurableGeneration_eq_some hdurable
    obtain ⟨rfl, rfl⟩ := allocateKeyGeneration_eq_some hgeneration
    cases hl
    have hissues : Issues crypto { l with pinned := l.pinned.remove iid }
        ⟨t.identity, t.lastAccess, _, durable, serial, none⟩ := ⟨rfl, hserial, hfor, hlt⟩
    refine ⟨(Relation.ReflTransGen.single (.unpin iid)).tail (.renew hissues hpeer rfl),
      fun u hu => ?_⟩
    cases (HashMap.get_insert_self _ _ _).symm.trans hu
    rfl

theorem LinkInv.installPeer (h : LinkInv crypto l log)
    (hidentity : t.identity = PeerIdentity.fromPubkey crypto k)
    (hgen : t.keyGenerationId = l.nextPeerKeyGeneration) :
    LinkInv crypto (l.issue.installPeer t).1 log := by
  have hkey : iidFromPubkeyBytes crypto t.identity.pubkey = t.identity.iid := by
    rw [hidentity]
    rfl
  have howner : ∀ k' state, iidFromPubkeyBytes crypto k' = t.identity.iid →
      l.replay.peers.get k' = some state →
      ∃ u, l.peers.get t.identity.iid = some u ∧ u.identity.pubkey = k' := by
    intro k' state hk' hstate
    exact hk' ▸ h.configured k' state hstate
  have hpeers : l.issue.peers = l.peers := rfl
  simp only [LinkLayer.installPeer, hpeers]
  cases hreplaced : l.peers.get t.identity.iid with
  | none =>
    refine h.renew rfl rfl hkey hgen (fun _ _ => rfl) fun k' state hk' hstate => ?_
    obtain ⟨u, hu, -⟩ := howner k' state hk' hstate
    rw [hreplaced] at hu
    cases hu
  | some =>
    have hreplacedKey := (h.peers_iid _ _ hreplaced).2
    refine h.renew rfl rfl hkey hgen (fun k' hk' => ?_) fun k' state hk' hstate => ?_
    · refine HashMap.get_remove_ne _ fun heq => hk' ?_
      rw [heq, hreplacedKey]
    · obtain ⟨hne, hstate⟩ := HashMap.get_of_get_remove hstate
      obtain ⟨u, hu, rfl⟩ := howner k' state hk' hstate
      rw [hreplaced] at hu
      cases hu
      exact absurd rfl hne

theorem addPeer_cases (hl : l.addPeer crypto order peer = some (l', evicted)) :
    Changes crypto l l' ∨ ∃ l₁ t, Changes crypto l l₁ ∧ Issues crypto l₁ t ∧
      t.identity = PeerIdentity.fromPubkey crypto peer.pubkey ∧
      l' = ((l₁.issue.installPeer t).1.evictIfNeeded order).1 := by
  simp only [LinkLayer.addPeer] at hl
  split at hl
  · rename_i hrefreshed
    obtain ⟨hexisting, -⟩ := Option.filter_eq_some_iff.mp hrefreshed
    cases hl
    exact .inl (.single (.access _ hexisting))
  · simp only [Option.bind_eq_bind, Option.bind_eq_some_iff, Prod.exists] at hl
    obtain ⟨_, _, l₁, hdurable, _, _, hgeneration, hl⟩ := hl
    obtain ⟨hfor, hserial, hlt, rfl⟩ := allocateDurableGeneration_eq_some hdurable
    obtain ⟨rfl, rfl⟩ := allocateKeyGeneration_eq_some hgeneration
    obtain ⟨rfl, -⟩ := Prod.mk.inj (Option.some.inj hl)
    exact .inr ⟨{ l with accessCounter := saturatingSucc l.accessCounter }, _,
      .single (.clock _ _ le_rfl), ⟨rfl, hserial, hfor, hlt⟩, rfl, rfl⟩

theorem changes_removePeer (l : LinkLayer) (iid : Iid) : Changes crypto l (l.removePeer iid) := by
  simp only [LinkLayer.removePeer]
  cases ht : l.peers.get iid with
  | none => exact .single (.unpin iid)
  | some => exact (Relation.ReflTransGen.single (.drop ht)).tail (.unpin iid)

theorem changes_forgetPeer (l : LinkLayer) (iid : Iid) : Changes crypto l (l.forgetPeer iid) := by
  have hunpin : ∀ {l₁ : LinkLayer} p, Changes crypto l l₁ → l₁.peers.get iid = none →
      l₁.pinned.get iid = some p →
      Changes crypto l ({ l₁ with pinned := l₁.pinned.remove iid }.resetPeer p.pubkey) :=
    fun p h hnone hp => h.tail (.unpinReset hp hnone)
  simp only [LinkLayer.forgetPeer]
  cases ht : l.peers.get iid with
  | none =>
    cases hp : l.pinned.get iid with
    | none => exact .single (.unpin iid)
    | some p =>
      simp only [Option.map_none]
      split
      · exact hunpin p .refl ht hp
      · exact .single (.unpin iid)
  | some =>
    have hdrop : Changes crypto l _ := .single (.drop ht)
    cases hp : l.pinned.get iid with
    | none => exact hdrop.tail (.unpin iid)
    | some p =>
      simp only [Option.map_some]
      split
      · exact hunpin p hdrop (HashMap.get_remove_self _ _) hp
      · exact hdrop.tail (.unpin iid)

theorem authenticate_ok (h : l.authenticate crypto frame = .ok (t, eui)) :
    frame.signerEui64.length = 8 ∧ toArray 8 frame.signerEui64 = flipUniversalLocal t.identity.iid ∧
      l.peers.get t.identity.iid = some t := by
  simp only [LinkLayer.authenticate, guard_eq_ok, bind_eq_ok, not_not] at h
  obtain ⟨-, -, _, -, hlength, hsender⟩ := h
  refine ⟨hlength, ?_⟩
  split at hsender
  · rename_i hget
    simp only [guard_eq_ok, pure_eq_ok, not_or, not_not] at hsender
    obtain ⟨⟨hsigner, -⟩, -, -, heq⟩ := hsender
    cases heq
    rw [hsigner, flipUniversalLocal_flip] at hget
    exact ⟨hsigner, hget⟩
  · cases hsender

theorem release_ok (ht : l.peers.get t.identity.iid = some t) (hold : oldState ≠ .unknown) :
    ∃ released l', l.release frame t.identity eui oldState receipt = (some (.ok released), l') ∧
      (⟨released.sender.pubkey, released.peerKeyGenerationId, released.epoch,
        released.seqnum⟩ : Accepted) = t.accepted frame.epoch frame.seqnum ∧
      Changes crypto l l' := by
  have hstate : oldState.canTransitionTo .authenticated = true := by
    cases oldState
    · exact absurd rfl hold
    · rfl
    · rfl
  simp only [LinkLayer.release, ht, LinkLayer.peerAuthState, HashMap.get_insert_self, if_true,
    hstate]
  refine ⟨_, _, rfl, rfl, (Relation.ReflTransGen.single (.pin ht)).tail ?_⟩
  apply Change.access
  exact ht

theorem peerAuthState_ne_unknown (ht : l.peers.get iid = some t) :
    l.peerAuthState iid ≠ .unknown := by
  simp only [LinkLayer.peerAuthState, ht]
  cases l.pinned.get iid with
  | none => simp
  | some =>
    simp only
    split <;> simp

def logReceived (log : List Accepted) : Option (Except LinkRxError AuthenticatedFrame) →
    List Accepted
  | some (.ok frame) =>
    ⟨frame.sender.pubkey, frame.peerKeyGenerationId, frame.epoch, frame.seqnum⟩ :: log
  | _ => log

/-- What receiving does: it refuses the frame, or checks the window of its sender and then refuses
or releases it. -/
theorem receive_cases (crypto : Crypto) (l : LinkLayer) (order : HashOrder) (wire : Bytes)
    (receipt : ReceiptEvidence) :
    (∃ e, l.receiveFrameWithReceipt crypto order wire receipt = (some (.error e), l)) ∨
    ∃ (frame : LichenFrame) (t : TrackedPeer) (ok : Bool) (replay : ReplayProtector),
      l.peers.get t.identity.iid = some t ∧
      l.replay.checkAndUpdate order t.identity.pubkey frame.epoch frame.seqnum = (ok, replay) ∧
      (ok = false ∧ l.receiveFrameWithReceipt crypto order wire receipt =
          (some (.error .replay), { l with replay }) ∨
        ok = true ∧ ∃ released l', l.receiveFrameWithReceipt crypto order wire receipt =
            (some (.ok released), l') ∧
          (⟨released.sender.pubkey, released.peerKeyGenerationId, released.epoch,
            released.seqnum⟩ : Accepted) = t.accepted frame.epoch frame.seqnum ∧
          Changes crypto { l with replay } l') := by
  simp only [LinkLayer.receiveFrameWithReceipt]
  cases LichenFrame.fromBytes wire with
  | error => exact .inl ⟨_, rfl⟩
  | ok frame =>
    simp only
    cases hauth : l.authenticate crypto frame with
    | error => exact .inl ⟨_, rfl⟩
    | ok sender =>
      obtain ⟨t, _⟩ := sender
      obtain ⟨-, -, ht⟩ := authenticate_ok hauth
      cases hcheck : l.replay.checkAndUpdate order t.identity.pubkey frame.epoch frame.seqnum with
      | mk ok replay =>
        refine .inr ⟨frame, t, ok, replay, ht, hcheck, ?_⟩
        simp only [hcheck]
        cases ok with
        | false => exact .inl ⟨rfl, rfl⟩
        | true => exact .inr ⟨rfl, release_ok ht (peerAuthState_ne_unknown ht)⟩

theorem LinkGood.receive (h : LinkGood crypto l log) (order : HashOrder) (wire : Bytes)
    (receipt : ReceiptEvidence) :
    LinkGood crypto (l.receiveFrameWithReceipt crypto order wire receipt).2
      (logReceived log (l.receiveFrameWithReceipt crypto order wire receipt).1) := by
  obtain ⟨_, hreceive⟩ | ⟨frame, t, ok, replay, ht, hcheck, hcases⟩ :=
    receive_cases crypto l order wire receipt
  · rw [hreceive]
    exact h
  obtain ⟨_, _, hspec, hnew, hfollows⟩ := l.replay.checkAndUpdate_spec order
    frame.epoch frame.seqnum (h.inv.accounts _ t ht) (h.inv.room h.peers_len ht)
  obtain ⟨rfl, hreplay⟩ := Prod.mk.inj (hcheck.symm.trans hspec)
  have hgood : LinkGood crypto { l with replay } (logged log t frame.epoch frame.seqnum ok) :=
    ⟨h.inv.checked ht hnew (hfollows h.inv.follows) (by rw [hreplay]) (by rw [hreplay]),
      h.peers_len⟩
  obtain ⟨rfl, hreceive⟩ | ⟨rfl, _, _, hreceive, hlog, hchanges⟩ := hcases
  · rw [hreceive]
    exact hgood
  · rw [hreceive, logReceived, hlog]
    exact hgood.changes hchanges

/-- The operations on a link layer. The key generation counter is shared with the other link layers
of the process, which may take a generation at any time. -/
inductive LinkOp where
  | addPeer (order : HashOrder) (peer : PeerIdentity)
  | removePeer (iid : Iid)
  | forgetPeer (iid : Iid)
  | unpinPeer (iid : Iid)
  | evictIfNeeded (order : HashOrder)
  | receive (order : HashOrder) (wire : Bytes) (receipt : ReceiptEvidence)
  | allocateElsewhere

/-- A link layer, or none after a panic, with the frames it released, latest first. -/
structure LinkRun where
  link : Option LinkLayer
  log : List Accepted

namespace LinkRun

def start (identity : Identity) (nextPeerKeyGeneration : Nat) : LinkRun :=
  ⟨some (LinkLayer.new identity nextPeerKeyGeneration), []⟩

def call (crypto : Crypto) (log : List Accepted) (l : LinkLayer) : LinkOp → LinkRun
  | .addPeer order peer => ⟨(l.addPeer crypto order peer).map (·.1), log⟩
  | .removePeer iid => ⟨some (l.removePeer iid), log⟩
  | .forgetPeer iid => ⟨some (l.forgetPeer iid), log⟩
  | .unpinPeer iid => ⟨l.unpinPeer crypto iid, log⟩
  | .evictIfNeeded order => ⟨some (l.evictIfNeeded order).1, log⟩
  | .receive order wire receipt =>
    let (result, l) := l.receiveFrameWithReceipt crypto order wire receipt
    ⟨result.map fun _ => l, logReceived log result⟩
  | .allocateElsewhere => ⟨l.allocateKeyGeneration.map (·.2), log⟩

def step (crypto : Crypto) (r : LinkRun) (op : LinkOp) : LinkRun :=
  match r.link with
  | none => r
  | some l => call crypto r.log l op

structure Good (crypto : Crypto) (r : LinkRun) : Prop where
  link : ∀ l, r.link = some l → LinkGood crypto l r.log
  follows : r.log.Pairwise Accepted.Follows

/-- What a call does to the tables, unless it receives a frame. -/
theorem call_cases (hl' : (call crypto log l op).link = some l') :
    Changes crypto l l' ∨ (∃ order l₁ t k, Changes crypto l l₁ ∧ Issues crypto l₁ t ∧
      t.identity = PeerIdentity.fromPubkey crypto k ∧
      l' = ((l₁.issue.installPeer t).1.evictIfNeeded order).1) ∨
    ∃ order wire receipt, op = .receive order wire receipt := by
  cases op with
  | addPeer order peer =>
    obtain ⟨⟨l', _⟩, hadd, rfl⟩ := Option.map_eq_some_iff.mp hl'
    obtain hchanges | ⟨l₁, t, hadded⟩ := addPeer_cases hadd
    · exact .inl hchanges
    · exact .inr (.inl ⟨order, l₁, t, peer.pubkey, hadded⟩)
  | removePeer iid =>
    cases hl'
    exact .inl (changes_removePeer l iid)
  | forgetPeer iid =>
    cases hl'
    exact .inl (changes_forgetPeer l iid)
  | unpinPeer => exact .inl (changes_unpinPeer hl').1
  | evictIfNeeded order =>
    cases hl'
    exact .inl (changes_evict order _ l none)
  | receive => exact .inr (.inr ⟨_, _, _, rfl⟩)
  | allocateElsewhere =>
    obtain ⟨⟨_, l'⟩, halloc, rfl⟩ := Option.map_eq_some_iff.mp hl'
    obtain ⟨-, rfl⟩ := allocateKeyGeneration_eq_some halloc
    exact .inl (.single (.clock _ _ (Nat.le_succ _)))

theorem good_start (identity : Identity) (next : Nat) : Good crypto (start identity next) := by
  refine ⟨fun l hl => ?_, List.Pairwise.nil⟩
  cases hl
  refine ⟨⟨rfl, rfl, ?_, ?_, ?_, ?_, ?_, ?_, ?_, List.Pairwise.nil⟩, Nat.zero_le _⟩
  all_goals simp [LinkLayer.new, ReplayProtector.new, start]

theorem good_call (h : LinkGood crypto l log) (op : LinkOp) : Good crypto (call crypto log l op) := by
  by_cases hop : ∃ order wire receipt, op = .receive order wire receipt
  · obtain ⟨order, wire, receipt, rfl⟩ := hop
    have hreceive := h.receive order wire receipt
    refine ⟨fun l' hl' => ?_, hreceive.inv.follows⟩
    obtain ⟨_, _, rfl⟩ := Option.map_eq_some_iff.mp hl'
    exact hreceive
  · have hlog : (call crypto log l op).log = log := by
      cases op with
      | receive => exact absurd ⟨_, _, _, rfl⟩ hop
      | _ => rfl
    refine ⟨fun l' hl' => ?_, by rw [hlog]; exact h.inv.follows⟩
    rw [hlog]
    obtain hchanges | ⟨order, _, _, _, hchanges, hissues, hidentity, rfl⟩ | hreceive :=
      call_cases hl'
    · exact h.changes hchanges
    · exact ((h.changes hchanges).inv.installPeer hidentity hissues.id).evictIfNeeded order
    · exact absurd hreceive hop

theorem good_step (r : LinkRun) (op : LinkOp) (h : Good crypto r) :
    Good crypto (step crypto r op) := by
  rw [step]
  split
  · exact h
  · exact good_call (h.link _ ‹_›) op

/-- Within one key generation no pair of an epoch and a sequence number is accepted twice and the
epochs never go back. A replay check of a configured peer leaves every other window as it is and
keeps the peer's own. -/
theorem replay_safe (crypto : Crypto) (identity : Identity) (next : Nat) (ops : List LinkOp) :
    (run (step crypto) (start identity next) ops).log.Pairwise Accepted.Follows ∧
      ∀ l, (run (step crypto) (start identity next) ops).link = some l →
        ∀ iid t, l.peers.get iid = some t → ∀ order epoch seqnum k,
          let checked := (l.replay.checkAndUpdate order t.identity.pubkey epoch seqnum).2
          (k ≠ t.identity.pubkey → checked.peers.get k = l.replay.peers.get k) ∧
            (checked.peers.get t.identity.pubkey).isSome := by
  have hgood : Good crypto (run (step crypto) (start identity next) ops) :=
    run_invariant good_step (good_start identity next) ops
  refine ⟨hgood.follows, fun l hl iid t ht order epoch seqnum k => ?_⟩
  have h := hgood.link l hl
  obtain ⟨_, _, hcheck, -⟩ := l.replay.checkAndUpdate_spec order epoch seqnum
    (h.inv.accounts iid t ht) (h.inv.room h.peers_len ht)
  simp only [hcheck]
  refine ⟨fun hk => HashMap.get_insert_ne _ _ hk, ?_⟩
  rw [HashMap.get_insert_self]
  rfl

/-- Whatever the operations, peers and pins stand under the IIDs of their keys, each replay window
belongs to the key of a configured peer, and no key generation is shared. -/
theorem peers_bound_to_keys (crypto : Crypto) (identity : Identity) (next : Nat)
    (ops : List LinkOp) : let r := run (step crypto) (start identity next) ops
    (∀ e ∈ r.log, ∀ l, r.link = some l → e.generation < l.nextPeerKeyGeneration) ∧
    ∀ l, r.link = some l → l.peers.len ≤ 64 ∧
      (∀ iid t, l.peers.get iid = some t →
        t.identity.iid = iid ∧ iidFromPubkeyBytes crypto t.identity.pubkey = iid) ∧
      (∀ iid p, l.pinned.get iid = some p → iidFromPubkeyBytes crypto p.pubkey = iid) ∧
      (∀ k window, l.replay.peers.get k = some window →
        ∃ t, l.peers.get (iidFromPubkeyBytes crypto k) = some t ∧ t.identity.pubkey = k) ∧
      ∀ i j t u, l.peers.get i = some t → l.peers.get j = some u →
        t.keyGenerationId = u.keyGenerationId → i = j := by
  intro r
  have hgood : Good crypto r := run_invariant good_step (good_start identity next) ops
  refine ⟨fun e he l hl => (hgood.link l hl).inv.log_lt e he, fun l hl => ?_⟩
  obtain ⟨hinv, hlen⟩ := hgood.link l hl
  exact ⟨hlen, hinv.peers_iid, hinv.pinned_iid, hinv.configured, hinv.generation_inj⟩

end LinkRun

end Lichen.Link
