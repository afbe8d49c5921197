import Lichen.Link.ReplaySafety

namespace Lichen.Link

open Lichen.Lib Lichen.Core

variable {crypto : Crypto} {l l' : LinkLayer}

/-- What a change does to the configured peers: it keeps some of them, or issues one anew. -/
inductive Move (crypto : Crypto) (l l' : LinkLayer) : Prop where
  | keep (hidentity : l'.identity = l.identity)
      (hserial : l'.nextDurableGeneration = l.nextDurableGeneration)
      (hnext : l.nextPeerKeyGeneration ≤ l'.nextPeerKeyGeneration)
      (hpeers : ∀ iid t', l'.peers.get iid = some t' →
        ∃ t access, l.peers.get iid = some t ∧ t' = { t with lastAccess := access })
  | issue (hissues : Issues crypto l t) (hidentity : l'.identity = l.identity)
      (hserial : l'.nextDurableGeneration = l.nextDurableGeneration + 1)
      (hnext : l'.nextPeerKeyGeneration = l.nextPeerKeyGeneration + 1)
      (hpeers : l'.peers = l.peers.insert iid t)

theorem Change.move (h : Change crypto l l') : Move crypto l l' := by
  have hkeep : ∀ iid t, l.peers.get iid = some t →
      ∃ u access, l.peers.get iid = some u ∧ t = { u with lastAccess := access } :=
    fun _ t ht => ⟨t, t.lastAccess, ht, rfl⟩
  cases h with
  | clock _ _ hnext => exact .keep rfl rfl hnext hkeep
  | unpin | unpinReset | pin => exact .keep rfl rfl le_rfl hkeep
  | drop => exact .keep rfl rfl le_rfl fun i t ht => hkeep i t (HashMap.get_of_get_remove ht).2
  | @access iid t accessCounter ht =>
    refine .keep rfl rfl le_rfl fun i u hu => ?_
    obtain ⟨rfl, rfl⟩ | ⟨-, hu⟩ := HashMap.get_of_get_insert hu
    · exact ⟨t, accessCounter, ht, rfl⟩
    · exact hkeep i u hu
  | renew hissues => exact .issue hissues rfl rfl rfl rfl

theorem Issues.move (h : Issues crypto l t) : Move crypto l (l.issue.installPeer t).1 := by
  simp only [LinkLayer.installPeer]
  split <;> exact .issue h rfl rfl rfl rfl

abbrev Moves (crypto : Crypto) : LinkLayer → LinkLayer → Prop := Relation.ReflTransGen (Move crypto)

theorem Changes.moves (h : Changes crypto l l') : Moves crypto l l' :=
  Relation.ReflTransGen.mono (fun _ _ => Change.move) _ _ h

theorem moves_receive : Moves crypto l (l.receiveFrameWithReceipt crypto order wire receipt).2 := by
  have hreplay : ∀ replay, Move crypto l { l with replay } := fun _ =>
    .keep rfl rfl le_rfl fun _ t ht => ⟨t, t.lastAccess, ht, rfl⟩
  obtain ⟨_, hreceive⟩ | ⟨_, _, _, replay, -, -, ⟨-, hreceive⟩ | ⟨-, _, _, hreceive, -, hchanges⟩⟩ :=
    receive_cases crypto l order wire receipt
  · rw [hreceive]
  · rw [hreceive]
    exact .single (hreplay replay)
  · rw [hreceive]
    exact .head (hreplay replay) hchanges.moves

theorem LinkRun.moves_call (hl' : (call crypto past l op).link = some l') : Moves crypto l l' := by
  obtain hchanges | ⟨order, _, _, _, hchanges, hissues, -, rfl⟩ | ⟨_, _, _, rfl⟩ := call_cases hl'
  · exact hchanges.moves
  · exact (hchanges.moves.tail hissues.move).trans (changes_evict order _ _ none).moves
  · obtain ⟨_, _, rfl⟩ := Option.map_eq_some_iff.mp hl'
    exact moves_receive

end Lichen.Link
