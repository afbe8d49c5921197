import Lichen.Core.TxRefines

namespace Lichen.Core

open Lichen.Lib List

def TxLine.Fresh (l : TxLine) : Prop := ∀ a ∈ l.items, l.pushed ≤ a.index + 2 ^ 31

instance (l : TxLine) : Decidable l.Fresh := List.decidableBAll _ l.items

theorem InOrder.append (h : InOrder items pushed)
    (hfresh : ∀ a ∈ items ++ [⟨packet, pushed⟩], pushed + 1 ≤ a.index + 2 ^ 31) :
    InOrder (items ++ [⟨packet, pushed⟩]) (pushed + 1) where
  sorted := pairwise_append.mpr ⟨h.sorted, pairwise_singleton _ _, fun a ha b hb => by
    rw [mem_singleton.mp hb]
    exact h.index_lt a ha⟩
  index_lt := by
    intro a ha
    obtain ha | ha := mem_append.mp ha
    · exact (h.index_lt a ha).trans (Nat.lt_succ_self pushed)
    · rw [mem_singleton.mp ha]
      exact Nat.lt_succ_self pushed
  fresh := hfresh

namespace TxQueue

variable {B : BinaryHeap TxItem.cmp txQueueCapacity} {q : TxQueue B} {l : TxLine}

theorem Refines.new : (TxQueue.new : TxQueue B).Refines TxLine.new where
  ordered := B.ordered_new
  contents := .of_eq B.iter_new
  counts := ⟨rfl, fun _ => rfl, rfl, rfl, rfl⟩
  sequence := rfl
  observedNowMs := rfl
  inOrder := ⟨.nil, nofun, nofun⟩
  room := Nat.zero_le _

theorem Refines.enqueue (h : q.Refines l) (packet : Packet)
    (hroom : l.items.length < txQueueCapacity) (hfresh : (l.append packet).Fresh) :
    (q.enqueue (⟨packet, l.pushed⟩ : Arrival).toItem).Refines (l.append packet) := by
  have hinOrder := h.inOrder.append hfresh
  have hperm : ((⟨packet, l.pushed⟩ : Arrival).toItem :: l.items.map Arrival.toItem).Perm
      ((l.append packet).items.map Arrival.toItem) := by
    rw [TxLine.append, map_append]
    exact (perm_append_singleton _ _).symm
  have hpush := B.iter_push (⟨packet, l.pushed⟩ : Arrival).toItem (h.length_iter.trans_lt hroom)
  exact {
    ordered := B.ordered_push h.ordered
      (hinOrder.linear.mono ((h.contents.cons _).trans hperm).subset)
    contents := hpush.trans ((h.contents.cons _).trans hperm)
    counts := h.counts.enqueue.perm hperm
    sequence := by
      rw [TxQueue.enqueue, h.sequence]
      exact (UInt32.ofNat_add _ _).symm
    observedNowMs := h.observedNowMs
    inOrder := hinOrder
    room := by
      rw [TxLine.append, length_append]
      exact hroom }

theorem Refines.push (h : q.Refines l) (priority : TxPriority) (deadlineMs nowMs : UInt64)
    (data : List UInt8) (hfresh : (l.push priority deadlineMs nowMs data).2.Fresh) :
    (q.push priority deadlineMs nowMs data).1 = (l.push priority deadlineMs nowMs data).1 ∧
      (q.push priority deadlineMs nowMs data).2.Refines
        (l.push priority deadlineMs nowMs data).2 := by
  obtain ⟨-, hexpired⟩ := h.expireBefore nowMs
  have hpreempt := hexpired.tryPreempt priority
  dsimp only [TxQueue.push, TxLine.push, TxItem.new] at hfresh ⊢
  rw [hexpired.observedNowMs, hexpired.length_iter, hexpired.sequence]
  by_cases hdeadline : deadlineMs ≤ (l.expireBefore nowMs).seen
  · rw [if_pos hdeadline, if_pos hdeadline]
    exact ⟨rfl, hexpired⟩
  rw [if_neg hdeadline] at hfresh
  rw [if_neg hdeadline, if_neg hdeadline]
  by_cases hfits : data.length ≤ txItemMaxPayload
  · rw [dif_pos hfits] at hfresh
    rw [dif_pos hfits, dif_pos hfits]
    by_cases hroom : (l.expireBefore nowMs).items.length < txQueueCapacity
    · rw [if_pos hroom] at hfresh
      dsimp only
      rw [if_pos hroom, if_pos hroom]
      exact ⟨rfl, hexpired.enqueue _ hroom hfresh⟩
    · rw [if_neg hroom] at hfresh
      dsimp only
      rw [if_neg hroom, if_neg hroom]
      generalize (q.expireBefore nowMs).2.tryPreempt priority = preempted at hpreempt
      obtain ⟨_, _⟩ := preempted
      cases hvictim : (l.expireBefore nowMs).victim priority with
      | none =>
        rw [hvictim] at hpreempt
        obtain ⟨rfl, hrefines⟩ := hpreempt
        exact ⟨rfl, { hrefines with counts := { hrefines.counts with } }⟩
      | some =>
        rw [hvictim] at hpreempt hfresh
        obtain ⟨rfl, hrefines⟩ := hpreempt
        have hlength := TxLine.length_remove (TxLine.mem_of_victim hvictim)
        have hle := hexpired.room
        exact ⟨rfl, hrefines.enqueue _ (by dsimp only; omega) hfresh⟩
  · rw [dif_neg hfits, dif_neg hfits]
    exact ⟨rfl, hexpired⟩

theorem Refines.answer (h : q.Refines l) (call : QueueCall) (hfresh : (l.answer call).2.Fresh) :
    (q.answer call).1 = (l.answer call).1 ∧ (q.answer call).2.Refines (l.answer call).2 := by
  cases call with
  | push priority deadlineMs nowMs data =>
    obtain ⟨hresult, hrefines⟩ := h.push priority deadlineMs nowMs data hfresh
    exact ⟨congrArg QueueAnswer.pushed hresult, hrefines⟩
  | pop nowMs =>
    obtain ⟨hitem, hrefines⟩ := h.pop nowMs
    exact ⟨congrArg QueueAnswer.item hitem, hrefines⟩
  | popIfAllowed nowMs level =>
    obtain ⟨hitem, hrefines⟩ := h.popIfAllowed nowMs level
    exact ⟨congrArg QueueAnswer.item hitem, hrefines⟩
  | popAfterCsma nowMs level action =>
    obtain ⟨hitem, hrefines⟩ := h.popIfAllowed nowMs level
    dsimp only [TxQueue.answer, TxLine.answer, TxQueue.popAfterCsma]
    cases action.txAllowed with
    | true => exact ⟨congrArg QueueAnswer.item hitem, hrefines⟩
    | false => exact ⟨rfl, h⟩
  | expireBefore nowMs =>
    obtain ⟨hcount, hrefines⟩ := h.expireBefore nowMs
    exact ⟨congrArg QueueAnswer.expired hcount, hrefines⟩

end TxQueue

def QueueAnswer.isItem : QueueAnswer → Bool
  | item (some _) => true
  | _ => false

namespace TxLine

/-- Every packet that was pushed is queued, was returned, expired or was preempted. -/
def Balanced (returned : Nat) (l : TxLine) : Prop :=
  l.pushed = l.items.length + returned + l.expired + l.preempted

namespace Balanced

variable {returned : Nat} {l : TxLine}

section

variable (h : l.Balanced returned)

include h

theorem expireBefore (nowMs : UInt64) : (l.expireBefore nowMs).Balanced returned := by
  have hsplit := l.items.length_eq_countP_add_countP (·.deadlineMs ≤ max l.seen nowMs)
  simp only [decide_eq_true_eq, UInt64.not_le] at hsplit
  rw [Balanced] at h ⊢
  dsimp only [TxLine.expireBefore]
  rw [← countP_eq_length_filter]
  omega

theorem append (packet : Packet) : (l.append packet).Balanced returned := by
  rw [Balanced] at h ⊢
  dsimp only [TxLine.append]
  rw [length_append, length_singleton]
  omega

theorem take : (l.take allows).2.Balanced (returned + (l.take allows).1.toList.length) := by
  rw [TxLine.take]
  cases hnext : l.next allows with
  | none => exact h
  | some =>
    have hlength := length_remove (mem_of_next hnext)
    rw [Balanced] at h ⊢
    dsimp only [TxLine.remove] at hlength ⊢
    rw [Option.toList_some, length_singleton]
    omega

theorem preempt (ha : a ∈ l.items) :
    { l.remove a with preempted := l.preempted + 1 }.Balanced returned := by
  have hlength := length_remove ha
  rw [Balanced] at h ⊢
  dsimp only [TxLine.remove] at hlength ⊢
  omega

theorem push (priority : TxPriority) (deadlineMs nowMs : UInt64)
    (data : List UInt8) : (l.push priority deadlineMs nowMs data).2.Balanced returned := by
  have hexpired := h.expireBefore nowMs
  dsimp only [TxLine.push]
  split
  · exact hexpired
  · split
    · split
      · exact hexpired.append _
      · split
        · rename_i hvictim
          exact (hexpired.preempt (mem_of_victim hvictim)).append _
        · exact hexpired
    · exact hexpired

theorem answer (call : QueueCall) :
    (l.answer call).2.Balanced (returned + [(l.answer call).1].countP QueueAnswer.isItem) := by
  have hserve : ∀ nowMs allows, (l.serve nowMs allows).2.Balanced
      (returned + [QueueAnswer.item (l.serve nowMs allows).1].countP QueueAnswer.isItem) := by
    intro nowMs allows
    have hcount : ∀ packet : Option Packet,
        [QueueAnswer.item packet].countP QueueAnswer.isItem = packet.toList.length := by
      intro packet
      cases packet <;> rfl
    rw [hcount]
    exact (h.expireBefore nowMs).take
  cases call with
  | push priority deadlineMs nowMs data => exact h.push priority deadlineMs nowMs data
  | pop nowMs | popIfAllowed nowMs level => exact hserve nowMs _
  | popAfterCsma nowMs level action =>
    dsimp only [TxLine.answer]
    split
    · exact hserve nowMs _
    · exact h
  | expireBefore nowMs => exact h.expireBefore nowMs

theorem run (calls : List QueueCall) :
    (Lib.run (fun l call => (TxLine.answer l call).2) l calls).Balanced
      (returned + (trace TxLine.answer l calls).countP QueueAnswer.isItem) := by
  induction calls generalizing l returned with
  | nil => exact h
  | cons call calls ih =>
    have hrun := ih (h.answer call)
    rw [Nat.add_assoc, ← countP_append] at hrun
    exact hrun

end

end Balanced

end TxLine

/-- The queue answers as the list of packets does, and its statistics are those of the list. -/
theorem TxQueue.answers_in_order (B : BinaryHeap TxItem.cmp txQueueCapacity) (calls : List QueueCall)
    (hfresh : Steps (fun l call => (TxLine.answer l call).2.Fresh)
      (fun l call => (TxLine.answer l call).2) TxLine.new calls) :
    let q : TxQueue B := run (fun q call => (TxQueue.answer q call).2) TxQueue.new calls
    let l := run (fun l call => (TxLine.answer l call).2) TxLine.new calls
    let answers := trace TxQueue.answer (TxQueue.new : TxQueue B) calls
    answers = trace TxLine.answer TxLine.new calls ∧
    q.stats.depth = l.items.length ∧
    q.stats.bytesPending = (l.items.map (·.data.length)).sum ∧
    (∀ priority, q.stats.byPriority priority = l.items.countP (·.priority = priority)) ∧
    (l.pushed < 2 ^ 32 → q.stats.packetsQueued = q.stats.depth + answers.countP QueueAnswer.isItem +
      q.stats.packetsDroppedDeadline + q.stats.packetsPreempted) := by
  intro q l answers
  obtain ⟨hanswers, hrefines⟩ := trace_eq_of_sim_steps (R := TxQueue.Refines (B := B))
    (fun _ _ call h hfresh => h.answer call hfresh) TxQueue.Refines.new calls hfresh
  have hbalanced := (show TxLine.new.Balanced 0 from rfl).run calls
  rw [← hanswers, Nat.zero_add] at hbalanced
  refine ⟨hanswers, hrefines.length_iter, ?_, fun priority => ?_, fun hpushed => ?_⟩
  · refine hrefines.counts.bytesPending.trans ?_
    rw [map_map]
    rfl
  · refine (hrefines.counts.byPriority priority).trans ?_
    rw [countP_map]
    rfl
  · have hqueued : q.stats.packetsQueued = saturate32 l.pushed := hrefines.counts.packetsQueued
    have hdropped : q.stats.packetsDroppedDeadline = saturate32 l.expired :=
      hrefines.counts.packetsDroppedDeadline
    have hpreempted : q.stats.packetsPreempted = saturate32 l.preempted :=
      hrefines.counts.packetsPreempted
    have hdepth : q.stats.depth = l.items.length := hrefines.length_iter
    have hpushed' : l.pushed = l.items.length + answers.countP QueueAnswer.isItem + l.expired +
      l.preempted := hbalanced
    rw [hqueued, hdropped, hpreempted, hdepth, saturate32, saturate32, saturate32]
    omega

/-- An urgent and an emergency packet come in behind three others: the older bulk packet gives way,
and the emergency packet goes first although the clock runs backwards. -/
theorem TxQueue.answers_in_order_of_preemption :
    let calls : List QueueCall := [.push .bulk 100 0 [1], .push .normal 100 1 [2],
      .push .bulk 100 9 [3], .push .urgent 100 3 [4], .push .sos 50 4 [5], .pop 2,
      .popIfAllowed 6 .critical, .popAfterCsma 7 .elevated .transmit, .expireBefore 100]
    let q : TxQueue (BinaryHeap.ofList TxItem.cmp txQueueCapacity) :=
      run (fun q call => (TxQueue.answer q call).2) TxQueue.new calls
    trace TxLine.answer TxLine.new calls = [.pushed (.ok ()), .pushed (.ok ()), .pushed (.ok ()),
      .pushed (.ok ()), .pushed (.ok ()), .item (some ⟨.sos, 50, 9, [5], by decide⟩), .item none,
      .item (some ⟨.urgent, 100, 9, [4], by decide⟩), .expired 2] ∧
    trace TxQueue.answer (TxQueue.new : TxQueue (BinaryHeap.ofList TxItem.cmp txQueueCapacity))
      calls = trace TxLine.answer TxLine.new calls ∧
    q.stats.packetsQueued = q.stats.depth + 2 + q.stats.packetsDroppedDeadline +
      q.stats.packetsPreempted := by
  intro calls q
  obtain ⟨hanswers, -, -, -, hqueued⟩ := TxQueue.answers_in_order
    (BinaryHeap.ofList TxItem.cmp txQueueCapacity) calls (by decide +kernel)
  rw [hanswers] at hqueued
  exact ⟨rfl, hanswers, hqueued (by decide +kernel)⟩

end Lichen.Core
