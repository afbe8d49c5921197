import Mathlib.Algebra.BigOperators.Group.List.Basic
import Lichen.Core.TxLine
import Lichen.Lib.Run

namespace Lichen.Core

open Lichen.Lib Arrival TxItem List

/-- The item that stands for a packet: its sequence number is the index in 32 bits. -/
def Arrival.toItem (a : Arrival) : TxItem :=
  ⟨a.priority, UInt32.ofNat a.index, a.deadlineMs, a.enqueueTimeMs, a.data, a.fits⟩

namespace TxItem

theorem distance_ofNat (h : i < j + 2 ^ 31) (h' : j < i + 2 ^ 31) :
    distance (UInt32.ofNat j) (UInt32.ofNat i) = (j : Int) - i := by
  have hbits : (UInt32.ofNat j - UInt32.ofNat i).toBitVec = BitVec.ofNat 32 j - BitVec.ofNat 32 i :=
    rfl
  rw [distance, hbits, BitVec.toInt_sub, BitVec.toInt_ofNat', BitVec.toInt_ofNat',
    Int.bmod_sub_bmod, Int.sub_bmod_bmod]
  apply Int.bmod_eq_of_le <;> omega

theorem cmp_toItem {a b : Arrival} (h : a.index < b.index + 2 ^ 31)
    (h' : b.index < a.index + 2 ^ 31) : cmp a.toItem b.toItem =
      (compare b.priority.toU8 a.priority.toU8).then (compare b.index a.index) := by
  have hindex : compare (distance b.toItem.sequence a.toItem.sequence) 0 =
      compare b.index a.index := by
    rw [toItem, toItem, distance_ofNat h h', Int.compare_eq_ite_lt, Nat.compare_eq_ite_lt]
    split_ifs <;> first | rfl | omega
  rw [cmp, hindex, toItem, toItem]
  cases compare b.priority.toU8 a.priority.toU8 <;> rfl

theorem cmp_toItem_ne_lt {a b : Arrival} (h : a.index < b.index + 2 ^ 31)
    (h' : b.index < a.index + 2 ^ 31) : cmp a.toItem b.toItem ≠ .lt ↔ a.Precedes b := by
  rw [cmp_toItem h h', Arrival.Precedes, ne_eq, Ordering.then_eq_lt, Nat.compare_eq_lt,
    Nat.compare_eq_eq, Nat.compare_eq_lt]
  omega

end TxItem

theorem InOrder.linear (h : InOrder items pushed) : Linear cmp (items.map toItem) where
  swap := by
    simp only [forall_mem_map]
    intro a ha b hb
    rw [cmp_toItem (h.close ha hb) (h.close hb ha),
      cmp_toItem (h.close hb ha) (h.close ha hb), Ordering.swap_then, Nat.compare_swap,
      Nat.compare_swap]
  trans := by
    simp only [forall_mem_map]
    intro a ha b hb c hc
    rw [cmp_toItem_ne_lt (h.close ha hb) (h.close hb ha),
      cmp_toItem_ne_lt (h.close hb hc) (h.close hc hb),
      cmp_toItem_ne_lt (h.close ha hc) (h.close hc ha)]
    simp only [Arrival.Precedes]
    omega

theorem InOrder.distance_neg (h : InOrder items pushed) (ha : a ∈ items) (hb : b ∈ items) :
    distance a.toItem.sequence b.toItem.sequence < 0 ↔ a.index < b.index := by
  rw [toItem, toItem, distance_ofNat (h.close hb ha) (h.close ha hb)]
  omega

namespace TxQueue

variable {B : BinaryHeap cmp txQueueCapacity}

structure Counts (q : TxQueue B) (items : List TxItem) (pushed expired preempted : Nat) : Prop where
  bytesPending : q.bytesPending = (items.map (·.data.length)).sum
  byPriority : ∀ priority, q.byPriority priority = items.countP (·.priority = priority)
  packetsQueued : q.packetsQueued = saturate32 pushed
  packetsDroppedDeadline : q.packetsDroppedDeadline = saturate32 expired
  packetsPreempted : q.packetsPreempted = saturate32 preempted

namespace Counts

variable {q : TxQueue B} {items : List TxItem} {pushed expired preempted : Nat}

theorem perm (h : Counts q items pushed expired preempted) (hperm : items.Perm items') :
    Counts q items' pushed expired preempted :=
  { h with
    bytesPending := h.bytesPending.trans (hperm.map _).sum_nat
    byPriority := fun priority => (h.byPriority priority).trans (hperm.countP_eq _) }

theorem release (h : Counts q (item :: items) pushed expired preempted) :
    Counts (q.release item) items pushed expired preempted :=
  { h with
    bytesPending := by
      rw [TxQueue.release, h.bytesPending, map_cons, sum_cons, Nat.add_sub_cancel_left]
    byPriority := fun priority => by
      have hcount := h.byPriority priority
      rw [countP_cons] at hcount
      dsimp only [TxQueue.release]
      obtain rfl | hne := eq_or_ne priority item.priority
      · rw [Function.update_self, hcount, decide_eq_true rfl, if_pos rfl, Nat.add_sub_cancel]
      · rw [Function.update_of_ne hne, hcount, decide_eq_false hne.symm, if_neg Bool.false_ne_true,
          Nat.add_zero] }

section

variable (h : Counts q items pushed expired preempted)

include h

theorem enqueue :
    Counts (q.enqueue item) (item :: items) (pushed + 1) expired preempted :=
  { h with
    bytesPending := by
      rw [TxQueue.enqueue, h.bytesPending, map_cons, sum_cons, Nat.add_comm]
    byPriority := fun priority => by
      rw [countP_cons, ← h.byPriority]
      dsimp only [TxQueue.enqueue]
      obtain rfl | hne := eq_or_ne priority item.priority
      · rw [Function.update_self, decide_eq_true rfl, if_pos rfl]
      · rw [Function.update_of_ne hne, decide_eq_false hne.symm, if_neg Bool.false_ne_true,
          Nat.add_zero]
    packetsQueued := by rw [TxQueue.enqueue, h.packetsQueued, saturate32_add] }

theorem expire :
    Counts { q with packetsDroppedDeadline := saturate32 (q.packetsDroppedDeadline + 1) } items
      pushed (expired + 1) preempted :=
  { h with packetsDroppedDeadline := by rw [h.packetsDroppedDeadline, saturate32_add] }

theorem preempt : Counts { q with packetsPreempted := saturate32 (q.packetsPreempted + 1) } items
      pushed expired (preempted + 1) :=
  { h with packetsPreempted := by rw [h.packetsPreempted, saturate32_add] }

theorem withHeap (heap : B.Carrier) :
    Counts { q with heap } items pushed expired preempted :=
  { h with }

end

end Counts

structure Refines (q : TxQueue B) (l : TxLine) : Prop where
  ordered : B.Ordered q.heap
  contents : (B.iter q.heap).Perm (l.items.map toItem)
  counts : q.Counts (l.items.map toItem) l.pushed l.expired l.preempted
  sequence : q.sequence = UInt32.ofNat l.pushed
  observedNowMs : q.observedNowMs = l.seen
  inOrder : InOrder l.items l.pushed
  room : l.items.length ≤ txQueueCapacity

theorem Refines.linear {q : TxQueue B} (h : q.Refines l) : Linear TxItem.cmp (B.iter q.heap) :=
  h.inOrder.linear.mono h.contents.subset

theorem Refines.length_iter {q : TxQueue B} (h : q.Refines l) :
    (B.iter q.heap).length = l.items.length :=
  h.contents.length_eq.trans (length_map _)

section

variable {σ : Type} {f : TxQueue B × σ → TxItem → Option (TxQueue B × σ)}

/-- What a rebuild makes of the items, before it puts back those that it keeps. -/
def swept (q : TxQueue B) (f : TxQueue B × σ → TxItem → Option (TxQueue B × σ)) (s : σ) :
    (TxQueue B × σ) × List TxItem :=
  sweep f ({ q with heap := (B.drain q.heap).2 }, s) (B.drain q.heap).1

theorem rebuild_eq (q : TxQueue B) (s : σ) : q.rebuild f s = ((q.swept f s).1.2,
    { (q.swept f s).1.1 with heap := B.pushAll (q.swept f s).1.1.heap (q.swept f s).2 }) :=
  rfl

theorem swept_heap (hf : ∀ s s' item, f s item = some s' → s'.1.heap = s.1.heap) (q : TxQueue B)
    (s : σ) : (q.swept f s).1.1.heap = (B.drain q.heap).2 :=
  sweep_invariant (I := fun (s : TxQueue B × σ) _ => s.1.heap = (B.drain q.heap).2)
    (fun _ _ _ _ h => h) (fun s s' a _ htaken h => (hf s s' a htaken).trans h) rfl

theorem iter_rebuild (hf : ∀ s s' item, f s item = some s' → s'.1.heap = s.1.heap)
    {q : TxQueue B} (h : q.Refines l) (s : σ) :
    (B.iter (q.rebuild f s).2.heap).Perm (q.swept f s).2 ∧ B.Ordered (q.rebuild f s).2.heap := by
  have hroom : (B.iter q.heap).length ≤ txQueueCapacity := h.length_iter.trans_le h.room
  rw [rebuild_eq, swept_heap hf]
  exact BinaryHeap.rebuild_spec (sweep_sublist _ _) hroom h.ordered h.linear

end

section

variable {q : TxQueue B} {l : TxLine}

theorem Refines.drained (h : q.Refines l) :
    (B.drain q.heap).1.Perm (l.items.map toItem) :=
  (BinaryHeap.drain_spec h.ordered h.linear).1.trans h.contents

theorem isExpired_toItem (seen : UInt64) :
    ((!isExpired · seen) ∘ toItem) = fun a => decide (seen < a.deadlineMs) := by
  funext a
  exact decide_not.symm.trans (decide_eq_decide.mpr UInt64.not_le)

theorem expireItem_isSome (seen : UInt64) (s : TxQueue B × Nat) (item : TxItem) :
    (expireItem seen s item).isSome = item.isExpired seen := by
  rw [expireItem]
  cases item.isExpired seen <;> rfl

section

variable (h : q.Refines l)

include h

theorem Refines.swept_expireItem (seen : UInt64) :
    let r := q.swept (expireItem seen) 0
    r.1.1.Counts r.2 l.pushed (l.expired + r.1.2) l.preempted ∧
      r.1.2 + r.2.length = l.items.length ∧
      r.1.1.sequence = q.sequence ∧ r.1.1.observedNowMs = q.observedNowMs := by
  apply sweep_invariant (I := fun (s : TxQueue B × Nat) items =>
    s.1.Counts items l.pushed (l.expired + s.2) l.preempted ∧
      s.2 + items.length = l.items.length ∧
      s.1.sequence = q.sequence ∧ s.1.observedNowMs = q.observedNowMs)
  · rintro s items _ hperm ⟨hcounts, hlength, hsame⟩
    exact ⟨hcounts.perm hperm, hperm.length_eq ▸ hlength, hsame⟩
  · rintro s _ _ items htaken ⟨hcounts, hlength, hsame⟩
    rw [expireItem] at htaken
    split at htaken
    · obtain rfl := Option.some.inj htaken
      rw [length_cons] at hlength
      exact ⟨hcounts.release.expire, by omega, hsame⟩
    · cases htaken
  · exact ⟨(h.counts.perm h.drained.symm).withHeap _,
      by rw [h.drained.length_eq, length_map]; omega, rfl, rfl⟩

theorem Refines.kept_expireItem (seen : UInt64) : (q.swept (expireItem seen) 0).2.Perm
      ((l.items.filter (seen < ·.deadlineMs)).map toItem) := by
  rw [swept, sweep_filter (expireItem_isSome seen), ← isExpired_toItem, ← filter_map]
  exact h.drained.filter _

theorem Refines.observe :
    ({ q with observedNowMs := max q.observedNowMs nowMs } : TxQueue B).Refines
      { l with seen := max l.seen nowMs } :=
  { h with
    counts := { h.counts with }
    observedNowMs := by rw [h.observedNowMs] }

theorem Refines.rebuild_expireItem :
    (q.rebuild (expireItem l.seen) 0).1 = l.items.countP (·.deadlineMs ≤ l.seen) ∧
    (q.rebuild (expireItem l.seen) 0).2.Refines
      { l with
        items := l.items.filter (l.seen < ·.deadlineMs)
        expired := l.expired + l.items.countP (·.deadlineMs ≤ l.seen) } := by
  obtain ⟨hcounts, hlength, hsequence, hobserved⟩ := h.swept_expireItem l.seen
  have hkept := h.kept_expireItem l.seen
  have hcount : (q.swept (expireItem l.seen) 0).1.2 = l.items.countP (·.deadlineMs ≤ l.seen) := by
    have hsplit := l.items.length_eq_countP_add_countP (·.deadlineMs ≤ l.seen)
    rw [hkept.length_eq, length_map, ← countP_eq_length_filter] at hlength
    simp only [decide_eq_true_eq, UInt64.not_le] at hsplit
    omega
  obtain ⟨hcontents, hordered⟩ := iter_rebuild (f := expireItem l.seen) (fun s s' item htaken => by
    rw [expireItem] at htaken
    split at htaken
    · obtain rfl := Option.some.inj htaken
      rfl
    · cases htaken) h 0
  refine ⟨hcount, hordered, hcontents.trans hkept, ?_, hsequence.trans h.sequence,
    hobserved.trans h.observedNowMs, h.inOrder.sublist filter_sublist,
    (length_filter_le _ _).trans h.room⟩
  rw [hcount] at hcounts
  exact (hcounts.perm hkept).withHeap _

theorem Refines.expireBefore (nowMs : UInt64) :
    (q.expireBefore nowMs).1 = (l.expireBefore nowMs).expired - l.expired ∧
      (q.expireBefore nowMs).2.Refines (l.expireBefore nowMs) := by
  obtain ⟨hcount, hrefines⟩ := h.observe.rebuild_expireItem
  have heq : q.expireBefore nowMs =
      ({ q with observedNowMs := max q.observedNowMs nowMs } : TxQueue B).rebuild
        (expireItem (max l.seen nowMs)) 0 := by
    rw [← h.observedNowMs]
    rfl
  rw [heq]
  exact ⟨hcount.trans (Nat.add_sub_cancel_left _ _).symm, hrefines⟩

theorem Refines.remove (ha : a ∈ l.items) {q' : TxQueue B}
    (hordered : B.Ordered q'.heap) (hcontents : (B.iter q.heap).Perm (a.toItem :: B.iter q'.heap))
    (hcounts : ∀ items, q.Counts (a.toItem :: items) l.pushed l.expired l.preempted →
      q'.Counts items l.pushed l.expired preempted)
    (hsequence : q'.sequence = q.sequence) (hobserved : q'.observedNowMs = q.observedNowMs) :
    q'.Refines { l.remove a with preempted } := by
  have herase : (l.items.map toItem).Perm (a.toItem :: (l.items.erase a).map toItem) :=
    (perm_cons_erase ha).map toItem
  exact {
    ordered := hordered
    contents := ((hcontents.symm.trans h.contents).trans herase).cons_inv
    counts := hcounts _ (h.counts.perm herase)
    sequence := hsequence.trans h.sequence
    observedNowMs := hobserved.trans h.observedNowMs
    inOrder := h.inOrder.sublist erase_sublist
    room := erase_sublist.length_le.trans h.room }

theorem Refines.mem_iter :
    item ∈ B.iter q.heap ↔ ∃ a ∈ l.items, a.toItem = item :=
  h.contents.mem_iff.trans mem_map

theorem Refines.precedes (ha : a ∈ l.items) (hb : b ∈ l.items) :
    cmp a.toItem b.toItem ≠ .lt ↔ a.Precedes b :=
  cmp_toItem_ne_lt (h.inOrder.close ha hb) (h.inOrder.close hb ha)

theorem Refines.exists_top {heap : B.Carrier} (hpop : B.pop q.heap = some (item, heap)) :
    ∃ a ∈ l.items, a.toItem = item ∧ ∀ b ∈ l.items, a.Precedes b := by
  obtain ⟨a, ha, rfl⟩ := h.mem_iter.mp ((B.iter_pop hpop).mem_iff.mpr mem_cons_self)
  refine ⟨a, ha, rfl, fun b hb => (h.precedes ha hb).mp ?_⟩
  exact B.pop_max h.ordered h.linear hpop _ (h.mem_iter.mpr ⟨b, hb, rfl⟩)

theorem Refines.items_eq_nil (hpop : B.pop q.heap = none) : l.items = [] := by
  have hcontents := h.contents
  rw [B.pop_eq_none.mp hpop] at hcontents
  exact map_eq_nil_iff.mp hcontents.nil_eq.symm

theorem Refines.pop (nowMs : UInt64) :
    (q.pop nowMs).1.map packet = (l.serve nowMs fun _ => true).1 ∧
      (q.pop nowMs).2.Refines (l.serve nowMs fun _ => true).2 := by
  obtain ⟨-, hexpired⟩ := h.expireBefore nowMs
  dsimp only [TxQueue.pop, TxLine.serve, TxLine.take]
  cases hpop : B.pop (q.expireBefore nowMs).2.heap with
  | none =>
    have hempty := hexpired.items_eq_nil hpop
    rw [TxLine.next_eq_none (by rw [hempty]; exact nofun)]
    exact ⟨rfl, hexpired⟩
  | some popped =>
    obtain ⟨_, ha, hitem, hfirst⟩ := hexpired.exists_top hpop
    rw [TxLine.next_eq_some hexpired.inOrder ha rfl fun b hb _ => hfirst b hb]
    dsimp only
    rw [← hitem]
    refine ⟨rfl, hexpired.remove ha (B.ordered_pop hexpired.ordered hexpired.linear hpop)
      (hitem ▸ B.iter_pop hpop) (fun items hcounts => ?_) rfl rfl⟩
    exact { (hcounts.withHeap popped.2).release with }

theorem Refines.exists_first (hfind : (B.drain q.heap).1.find? p = some item) :
    ∃ a ∈ l.items, a.toItem = item ∧ p a.toItem = true ∧
      (∀ b ∈ l.items, p b.toItem = true → a.Precedes b) ∧
      (B.iter q.heap).Perm (a.toItem :: (B.drain q.heap).1.eraseP p) := by
  obtain ⟨hp, before, after, hsplit, hbefore⟩ := List.find?_eq_some_iff_append.mp hfind
  obtain ⟨hperm, hsorted, -⟩ := BinaryHeap.drain_spec h.ordered h.linear
  have hmem : item ∈ (B.drain q.heap).1 := mem_of_find?_eq_some hfind
  obtain ⟨a, ha, rfl⟩ := h.mem_iter.mp (hperm.mem_iff.mp hmem)
  refine ⟨a, ha, rfl, hp, fun b hb hpb => ?_, ?_⟩
  · have hb' : b.toItem ∈ (B.drain q.heap).1 := hperm.mem_iff.mpr (h.mem_iter.mpr ⟨b, hb, rfl⟩)
    rw [← h.precedes ha hb]
    rw [hsplit] at hb' hsorted
    obtain hb' | hb' := mem_append.mp hb'
    · exact absurd hpb (by simpa using hbefore _ hb')
    · obtain heq | hb' := mem_cons.mp hb'
      · rw [heq]
        exact h.linear.refl (h.mem_iter.mpr ⟨a, ha, rfl⟩)
      · exact (pairwise_cons.mp (pairwise_append.mp hsorted).2.1).1 _ hb'
  · have herase : (B.drain q.heap).1.eraseP p = before ++ after := by
      rw [hsplit, eraseP_append_right _ fun b hb => by simpa using hbefore b hb,
        eraseP_cons_of_pos hp]
    rw [herase]
    exact hperm.symm.trans (hsplit ▸ perm_middle)

theorem Refines.rebuild_first (taken : σ → Bool)
    {g : TxQueue B → TxItem → TxQueue B} {done : TxItem → σ} (hf : ∀ s item, f s item =
      if !taken s.2 && p item then some (g s.1 item, done item) else none)
    (hg : ∀ q item, (g q item).heap = q.heap) (hdone : ∀ item, taken (done item) = true)
    (hs : taken s = false) :
    ∃ heap, (B.iter heap).Perm ((B.drain q.heap).1.eraseP p) ∧ B.Ordered heap ∧
      q.rebuild f s = match (B.drain q.heap).1.find? p with
        | none => (s, { q with heap })
        | some item => (done item, { g { q with heap := (B.drain q.heap).2 } item with heap }) := by
  have hroom : (B.iter q.heap).length ≤ txQueueCapacity := h.length_iter.trans_le h.room
  obtain ⟨hcontents, hordered⟩ := BinaryHeap.rebuild_spec
    (eraseP_sublist (p := p)) hroom h.ordered h.linear
  have hswept := sweep_first (fun s => taken s.2) (g := fun s item => (g s.1 item, done item)) hf
    (fun _ => hdone) (s := ({ q with heap := (B.drain q.heap).2 }, s)) hs (B.drain q.heap).1
  refine ⟨_, hcontents, hordered, ?_⟩
  rw [rebuild_eq, swept, hswept]
  cases (B.drain q.heap).1.find? p with
  | none => rfl
  | some =>
    dsimp only [Option.elim]
    rw [hg]

theorem Refines.rebuild_takeAllowed (level : CongestionLevel) :
    (q.rebuild (takeAllowed level) none).1.map packet = (l.take (checkCongestionAllows level)).1 ∧
      (q.rebuild (takeAllowed level) none).2.Refines (l.take (checkCongestionAllows level)).2 := by
  obtain ⟨heap, hcontents, hordered, hrebuild⟩ := h.rebuild_first Option.isSome (s := none)
    (f := takeAllowed level) (p := fun item => checkCongestionAllows level item.priority)
    (g := fun q item => (q.release item).recordLatency item) (fun _ _ => rfl) (fun _ _ => rfl)
    (fun _ => Option.isSome_some) rfl
  rw [hrebuild, TxLine.take]
  cases hfind : (B.drain q.heap).1.find? fun item => checkCongestionAllows level item.priority with
  | none =>
    have hnone := List.find?_eq_none.mp hfind
    rw [eraseP_of_forall_not hnone] at hcontents
    rw [TxLine.next_eq_none fun b hb => Bool.not_eq_true _ ▸
      hnone b.toItem (h.drained.mem_iff.mpr (mem_map_of_mem hb))]
    exact ⟨rfl, { h with
      ordered := hordered
      contents := hcontents.trans h.drained
      counts := h.counts.withHeap heap }⟩
  | some =>
    obtain ⟨_, ha, rfl, hallows, hfirst, hperm⟩ := h.exists_first hfind
    rw [TxLine.next_eq_some h.inOrder ha hallows hfirst]
    refine ⟨rfl, h.remove ha hordered (hperm.trans (hcontents.symm.cons _)) (fun items hcounts => ?_)
      rfl rfl⟩
    exact { (hcounts.withHeap heap).release with }

theorem Refines.popIfAllowed (nowMs : UInt64) (level : CongestionLevel) :
    (q.popIfAllowed nowMs level).1.map packet = (l.serve nowMs (checkCongestionAllows level)).1 ∧
      (q.popIfAllowed nowMs level).2.Refines (l.serve nowMs (checkCongestionAllows level)).2 := by
  obtain ⟨-, hexpired⟩ := h.expireBefore nowMs
  rw [TxQueue.popIfAllowed, TxLine.serve]
  split
  · rename_i hlevel
    rw [TxLine.take, TxLine.next_eq_none fun b _ => by rw [hlevel]; rfl]
    exact ⟨rfl, hexpired⟩
  · split
    · rename_i htop
      obtain ⟨item, hpeek, hallows⟩ := (Option.any_eq_true _ _).mp htop
      rw [B.peek_eq] at hpeek
      obtain ⟨⟨top, heap⟩, hpop, rfl⟩ := Option.map_eq_some_iff.mp hpeek
      obtain ⟨a, ha, rfl, hfirst⟩ := hexpired.exists_top hpop
      have hany : (l.expireBefore nowMs).next (fun _ => true) = some a :=
        TxLine.next_eq_some hexpired.inOrder ha rfl fun b hb _ => hfirst b hb
      have hallowed := TxLine.next_eq_some hexpired.inOrder ha hallows fun b hb _ => hfirst b hb
      have hpopped := hexpired.pop nowMs
      rw [TxLine.serve, TxLine.expireBefore_expireBefore, TxLine.take, hany] at hpopped
      rw [TxLine.take, hallowed]
      exact hpopped
    · exact hexpired.rebuild_takeAllowed level

end

theorem foldl_max_le (items : List TxItem) (worst n : Nat) :
    items.foldl (fun worst item => max worst item.priority.toU8) worst ≤ n ↔
      worst ≤ n ∧ ∀ item ∈ items, item.priority.toU8 ≤ n := by
  induction items generalizing worst with
  | nil => simp
  | cons item items ih => rw [foldl_cons, ih, forall_mem_cons, Nat.max_le, and_assoc]

theorem foldl_oldestAt (h : InOrder items pushed)
    (holdest : ∀ b ∈ items, b.priority.toU8 = v.priority.toU8 → v.index ≤ b.index)
    (hsub : arrivals ⊆ items) (oldest : Option Arrival)
    (hmem : ∀ b ∈ oldest, b ∈ items ∧ b.priority.toU8 = v.priority.toU8)
    (hseen : v ∈ arrivals ∨ oldest = some v) :
    (arrivals.map toItem).foldl (oldestAt v.priority.toU8) (oldest.map (·.toItem.sequence)) =
      some v.toItem.sequence := by
  induction arrivals generalizing oldest with
  | nil => rw [hseen.resolve_left not_mem_nil]; rfl
  | cons a arrivals ih =>
    obtain ⟨ha, hsub⟩ := cons_subset.mp hsub
    rw [mem_cons, or_assoc, or_left_comm] at hseen
    rw [map_cons, foldl_cons]
    dsimp only [oldestAt]
    split
    · rename_i hworst
      have hstep (c : Arrival) (hc : c ∈ items ∧ c.priority.toU8 = v.priority.toU8)
          (hvc : v = a ∨ oldest = some v → c = v) := ih hsub (some c)
        (fun _ hb => Option.some.inj hb ▸ hc) (hseen.imp_right fun h => congrArg some (hvc h))
      cases oldest with
      | none => exact hstep a ⟨ha, hworst⟩ fun h => (h.resolve_right nofun).symm
      | some b =>
        obtain ⟨hb, hbworst⟩ := hmem b rfl
        dsimp only [Option.map_some]
        simp only [h.distance_neg ha hb]
        split
        · rename_i hlt
          refine hstep a ⟨ha, hworst⟩ fun hv => (hv.resolve_right ?_).symm
          rintro ⟨⟩
          exact Nat.not_lt.mpr (holdest a ha hworst) hlt
        · rename_i hle
          refine hstep b ⟨hb, hbworst⟩ fun hv => hv.elim (fun heq => ?_) Option.some.inj
          subst heq
          exact h.eq_of_index_eq hb ha (Nat.le_antisymm (Nat.not_lt.mp hle) (holdest b hb hbworst))
    · rename_i hworst
      refine ih hsub oldest hmem (hseen.imp_right fun hv => hv.resolve_left ?_)
      rintro rfl
      exact hworst rfl

theorem Refines.eq_of_sequence_eq (h : q.Refines l) (ha : a ∈ l.items)
    (hb : b ∈ l.items) (hsequence : a.toItem.sequence = b.toItem.sequence) : a = b := by
  have hnat := congrArg UInt32.toNat hsequence
  rw [toItem, toItem, UInt32.toNat_ofNat', UInt32.toNat_ofNat'] at hnat
  have hab := h.inOrder.close ha hb
  have hba := h.inOrder.close hb ha
  exact h.inOrder.eq_of_index_eq ha hb (by omega)

theorem Refines.rebuild_preemptItem (h : q.Refines l) (hv : v ∈ l.items) :
    (q.rebuild (preemptItem v.priority.toU8 v.toItem.sequence) false).1 = true ∧
      (q.rebuild (preemptItem v.priority.toU8 v.toItem.sequence) false).2.Refines
        { l.remove v with preempted := l.preempted + 1 } := by
  obtain ⟨heap, hcontents, hordered, hrebuild⟩ := h.rebuild_first id (s := false)
    (f := preemptItem v.priority.toU8 v.toItem.sequence)
    (p := fun item => item.priority.toU8 = v.priority.toU8 && item.sequence = v.toItem.sequence)
    (g := fun q item => { q.release item with
      packetsPreempted := saturate32 ((q.release item).packetsPreempted + 1) })
    (fun _ _ => rfl) (fun _ _ => rfl) (fun _ => rfl) rfl
  rw [hrebuild]
  cases hfind : (B.drain q.heap).1.find? fun item =>
      item.priority.toU8 = v.priority.toU8 && item.sequence = v.toItem.sequence with
  | none =>
    have hnone := List.find?_eq_none.mp hfind v.toItem
      (h.drained.mem_iff.mpr (mem_map_of_mem hv))
    exact absurd hnone (by simp [toItem])
  | some item =>
    obtain ⟨_, ha, rfl, hp, -, hperm⟩ := h.exists_first hfind
    rw [Bool.and_eq_true, decide_eq_true_eq, decide_eq_true_eq] at hp
    obtain rfl := h.eq_of_sequence_eq ha hv hp.2
    refine ⟨rfl, h.remove ha hordered (hperm.trans (hcontents.symm.cons _)) (fun items hcounts => ?_)
      rfl rfl⟩
    exact hcounts.release.preempt.withHeap heap

theorem Refines.tryPreempt (h : q.Refines l) (priority : TxPriority) :
    match l.victim priority with
    | none => (q.tryPreempt priority).1 = false ∧ (q.tryPreempt priority).2.Refines l
    | some v => (q.tryPreempt priority).1 = true ∧
        (q.tryPreempt priority).2.Refines { l.remove v with preempted := l.preempted + 1 } := by
  have hle := fun n => foldl_max_le (B.iter q.heap) 0 n
  dsimp only [TxQueue.tryPreempt]
  generalize (B.iter q.heap).foldl (fun worst item => max worst item.priority.toU8) 0 = worst at *
  have hworst : ∀ b ∈ l.items, b.priority.toU8 ≤ worst := fun b hb =>
    ((hle worst).mp le_rfl).2 b.toItem (h.mem_iter.mpr ⟨b, hb, rfl⟩)
  by_cases hge : worst ≤ priority.toU8
  · rw [if_pos hge, TxLine.victim_eq_none fun b hb => (hworst b hb).trans hge]
    exact ⟨rfl, h⟩
  · obtain hfind | ⟨v, hfind⟩ :=
      (l.items.find? (·.priority.toU8 = worst)).eq_none_or_eq_some
    · have hpred : worst ≤ worst - 1 := (hle _).mpr ⟨Nat.zero_le _, fun item hitem => by
        obtain ⟨b, hb, rfl⟩ := h.mem_iter.mp hitem
        refine Nat.le_pred_of_lt (Nat.lt_of_le_of_ne (hworst b hb) fun heq => ?_)
        exact List.find?_eq_none.mp hfind b hb (decide_eq_true heq)⟩
      omega
    have hv := mem_of_find?_eq_some hfind
    obtain rfl : v.priority.toU8 = worst := by simpa using List.find?_some hfind
    have hoa : ∀ b ∈ l.items, b.priority.toU8 = v.priority.toU8 → v.index ≤ b.index :=
      fun b hb hp => h.inOrder.index_le_of_find? hfind hb (decide_eq_true hp)
    obtain ⟨arrivals, hiter, hperm⟩ : Relation.Comp (· = List.map toItem ·)
        (List.Perm · ·) (B.iter q.heap) l.items := by
      rw [eq_map_comp_perm]
      exact h.contents
    have htarget : (B.iter q.heap).foldl (oldestAt v.priority.toU8) none =
        some v.toItem.sequence :=
      hiter ▸ foldl_oldestAt h.inOrder hoa hperm.subset none nofun (.inl (hperm.mem_iff.mpr hv))
    rw [if_neg hge, TxLine.victim_eq_some h.inOrder hv (Nat.not_le.mp hge) hworst hoa, htarget]
    exact h.rebuild_preemptItem hv

end

end TxQueue

end Lichen.Core
