import Lichen.Core.TxQueue

namespace Lichen.Core

open Lichen.Lib List

def TxItem.packet (item : TxItem) : Packet :=
  ⟨item.priority, item.deadlineMs, item.enqueueTimeMs, item.data, item.fits⟩

structure Arrival extends Packet where
  index : Nat
  deriving DecidableEq

/-- The queue as a list of packets, the oldest first, with what happened so far. -/
structure TxLine where
  items : List Arrival
  pushed : Nat
  expired : Nat
  preempted : Nat
  seen : UInt64

namespace TxLine

def new : TxLine := ⟨[], 0, 0, 0, 0⟩

section

variable (l : TxLine)

def expireBefore (nowMs : UInt64) : TxLine :=
  let seen := max l.seen nowMs
  { l with
    items := l.items.filter (seen < ·.deadlineMs)
    expired := l.expired + l.items.countP (·.deadlineMs ≤ seen)
    seen }

def append (packet : Packet) : TxLine :=
  { l with items := l.items ++ [⟨packet, l.pushed⟩], pushed := l.pushed + 1 }

def next (allows : TxPriority → Bool) : Option Arrival :=
  l.items.find? fun item => allows item.priority &&
    l.items.all fun other => !allows other.priority || item.priority.toU8 ≤ other.priority.toU8

/-- The oldest packet of the worst priority, if `priority` is strictly better. -/
def victim (priority : TxPriority) : Option Arrival :=
  l.items.find? fun item => priority.toU8 < item.priority.toU8 &&
    l.items.all fun other => other.priority.toU8 ≤ item.priority.toU8

def remove (item : Arrival) : TxLine := { l with items := l.items.erase item }

def push (priority : TxPriority) (deadlineMs nowMs : UInt64) (data : List UInt8) :
    Except TxQueueError Unit × TxLine :=
  let l := l.expireBefore nowMs
  if deadlineMs ≤ l.seen then (.error .deadlineExpired, l)
  else if fits : data.length ≤ txItemMaxPayload then
    let packet := ⟨priority, deadlineMs, l.seen, data, fits⟩
    if l.items.length < txQueueCapacity then (.ok (), l.append packet)
    else
      match l.victim priority with
      | some item => (.ok (), { l.remove item with preempted := l.preempted + 1 }.append packet)
      | none => (.error .queueFull, l)
  else (.error .payloadTooLarge, l)

def take (allows : TxPriority → Bool) : Option Packet × TxLine :=
  match l.next allows with
  | some item => (some item.toPacket, l.remove item)
  | none => (none, l)

def serve (nowMs : UInt64) (allows : TxPriority → Bool) : Option Packet × TxLine :=
  (l.expireBefore nowMs).take allows

end

end TxLine

inductive QueueCall where
  | push (priority : TxPriority) (deadlineMs nowMs : UInt64) (data : List UInt8)
  | pop (nowMs : UInt64)
  | popIfAllowed (nowMs : UInt64) (level : CongestionLevel)
  | popAfterCsma (nowMs : UInt64) (level : CongestionLevel) (action : CsmaAction)
  | expireBefore (nowMs : UInt64)

inductive QueueAnswer where
  | pushed (result : Except TxQueueError Unit)
  | item (packet : Option Packet)
  | expired (count : Nat)

def TxQueue.answer {B : BinaryHeap TxItem.cmp txQueueCapacity} (q : TxQueue B) :
    QueueCall → QueueAnswer × TxQueue B
  | .push priority deadlineMs nowMs data =>
    ((q.push priority deadlineMs nowMs data).map .pushed id)
  | .pop nowMs => (q.pop nowMs).map (fun item => .item (item.map TxItem.packet)) id
  | .popIfAllowed nowMs level =>
    (q.popIfAllowed nowMs level).map (fun item => .item (item.map TxItem.packet)) id
  | .popAfterCsma nowMs level action =>
    (q.popAfterCsma nowMs level action).map (fun item => .item (item.map TxItem.packet)) id
  | .expireBefore nowMs => (q.expireBefore nowMs).map .expired id

/-- Without the leave of CSMA a call does nothing, and shows the queue no time. -/
def TxLine.answer (l : TxLine) : QueueCall → QueueAnswer × TxLine
  | .push priority deadlineMs nowMs data => (l.push priority deadlineMs nowMs data).map .pushed id
  | .pop nowMs => (l.serve nowMs fun _ => true).map .item id
  | .popIfAllowed nowMs level => (l.serve nowMs (checkCongestionAllows level)).map .item id
  | .popAfterCsma nowMs level action =>
    if action.txAllowed then (l.serve nowMs (checkCongestionAllows level)).map .item id
    else (.item none, l)
  | .expireBefore nowMs =>
    (.expired ((l.expireBefore nowMs).expired - l.expired), l.expireBefore nowMs)

/-- Packets in the order of their arrival, none of them so old that the sequence numbers of two
packets are out of order. -/
structure InOrder (items : List Arrival) (pushed : Nat) : Prop where
  sorted : items.Pairwise (·.index < ·.index)
  index_lt : ∀ a ∈ items, a.index < pushed
  fresh : ∀ a ∈ items, pushed ≤ a.index + 2 ^ 31

section

variable (h : InOrder items pushed)

include h

theorem InOrder.sublist (hsub : items'.Sublist items) : InOrder items' pushed where
  sorted := h.sorted.sublist hsub
  index_lt a ha := h.index_lt a (hsub.subset ha)
  fresh a ha := h.fresh a (hsub.subset ha)

theorem InOrder.close (ha : a ∈ items) (hb : b ∈ items) : a.index < b.index + 2 ^ 31 :=
  (h.index_lt a ha).trans_le (h.fresh b hb)

theorem InOrder.eq_of_index_eq
    (ha : a ∈ items) (hb : b ∈ items) (hindex : a.index = b.index) : a = b := by
  have hnodup : (items.map (·.index)).Nodup := pairwise_map.mpr (h.sorted.imp Nat.ne_of_lt)
  exact inj_on_of_nodup_map hnodup ha hb hindex

theorem InOrder.index_le_of_find? (hfind : items.find? p = some a) (hb : b ∈ items) (hp : p b) :
    a.index ≤ b.index := by
  obtain ⟨-, before, after, rfl, hbefore⟩ := List.find?_eq_some_iff_append.mp hfind
  obtain hb | hb := mem_append.mp hb
  · exact absurd hp (by simpa using hbefore b hb)
  · obtain rfl | hb := mem_cons.mp hb
    · exact le_rfl
    · exact ((pairwise_cons.mp (pairwise_append.mp h.sorted).2.1).1 b hb).le

theorem InOrder.find?_eq_some (ha : a ∈ items) (hp : p a)
    (hfirst : ∀ b ∈ items, p b → a.index ≤ b.index) : items.find? p = some a := by
  obtain ⟨b, hfind⟩ := Option.isSome_iff_exists.mp (List.find?_isSome.mpr ⟨a, ha, hp⟩)
  have hb := mem_of_find?_eq_some hfind
  rw [hfind, h.eq_of_index_eq hb ha (Nat.le_antisymm (h.index_le_of_find? hfind ha hp)
    (hfirst b hb (List.find?_some hfind)))]

end

def Arrival.Precedes (a b : Arrival) : Prop :=
  a.priority.toU8 < b.priority.toU8 ∨ a.priority.toU8 = b.priority.toU8 ∧ a.index ≤ b.index

namespace TxLine

variable {l : TxLine}

theorem expireBefore_expireBefore :
    (l.expireBefore nowMs).expireBefore nowMs = l.expireBefore nowMs := by
  have hseen : max (max l.seen nowMs) nowMs = max l.seen nowMs := by
    simp only [Max.max]
    split_ifs <;> simp_all
  have hnone : (l.items.filter (max l.seen nowMs < ·.deadlineMs)).countP
      (·.deadlineMs ≤ max l.seen nowMs) = 0 := by
    simp [countP_eq_zero]
  simp only [expireBefore, hseen, filter_filter, Bool.and_self, hnone, Nat.add_zero]

theorem mem_of_next (h : l.next allows = some a) : a ∈ l.items :=
  mem_of_find?_eq_some h

theorem mem_of_victim (h : l.victim priority = some a) : a ∈ l.items :=
  mem_of_find?_eq_some h

theorem length_remove (h : a ∈ l.items) : (l.remove a).items.length + 1 = l.items.length := by
  rw [remove, length_erase_of_mem h]
  exact Nat.sub_add_cancel (length_pos_of_mem h)

theorem next_eq_some (h : InOrder l.items l.pushed)
    (ha : a ∈ l.items) (hallows : allows a.priority = true)
    (hfirst : ∀ b ∈ l.items, allows b.priority = true → a.Precedes b) : l.next allows = some a := by
  apply h.find?_eq_some ha
  · simp only [hallows, Bool.true_and, all_eq_true, Bool.or_eq_true, Bool.not_eq_true',
      decide_eq_true_eq]
    intro b hb
    cases hb' : allows b.priority with
    | false => exact .inl rfl
    | true => exact .inr ((hfirst b hb hb').elim Nat.le_of_lt fun h => h.1.le)
  · intro b hb hbest
    simp only [Bool.and_eq_true, all_eq_true, Bool.or_eq_true, Bool.not_eq_true',
      decide_eq_true_eq] at hbest
    obtain ⟨hb', hbest⟩ := hbest
    have hle := (hbest a ha).resolve_left (by rw [hallows]; exact nofun)
    obtain hlt | ⟨-, hindex⟩ := hfirst b hb hb'
    · omega
    · exact hindex

theorem next_eq_none (h : ∀ b ∈ l.items, allows b.priority = false) : l.next allows = none := by
  apply List.find?_eq_none.mpr
  intro b hb
  rw [h b hb]
  exact nofun

theorem victim_eq_some (h : InOrder l.items l.pushed) (ha : a ∈ l.items)
    (hbetter : priority.toU8 < a.priority.toU8)
    (hworst : ∀ b ∈ l.items, b.priority.toU8 ≤ a.priority.toU8)
    (holdest : ∀ b ∈ l.items, b.priority.toU8 = a.priority.toU8 → a.index ≤ b.index) :
    l.victim priority = some a := by
  apply h.find?_eq_some ha
  · simp only [hbetter, decide_true, Bool.true_and, all_eq_true, decide_eq_true_eq]
    exact hworst
  · intro b hb hpb
    simp only [Bool.and_eq_true, all_eq_true, decide_eq_true_eq] at hpb
    exact holdest b hb (Nat.le_antisymm (hworst b hb) (hpb.2 a ha))

theorem victim_eq_none
    (h : ∀ b ∈ l.items, b.priority.toU8 ≤ priority.toU8) : l.victim priority = none := by
  apply List.find?_eq_none.mpr
  intro b hb hpb
  simp only [Bool.and_eq_true, decide_eq_true_eq] at hpb
  exact Nat.not_lt.mpr (h b hb) hpb.1

end TxLine

end Lichen.Core
